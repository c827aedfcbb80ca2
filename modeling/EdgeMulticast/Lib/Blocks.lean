import Mathlib.Data.List.Basic

/-!
# Streams of delimited blocks

A sender writes blocks one after the other, each an opening message, a body and a closing
message.  A receiver sees a sublist of the stream: messages are lost, never reordered.

`Framing.sublist_stream` is what the receiver may conclude from an opening message and a later
closing one: either both are of one block, and everything between them is of its body, or they
are of two blocks, in this order.  `last_unique` finds the last message of a kind.
-/

namespace EdgeMulticast.Lib

/-- How blocks are written: openers and closers are told apart from everything else. -/
structure Framing (B M : Type*) where
  opener : B → M
  body : B → List M
  closer : B → M
  opener_fresh : ∀ g g', opener g ∉ body g' ++ [closer g']
  closer_fresh : ∀ g g', closer g ∉ body g'

namespace Framing

variable {B M : Type*} (F : Framing B M)

def block (g : B) : List M := F.opener g :: (F.body g ++ [F.closer g])

/-- The blocks of a list, one after the other. -/
def stream (gs : List B) : List M := gs.flatMap F.block

variable {F} {g g' : B} {before between : List M}

theorem opener_ne_closer : F.opener g ≠ F.closer g' := fun h ↦
  F.opener_fresh g g' (by rw [h]; simp)

/-- In the rest of a block, a closer is the block's own and comes last. -/
theorem sublist_body (h : (between ++ [F.closer g']).Sublist (F.body g ++ [F.closer g])) :
    between.Sublist (F.body g) ∧ F.closer g' = F.closer g := by
  obtain ⟨l₁, l₂, heq, h₁, h₂⟩ := List.sublist_append_iff.mp h
  rcases List.eq_nil_or_concat' l₂ with rfl | ⟨l, x, rfl⟩
  · have hmem : F.closer g' ∈ l₁ := by
      rw [← List.append_nil l₁, ← heq]
      simp
    exact absurd (h₁.subset hmem) (F.closer_fresh g' g)
  · obtain ⟨rfl, rfl⟩ : l = [] ∧ x = F.closer g := by
      rcases List.sublist_singleton.mp h₂ with hnil | hone
      · exact absurd hnil (by simp)
      · have hone' : l ++ [x] = [] ++ [F.closer g] := hone
        obtain ⟨hl, hx⟩ := List.append_inj' hone' rfl
        exact ⟨hl, List.singleton_inj.mp hx⟩
    obtain ⟨rfl, hlast⟩ := List.append_inj' heq rfl
    exact ⟨h₁, List.singleton_inj.mp hlast⟩

/-- In a block, an opener is the block's own and comes first. -/
theorem sublist_block {rest : List M}
    (h : (before ++ F.opener g' :: rest).Sublist (F.block g)) :
    F.opener g' = F.opener g ∧ rest.Sublist (F.body g ++ [F.closer g]) := by
  have hout {l : List M} (hl : l.Sublist (F.body g ++ [F.closer g])) : F.opener g' ∉ l :=
    fun hmem ↦ F.opener_fresh g' g (hl.subset hmem)
  rcases List.sublist_cons_iff.mp h with h | ⟨r, heq, hr⟩
  · exact absurd (by simp) (hout h)
  · cases before with
    | nil =>
        obtain ⟨hopener, rfl⟩ := List.cons.inj heq
        exact ⟨hopener, hr⟩
    | cons m before =>
        obtain ⟨-, rfl⟩ := List.cons.inj heq
        exact absurd (by simp) (hout hr)

/-- A closer in a stream is of one of its blocks. -/
theorem closer_mem_stream {gs : List B} (h : F.closer g ∈ F.stream gs) :
    ∃ g' ∈ gs, F.closer g = F.closer g' := by
  obtain ⟨g', hg', hmem⟩ := List.mem_flatMap.mp h
  refine ⟨g', hg', ?_⟩
  rcases List.mem_cons.mp hmem with heq | hmem
  · exact absurd heq.symm opener_ne_closer
  · rcases List.mem_append.mp hmem with hmem | hmem
    · exact absurd hmem (F.closer_fresh g g')
    · exact List.mem_singleton.mp hmem

/-- **An opener and a closer that are received** are of one block, with nothing but its body
between them, or of two blocks in the order of the stream. -/
theorem sublist_stream {gs : List B} (g g' : B)
    (h : (before ++ F.opener g :: (between ++ [F.closer g'])).Sublist (F.stream gs)) :
    (∃ b ∈ gs, F.opener g = F.opener b ∧ F.closer g' = F.closer b ∧ between.Sublist (F.body b)) ∨
      ∃ b b', [b, b'].Sublist gs ∧ F.opener g = F.opener b ∧ F.closer g' = F.closer b' := by
  induction gs generalizing before with
  | nil => exact absurd (List.sublist_nil.mp h) (by simp)
  | cons b gs ih =>
      have hlater {before : List M}
          (h : (before ++ F.opener g :: (between ++ [F.closer g'])).Sublist (F.stream gs)) :
          (∃ c ∈ b :: gs, F.opener g = F.opener c ∧ F.closer g' = F.closer c ∧
            between.Sublist (F.body c)) ∨
          ∃ c c', [c, c'].Sublist (b :: gs) ∧ F.opener g = F.opener c ∧ F.closer g' = F.closer c' := by
        rcases ih h with ⟨c, hc, hrest⟩ | ⟨c, c', hc, hrest⟩
        · exact Or.inl ⟨c, List.mem_cons_of_mem b hc, hrest⟩
        · exact Or.inr ⟨c, c', hc.cons b, hrest⟩
      obtain ⟨l₁, l₂, heq, h₁, h₂⟩ := List.sublist_append_iff.mp h
      rcases List.append_eq_append_iff.mp heq with ⟨front, rfl, hback⟩ | ⟨front, rfl, rfl⟩
      · -- the opener is the first message of the later blocks, or one of the first block
        cases front with
        | nil =>
            rw [List.nil_append] at hback
            rw [← hback] at h₂
            exact @hlater [] h₂
        | cons m front =>
            rw [List.cons_append] at hback
            obtain ⟨rfl, hrest⟩ := List.cons.inj hback
            obtain ⟨hopener, hfront⟩ := sublist_block h₁
            rcases List.eq_nil_or_concat' l₂ with rfl | ⟨l, x, rfl⟩
            · rw [List.append_nil] at hrest
              subst hrest
              obtain ⟨hbetween, hcloser⟩ := sublist_body hfront
              exact Or.inl ⟨b, List.mem_cons_self, hopener, hcloser, hbetween⟩
            · have hx : F.closer g' = x := by
                rw [← List.append_assoc] at hrest
                exact List.singleton_inj.mp (List.append_inj' hrest rfl).2
              obtain ⟨b', hb', hcloser⟩ := closer_mem_stream (g := g') (h₂.subset (by simp [hx]))
              refine Or.inr ⟨b, b', ?_, hopener, hcloser⟩
              exact (List.singleton_sublist.mpr hb').cons_cons b
      · exact hlater h₂

end Framing

/-- The last message of a kind is where it is. -/
theorem last_unique {M : Type*} {p : M → Prop} {x x' : M} {l l' r r' : List M} (hx : p x)
    (hx' : p x') (hr : ∀ m ∈ r, ¬p m) (hr' : ∀ m ∈ r', ¬p m) (h : l ++ x :: r = l' ++ x' :: r') :
    x = x' ∧ r = r' := by
  rcases List.append_eq_append_iff.mp h with ⟨c, rfl, hc⟩ | ⟨c, rfl, hc⟩
  · cases c with
    | nil => exact List.cons.inj hc
    | cons m c =>
        obtain ⟨-, rfl⟩ := List.cons.inj hc
        exact absurd hx' (hr x' (List.mem_append_right _ List.mem_cons_self))
  · cases c with
    | nil =>
        obtain ⟨h₁, h₂⟩ := List.cons.inj hc
        exact ⟨h₁.symm, h₂.symm⟩
    | cons m c =>
        obtain ⟨-, rfl⟩ := List.cons.inj hc
        exact absurd hx (hr' x (List.mem_append_right _ List.mem_cons_self))

end EdgeMulticast.Lib
