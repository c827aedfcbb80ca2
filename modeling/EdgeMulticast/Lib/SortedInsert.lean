import Mathlib.Data.List.Perm.Basic
import Mathlib.Order.Nat
import Mathlib.Tactic.Common

/-!
# Binary search and insertion into a sorted list

`search` is the half-open binary search for the first index at which a predicate turns true.
On a predicate that stays true once it is true it finds exactly that index (`search_spec`),
so an element spliced in there keeps a list sorted (`SortedBy.splice`).
-/

namespace EdgeMulticast.Lib

/-! ## Binary search -/

/-- The binary search of `[i, j)` for the first index satisfying `p`.  The search halves the
interval, so `j - i` rounds always suffice. -/
def search (p : ℕ → Bool) : ℕ → ℕ → ℕ → ℕ
  | 0, i, _ => i
  | fuel + 1, i, j =>
      if i < j then
        let h := (i + j) / 2
        if p h then search p fuel i h else search p fuel (h + 1) j
      else i

/-- On a predicate that stays true, everything before the index found is false and everything
from it on is true. -/
theorem search_spec {p : ℕ → Bool} (mono : ∀ x y, x ≤ y → p x = true → p y = true) :
    ∀ (fuel i j : ℕ), j - i ≤ fuel → i ≤ j → (∀ x < i, p x = false) → p j = true →
      ∀ x, p x = true ↔ search p fuel i j ≤ x
  | 0, i, j, hf, hij, hlo, hhi, x => by
      have hj : j = i := by omega
      subst hj
      refine ⟨fun hx ↦ ?_, fun hx ↦ mono _ _ hx hhi⟩
      by_contra hlt
      exact absurd hx (by simp [hlo x (by simpa [search] using hlt)])
  | fuel + 1, i, j, hf, hij, hlo, hhi, x => by
      rw [search]
      split
      · dsimp only
        split
        next h _ =>
          exact search_spec mono fuel i ((i + j) / 2) (by omega) (by omega) hlo ‹_› x
        next _ hmid =>
          refine search_spec mono fuel _ j (by omega) (by omega) (fun y hy ↦ ?_) hhi x
          refine Bool.eq_false_iff.mpr fun hy' ↦ hmid ?_
          exact mono y _ (by omega) hy'
      · have hj : j = i := by omega
        subst hj
        refine ⟨fun hx ↦ ?_, fun hx ↦ mono _ _ hx hhi⟩
        by_contra hlt
        exact absurd hx (by simp [hlo x (by omega)])

/-! ## Insertion -/

variable {α : Type*} (key : α → ℕ)

/-- Sorted by a key, ties in any order. -/
def SortedBy (l : List α) : Prop := l.Pairwise fun a b ↦ key a ≤ key b

/-- The index at which `d` is spliced into `l`: the first element with a larger key. -/
def insertionPoint (l : List α) (d : α) : ℕ :=
  search (fun x ↦ match l[x]? with
    | some b => decide (key d < key b)
    | none => true) l.length 0 l.length

/-- The list with `d` spliced in at index `i`, everything from there on moved up by one. -/
def splice (l : List α) (i : ℕ) (d : α) : List α := l.take i ++ d :: l.drop i

theorem perm_splice (l : List α) (i : ℕ) (d : α) : (splice l i d).Perm (d :: l) := by
  refine List.perm_middle.trans (List.Perm.cons d ?_)
  rw [List.take_append_drop]

variable {key}

theorem SortedBy.key_mono {l : List α} (h : SortedBy key l) {x y : ℕ} {a b : α} (hxy : x ≤ y)
    (ha : l[x]? = some a) (hb : l[y]? = some b) : key a ≤ key b := by
  obtain ⟨hx, rfl⟩ := List.getElem?_eq_some_iff.mp ha
  obtain ⟨hy, rfl⟩ := List.getElem?_eq_some_iff.mp hb
  rcases Nat.eq_or_lt_of_le hxy with rfl | hlt
  · exact le_refl _
  · exact List.pairwise_iff_getElem.mp h x y hx hy hlt

/-- In a sorted list the insertion point splits the keys. -/
theorem SortedBy.lt_iff_insertionPoint_le {l : List α} (h : SortedBy key l) (d : α) {x : ℕ}
    {b : α} (hb : l[x]? = some b) : key d < key b ↔ insertionPoint key l d ≤ x := by
  rw [insertionPoint, ← search_spec (fun x y hxy hx ↦ ?_) l.length 0 l.length (by omega)
    (Nat.zero_le _) (by simp) (by simp) x, hb]
  · simp
  · cases hy : l[y]? with
    | none => rfl
    | some c =>
        have hlt : x < l.length :=
          lt_of_le_of_lt hxy (List.getElem?_eq_some_iff.mp hy).1
        rw [List.getElem?_eq_getElem hlt] at hx
        have := h.key_mono hxy (List.getElem?_eq_getElem hlt) hy
        simp only [decide_eq_true_eq] at hx ⊢
        omega

/-- Splicing at the insertion point keeps a list sorted. -/
theorem SortedBy.splice {l : List α} (h : SortedBy key l) (d : α) :
    SortedBy key (splice l (insertionPoint key l d) d) := by
  rw [SortedBy, Lib.splice, List.pairwise_append, List.pairwise_cons]
  refine ⟨h.sublist (List.take_sublist _ _), ⟨fun b hb ↦ ?_, h.sublist (List.drop_sublist _ _)⟩,
    fun a ha b hb ↦ ?_⟩
  · obtain ⟨x, hx⟩ := List.mem_iff_getElem?.mp hb
    rw [List.getElem?_drop] at hx
    exact ((h.lt_iff_insertionPoint_le d hx).mpr (by omega)).le
  · obtain ⟨x, hx⟩ := List.mem_iff_getElem?.mp ha
    have hlt : x < insertionPoint key l d := by
      have := (List.getElem?_eq_some_iff.mp hx).1
      rw [List.length_take] at this
      omega
    rw [List.getElem?_take_of_lt hlt] at hx
    have had : key a ≤ key d := by
      by_contra hgt
      exact absurd ((h.lt_iff_insertionPoint_le d hx).mp (by omega)) (by omega)
    rcases List.mem_cons.mp hb with rfl | hb
    · exact had
    · obtain ⟨y, hy⟩ := List.mem_iff_getElem?.mp hb
      rw [List.getElem?_drop] at hy
      exact h.key_mono (by omega) hx hy

/-- Appending an element whose key is not below the last one keeps a list sorted. -/
theorem SortedBy.concat {l : List α} (h : SortedBy key l) {d : α}
    (hlast : ∀ b ∈ l.getLast?, key b ≤ key d) : SortedBy key (l ++ [d]) := by
  refine List.pairwise_append.mpr ⟨h, List.pairwise_singleton _ _, fun a ha b hb ↦ ?_⟩
  rw [List.mem_singleton] at hb
  subst hb
  obtain ⟨x, hx⟩ := List.mem_iff_getElem?.mp ha
  have hlt := (List.getElem?_eq_some_iff.mp hx).1
  have hne : l ≠ [] := List.ne_nil_of_mem ha
  have hget : l.getLast? = some (l.getLast hne) := List.getLast?_eq_some_getLast hne
  refine le_trans (h.key_mono (y := l.length - 1) (by omega) hx ?_) (hlast _ hget)
  rw [← hget, List.getLast?_eq_getElem?]

end EdgeMulticast.Lib
