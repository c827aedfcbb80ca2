import Mathlib.Data.List.Basic
import Mathlib.Tactic.Common

/-!
# Reads that come up short

A stream hands over what it holds in pieces of its own choosing: a read that asks for `n` elements may
get fewer, may be interrupted, and may fail.  `Source.fill` asks until it has what it wants or the
stream is at its end.

`fill_cases` is the rule: unless the stream fails, what `fill` gets are the next elements, however
they come, and it gets fewer than it wants only at the end.
-/

namespace EdgeMulticast.Lib

variable {α : Type*}

/-- What a stream does with one read. -/
inductive Answer where
  | interrupted
  | failed
  /-- It hands over at most `more + 1` elements. -/
  | upTo (more : ℕ)
deriving DecidableEq, Repr

/-- A stream: how it will answer the next reads, and what it still holds.  Reads that are not planned
get all they ask for. -/
structure Source (α : Type*) where
  plan : List Answer
  rest : List α

namespace Source

/-- Ask until `n` elements are there or the stream is at its end. -/
def fillFrom : List Answer → ℕ → List α → Option (List α) × Source α
  | plan, 0, rest => (some [], ⟨plan, rest⟩)
  | [], n + 1, rest => (some (rest.take (n + 1)), ⟨[], rest.drop (n + 1)⟩)
  | .interrupted :: plan, n + 1, rest => fillFrom plan (n + 1) rest
  | .failed :: plan, _ + 1, rest => (none, ⟨plan, rest⟩)
  | .upTo more :: plan, n + 1, rest =>
      let got := rest.take (min (more + 1) (n + 1))
      if got.isEmpty then (some [], ⟨plan, rest⟩)
      else
        let filled := fillFrom plan (n + 1 - got.length) (rest.drop got.length)
        (filled.1.map (got ++ ·), filled.2)

def fill (s : Source α) (n : ℕ) : Option (List α) × Source α := fillFrom s.plan n s.rest

/-- No read of the stream will fail. -/
def Sound (s : Source α) : Prop := Answer.failed ∉ s.plan

/-- What filling comes to: the next elements, or a failure. -/
inductive Fills (s : Source α) (n : ℕ) : Option (List α) × Source α → Prop where
  | filled (t : Source α) (hrest : t.rest = s.rest.drop n) (hplan : t.plan <:+ s.plan) :
      Fills s n (some (s.rest.take n), t)
  | failed (t : Source α) (hplan : Answer.failed ∈ s.plan) : Fills s n (none, t)

theorem fill_cases (s : Source α) (n : ℕ) : s.Fills n (s.fill n) := by
  obtain ⟨plan, rest⟩ := s
  change Fills ⟨plan, rest⟩ n (fillFrom plan n rest)
  induction plan generalizing n rest with
  | nil =>
      cases n with
      | zero => exact .filled _ rfl (List.suffix_refl _)
      | succ n => exact .filled _ rfl (List.suffix_refl _)
  | cons answer plan ih =>
      have hsuffix := List.suffix_cons answer plan
      cases n with
      | zero =>
          have hnone : fillFrom (answer :: plan) 0 rest = (some [], ⟨answer :: plan, rest⟩) := by
            cases answer <;> rfl
          rw [hnone]
          exact .filled _ rfl (List.suffix_refl _)
      | succ n =>
          cases answer with
          | interrupted =>
              rw [fillFrom]
              generalize fillFrom plan (n + 1) rest = out, ih (n + 1) rest = hout
              cases hout with
              | filled t hrest hplan => exact .filled t hrest (hplan.trans hsuffix)
              | failed t hplan => exact .failed t (List.mem_cons_of_mem _ hplan)
          | failed => exact .failed _ List.mem_cons_self
          | upTo more =>
              rw [fillFrom]
              dsimp only
              generalize hgot : rest.take (min (more + 1) (n + 1)) = got
              split
              next hempty =>
                  have hnil : rest = [] := by
                    rw [List.isEmpty_iff.mp hempty, List.take_eq_nil_iff] at hgot
                    exact hgot.resolve_left (by omega)
                  subst hnil
                  exact .filled ⟨plan, []⟩ rfl hsuffix
              next =>
                  have hlen : got.length ≤ n + 1 := by
                    rw [← hgot, List.length_take]
                    omega
                  have hprefix : rest.take got.length = got := by
                    rw [← hgot, List.length_take, List.take_eq_take_iff]
                    omega
                  have htake : got ++ (rest.drop got.length).take (n + 1 - got.length) =
                      rest.take (n + 1) := by
                    rw [← Nat.add_sub_of_le hlen, List.take_add, hprefix, Nat.add_sub_cancel_left]
                  generalize fillFrom plan (n + 1 - got.length) (rest.drop got.length) = out,
                    ih (n + 1 - got.length) (rest.drop got.length) = hout
                  cases hout with
                  | filled t hrest hplan =>
                      rw [Option.map_some, htake]
                      refine .filled t ?_ (hplan.trans hsuffix)
                      rw [hrest, List.drop_drop, Nat.add_sub_of_le hlen]
                  | failed t hplan => exact .failed t (List.mem_cons_of_mem _ hplan)

/-- A sound stream gives the next elements, and stays sound. -/
theorem Sound.fill {s : Source α} (h : s.Sound) (n : ℕ) : ∃ t : Source α, t.Sound ∧
    t.rest = s.rest.drop n ∧ s.fill n = (some (s.rest.take n), t) := by
  generalize hout : s.fill n = out, s.fill_cases n = hcases
  cases hcases with
  | filled t hrest hplan => exact ⟨t, fun hmem ↦ h (hplan.subset hmem), hrest, rfl⟩
  | failed t hplan => exact absurd hplan h

/-- What is got from any stream is what comes next in it. -/
theorem of_fill {s t : Source α} {n : ℕ} {got : List α} (h : s.fill n = (some got, t)) :
    got = s.rest.take n ∧ t.rest = s.rest.drop n := by
  have hcases := s.fill_cases n
  rw [h] at hcases
  cases hcases with
  | filled _ hrest _ => exact ⟨rfl, hrest⟩

end Source

/-! ## Streams that were cut

A stream of records ends where one of them ends, or inside one. -/

/-- What a cut leaves behind the first `k` records. -/
inductive Cut (records : List (List α)) (k : ℕ) : List α → Prop where
  | between (hk : k ≤ records.length) : Cut records k []
  | inside {record tail : List α} (hk : records[k]? = some record) (hcut : tail <+: record)
      (hnil : tail ≠ []) (hne : tail ≠ record) : Cut records k tail

variable {records : List (List α)} {front tail : List α} {k : ℕ}

theorem exists_cut (h : front <+: records.flatten) :
    ∃ k tail, Cut records k tail ∧ front = (records.take k).flatten ++ tail := by
  induction records generalizing front with
  | nil => exact ⟨0, [], .between (Nat.le_refl _), List.prefix_nil.mp h⟩
  | cons record records ih =>
      rw [List.flatten_cons] at h
      rcases List.prefix_or_prefix_of_prefix h (List.prefix_append record _) with hfront | hfront
      · by_cases hnil : front = []
        · exact ⟨0, [], .between (Nat.zero_le _), hnil⟩
        · by_cases heq : front = record
          · refine ⟨1, [], .between (Nat.le_add_left 1 _), ?_⟩
            rw [heq, List.take_succ_cons, List.take_zero, List.flatten_cons, List.flatten_nil,
              List.append_nil, List.append_nil]
          · exact ⟨0, front, .inside rfl hfront hnil heq, rfl⟩
      · obtain ⟨more, rfl⟩ := hfront
        obtain ⟨k, tail, hcut, rfl⟩ := ih ((List.prefix_append_right_inj record).mp h)
        refine ⟨k + 1, tail, ?_, ?_⟩
        · cases hcut with
          | between hk => exact .between (Nat.succ_le_succ hk)
          | inside hk hcut hnil hne => exact .inside hk hcut hnil hne
        · rw [List.take_succ_cons, List.flatten_cons, List.append_assoc]

theorem Cut.le_length (h : Cut records k tail) : k ≤ records.length := by
  cases h with
  | between hk => exact hk
  | inside hk _ _ _ => exact Nat.le_of_lt (List.getElem?_eq_some_iff.mp hk).1

/-- The first `k` records are those that are whole. -/
theorem Cut.whole_iff (h : Cut records k tail) (hnil : [] ∉ records) {j : ℕ}
    (hj : j ≤ records.length) :
    (records.take j).flatten <+: (records.take k).flatten ++ tail ↔ j ≤ k := by
  have hmono {i j : ℕ} (hij : i ≤ j) : (records.take i).flatten <+: (records.take j).flatten := by
    have htake : records.take i <+: records.take j := List.take_prefix_take_left hij
    obtain ⟨more, hmore⟩ := htake
    rw [← hmore, List.flatten_append]
    exact List.prefix_append _ _
  constructor
  · intro hwhole
    by_contra hle
    have hlt : k < j := Nat.lt_of_not_le hle
    have hk : k < records.length := by omega
    have hnext := (hmono (Nat.succ_le_of_lt hlt)).trans hwhole
    rw [List.take_succ_eq_append_getElem hk, List.flatten_append, List.flatten_singleton,
      List.prefix_append_right_inj] at hnext
    cases h with
    | between => exact hnil (List.prefix_nil.mp hnext ▸ List.getElem_mem hk)
    | inside hget hcut _ hne =>
        obtain rfl := Option.some.inj ((List.getElem?_eq_getElem hk).symm.trans hget)
        exact hne (hcut.eq_of_length_le hnext.length_le)
  · intro hle
    exact (hmono hle).trans (List.prefix_append _ _)

end EdgeMulticast.Lib
