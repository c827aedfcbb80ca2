import Mathlib.Data.List.Basic
import Mathlib.Tactic.Common

/-!
# A cursor that goes round

A cursor moves over `m` places, from the last one back to the first.  Some places are marked: `S`
lists them in order.  `turn S c` is the number, within a lap, of the marked place that the cursor
meets next: a place that is not marked leaves it (`turn_skip`), and a marked place is the one it
names and moves it to the next (`turn_meet`).  `seek` is the walk to the next marked place.

The number does not depend on `m`, so places may be added behind the marked ones on the way.
-/

namespace EdgeMulticast.Lib

variable {S : List ℕ} {c m : ℕ}

/-- How many marked places lie before the cursor. -/
def before (S : List ℕ) (c : ℕ) : ℕ := S.countP (· < c)

/-- The number of the marked place that the cursor meets next. -/
def turn (S : List ℕ) (c : ℕ) : ℕ := before S c % S.length

theorem before_zero (S : List ℕ) : before S 0 = 0 := by
  rw [before, List.countP_eq_zero]
  simp

theorem before_of_forall_lt (h : ∀ i ∈ S, i < m) : before S m = S.length := by
  rw [before, List.countP_eq_length]
  simpa using h

theorem before_succ_of_notMem (h : c ∉ S) : before S (c + 1) = before S c := by
  refine List.countP_congr fun i hi ↦ ?_
  have hne : i ≠ c := fun heq ↦ h (heq ▸ hi)
  simp only [decide_eq_true_eq]
  omega

/-- The places before a marked place are those that are listed before it. -/
theorem before_getElem (hS : S.Pairwise (· < ·)) {k : ℕ} (hk : k < S.length) :
    before S S[k] = k := by
  induction S generalizing k with
  | nil => exact absurd hk (Nat.not_lt_zero _)
  | cons i S ih =>
      obtain ⟨hi, hS⟩ := List.pairwise_cons.mp hS
      cases k with
      | zero =>
          rw [before, List.countP_eq_zero]
          intro j hj
          rcases List.mem_cons.mp hj with rfl | hj
          · simp
          · have := hi j hj
            simp only [List.getElem_cons_zero, decide_eq_true_eq]
            omega
      | succ k =>
          have hk' : k < S.length := Nat.lt_of_succ_lt_succ hk
          rw [List.getElem_cons_succ, before, List.countP_cons_of_pos]
          · exact congrArg (· + 1) (ih hS hk')
          · simpa using hi _ (List.getElem_mem hk')

theorem before_succ_getElem (hS : S.Pairwise (· < ·)) {k : ℕ} (hk : k < S.length) :
    before S (S[k] + 1) = k + 1 := by
  induction S generalizing k with
  | nil => exact absurd hk (Nat.not_lt_zero _)
  | cons i S ih =>
      obtain ⟨hi, hS⟩ := List.pairwise_cons.mp hS
      cases k with
      | zero =>
          have hrest : S.countP (· < i + 1) = 0 := by
            rw [List.countP_eq_zero]
            intro j hj
            have := hi j hj
            simp only [decide_eq_true_eq]
            omega
          rw [List.getElem_cons_zero, before, List.countP_cons_of_pos (by simp), hrest]
      | succ k =>
          have hk' : k < S.length := Nat.lt_of_succ_lt_succ hk
          rw [List.getElem_cons_succ, before, List.countP_cons_of_pos]
          · exact congrArg (· + 1) (ih hS hk')
          · have := hi _ (List.getElem_mem hk')
            simp only [decide_eq_true_eq]
            omega

/-- The cursor past the last place is the cursor at the first. -/
theorem turn_succ_mod (hlt : ∀ i ∈ S, i < m) (hc : c < m) :
    turn S ((c + 1) % m) = turn S (c + 1) := by
  rcases Nat.lt_or_ge (c + 1) m with h | h
  · rw [Nat.mod_eq_of_lt h]
  · obtain rfl : m = c + 1 := by omega
    rw [Nat.mod_self, turn, turn, before_zero, before_of_forall_lt hlt, Nat.mod_self, Nat.zero_mod]

/-- A place that is not marked leaves the turn. -/
theorem turn_skip (hlt : ∀ i ∈ S, i < m) (hc : c < m) (h : c ∉ S) :
    turn S ((c + 1) % m) = turn S c := by
  rw [turn_succ_mod hlt hc, turn, before_succ_of_notMem h, turn]

/-- A marked place is the one the turn names, and the next turn follows. -/
theorem turn_meet (hS : S.Pairwise (· < ·)) (hlt : ∀ i ∈ S, i < m) (hc : c < m) (h : c ∈ S) :
    S[turn S c]? = some c ∧ turn S ((c + 1) % m) = (turn S c + 1) % S.length := by
  obtain ⟨k, hk, rfl⟩ := List.getElem_of_mem h
  have hturn : turn S S[k] = k := by rw [turn, before_getElem hS hk, Nat.mod_eq_of_lt hk]
  refine ⟨?_, ?_⟩
  · rw [hturn]
    exact List.getElem?_eq_getElem hk
  · rw [turn_succ_mod hlt hc, hturn, turn, before_succ_getElem hS hk]

/-! ## The walk to the next marked place -/

/-- Walk at most `fuel` places from the cursor, to the first that is marked and past it. -/
def seek (marked : ℕ → Bool) (m : ℕ) : ℕ → ℕ → Option ℕ × ℕ
  | 0, c => (none, c)
  | fuel + 1, c =>
      if marked c then (some c, (c + 1) % m) else seek marked m fuel ((c + 1) % m)

variable {marked : ℕ → Bool}

theorem seek_lt (fuel : ℕ) (hc : c < m) : (seek marked m fuel c).2 < m := by
  induction fuel generalizing c with
  | zero => exact hc
  | succ fuel ih =>
      have hnext : (c + 1) % m < m := Nat.mod_lt _ (Nat.zero_lt_of_lt hc)
      rw [seek]
      split
      · exact hnext
      · exact ih hnext

/-- A walk that finds nothing met no marked place. -/
theorem not_marked_of_seek_none (fuel c : ℕ) (hc : c < m)
    (h : (seek marked m fuel c).1 = none) : ∀ k < fuel, marked ((c + k) % m) = false := by
  induction fuel generalizing c with
  | zero => exact fun k hk ↦ absurd hk (Nat.not_lt_zero k)
  | succ fuel ih =>
      intro k hk
      rw [seek] at h
      split at h
      next => cases h
      next hmarked =>
          cases k with
          | zero =>
              rw [Nat.add_zero, Nat.mod_eq_of_lt hc]
              exact eq_false_of_ne_true hmarked
          | succ k =>
              have hnext := ih _ (Nat.mod_lt _ (Nat.zero_lt_of_lt hc)) h k (Nat.lt_of_succ_lt_succ hk)
              rwa [Nat.mod_add_mod, Nat.add_assoc, Nat.add_comm 1 k] at hnext

/-- A lap comes to every place. -/
theorem exists_step {i : ℕ} (hc : c < m) (hi : i < m) : ∃ k < m, (c + k) % m = i := by
  rcases Nat.lt_or_ge i c with hlt | hge
  · refine ⟨m - c + i, by omega, ?_⟩
    rw [show c + (m - c + i) = i + m by omega, Nat.add_mod_right, Nat.mod_eq_of_lt hi]
  · exact ⟨i - c, by omega, by rw [Nat.add_sub_cancel' hge, Nat.mod_eq_of_lt hi]⟩

/-- A lap over places of which one is marked finds one. -/
theorem seek_ne_none {i : ℕ} (hc : c < m) (hi : i < m) (hmarked : marked i = true) :
    (seek marked m m c).1 ≠ none := by
  intro hnone
  obtain ⟨k, hk, rfl⟩ := exists_step hc hi
  rw [not_marked_of_seek_none m c hc hnone k hk] at hmarked
  cases hmarked

/-- What a walk finds is the place whose turn it is, and the next turn follows. -/
theorem seek_some (hS : S.Pairwise (· < ·)) (hlt : ∀ i ∈ S, i < m)
    (hmarked : ∀ i, i < m → (marked i = true ↔ i ∈ S)) (fuel : ℕ) {i : ℕ} (hc : c < m)
    (h : (seek marked m fuel c).1 = some i) :
    S[turn S c]? = some i ∧ turn S (seek marked m fuel c).2 = (turn S c + 1) % S.length := by
  induction fuel generalizing c with
  | zero => cases h
  | succ fuel ih =>
      have hnext : (c + 1) % m < m := Nat.mod_lt _ (Nat.zero_lt_of_lt hc)
      rw [seek] at h ⊢
      split at h
      next hc' =>
          obtain rfl := Option.some.inj h
          rw [if_pos hc']
          obtain ⟨hturn, hafter⟩ := turn_meet hS hlt hc ((hmarked c hc).mp hc')
          exact ⟨hturn, hafter⟩
      next hc' =>
          rw [if_neg hc']
          have hskip := turn_skip hlt hc (mt (hmarked c hc).mpr hc')
          have hrest := ih hnext h
          rwa [hskip] at hrest

end EdgeMulticast.Lib
