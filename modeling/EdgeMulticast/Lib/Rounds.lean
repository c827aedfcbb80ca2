import Mathlib.Algebra.Order.BigOperators.Group.Finset
import Mathlib.Data.List.Nodup

/-!
# Lanes served in rounds

A list that takes the elements of several lanes in turns: each lane's first, then each lane's second,
and so on.  Whatever prefix of it is read, no lane that still has elements behind it is more than one
element behind another lane, and the prefix of `k` rounds holds the first `k` elements of every lane.
-/

namespace EdgeMulticast.Lib

open Finset

variable {ι κ : Type*} [DecidableEq ι]

/-- A list that serves its lanes in rounds: each of its elements is of one lane, it keeps the order of
every lane, and it has nothing of a round before anything of an earlier round. -/
structure InRounds (lane : κ → List ι) (lanes : Finset κ) (turns : List ι) : Prop where
  nodup : turns.Nodup
  single : ∀ x ∈ turns, ∃ k ∈ lanes, ∀ k' ∈ lanes, x ∈ lane k' ↔ k' = k
  order : ∀ k ∈ lanes, turns.filter (· ∈ lane k) = lane k
  round : ∀ (m i j : ℕ) (k k' : κ) (x y : ι), (lane k)[i]? = some x → (lane k')[j]? = some y →
    x ∈ turns.take m → y ∉ turns.take m → i ≤ j

/-- How many of a lane a prefix has. -/
def served (lane : κ → List ι) (turns : List ι) (m : ℕ) (k : κ) : ℕ :=
  (turns.take m).countP (· ∈ lane k)

/-- A list whose elements are each of one lane is as long as its lanes are together. -/
theorem sum_countP_eq_length {lane : κ → List ι} {lanes : Finset κ} (l : List ι)
    (h : ∀ x ∈ l, ∃ k ∈ lanes, ∀ k' ∈ lanes, x ∈ lane k' ↔ k' = k) :
    ∑ k ∈ lanes, l.countP (· ∈ lane k) = l.length := by
  induction l with
  | nil => exact sum_const_zero
  | cons x l ih =>
      obtain ⟨k, hk, hone⟩ := h x List.mem_cons_self
      have hx : ∑ k' ∈ lanes, (if x ∈ lane k' then 1 else 0) = 1 := by
        rw [sum_eq_single_of_mem k hk]
        · rw [if_pos ((hone k hk).mpr rfl)]
        · intro k' hk' hne
          rw [if_neg fun hmem ↦ hne ((hone k' hk').mp hmem)]
      rw [List.length_cons, ← ih fun y hy ↦ h y (List.mem_cons_of_mem _ hy), ← hx,
        ← sum_add_distrib]
      refine sum_congr rfl fun k' _ ↦ ?_
      rw [List.countP_cons]
      simp only [decide_eq_true_eq]

namespace InRounds

variable {lane : κ → List ι} {lanes : Finset κ} {turns : List ι} {k k' : κ} {m n : ℕ}

theorem nodup_lane (h : InRounds lane lanes turns) (hk : k ∈ lanes) : (lane k).Nodup := by
  rw [← h.order k hk]
  exact h.nodup.filter _

/-- What a prefix has of a lane is the beginning of the lane. -/
theorem filter_take (h : InRounds lane lanes turns) (hk : k ∈ lanes) (m : ℕ) :
    (turns.take m).filter (· ∈ lane k) = (lane k).take (served lane turns m k) := by
  have hprefix := (List.take_prefix m turns).filter (· ∈ lane k)
  rw [h.order k hk, List.prefix_iff_eq_take] at hprefix
  rw [served, List.countP_eq_length_filter]
  exact hprefix

theorem served_le (h : InRounds lane lanes turns) (hk : k ∈ lanes) (m : ℕ) :
    served lane turns m k ≤ (lane k).length := by
  have hle := ((List.take_sublist m turns).filter (· ∈ lane k)).length_le
  rw [h.order k hk] at hle
  rw [served, List.countP_eq_length_filter]
  exact hle

theorem mem_take_iff (h : InRounds lane lanes turns) (hk : k ∈ lanes) {i : ℕ} {x : ι}
    (hx : (lane k)[i]? = some x) : x ∈ turns.take m ↔ i < served lane turns m k := by
  have hmem : x ∈ (lane k).take (served lane turns m k) ↔ x ∈ turns.take m := by
    rw [← h.filter_take hk, List.mem_filter, decide_eq_true_eq]
    exact and_iff_left (List.mem_of_getElem? hx)
  rw [← hmem]
  constructor
  · intro htake
    obtain ⟨j, hj, rfl⟩ := List.mem_take_iff_getElem.mp htake
    obtain ⟨hi, heq⟩ := List.getElem?_eq_some_iff.mp hx
    rw [(h.nodup_lane hk).getElem_inj_iff.mp heq]
    exact (lt_min_iff.mp hj).1
  · intro hi
    refine List.mem_take_iff_getElem.mpr ⟨i, lt_min hi ?_, ?_⟩
    · exact (List.getElem?_eq_some_iff.mp hx).1
    · exact (List.getElem?_eq_some_iff.mp hx).2

/-- A lane with elements left has as many in a prefix as any other lane has, less one. -/
theorem served_le_succ (h : InRounds lane lanes turns) (hk : k ∈ lanes) (hk' : k' ∈ lanes)
    (hleft : served lane turns m k < (lane k).length) :
    served lane turns m k' ≤ served lane turns m k + 1 := by
  cases hcount : served lane turns m k' with
  | zero => exact Nat.zero_le _
  | succ i =>
      have hi : i < served lane turns m k' := by rw [hcount]; exact Nat.lt_succ_self i
      have hx := List.getElem?_eq_getElem (hi.trans_le (h.served_le hk' m))
      have hy := List.getElem?_eq_getElem hleft
      have hin := (h.mem_take_iff (m := m) hk' hx).mpr hi
      have hout := mt (h.mem_take_iff (m := m) hk hy).mp (lt_irrefl _)
      exact Nat.succ_le_succ (h.round m _ _ _ _ _ _ hx hy hin hout)

theorem sum_served (h : InRounds lane lanes turns) (m : ℕ) :
    ∑ k ∈ lanes, served lane turns m k = (turns.take m).length :=
  sum_countP_eq_length _ fun x hx ↦ h.single x (List.mem_of_mem_take hx)

/-- A prefix of `n` rounds has the first `n` elements of every lane. -/
theorem min_le_served (h : InRounds lane lanes turns) (hk : k ∈ lanes) (hm : n * (#lanes) ≤ m) :
    min n (lane k).length ≤ served lane turns m k := by
  by_contra hlt
  obtain ⟨hn, hleft⟩ := lt_min_iff.mp (not_le.mp hlt)
  have hlong : m ≤ turns.length := by
    by_contra hshort
    refine hleft.ne ?_
    rw [served, List.take_of_length_le (not_le.mp hshort).le, List.countP_eq_length_filter,
      h.order k hk]
  have hsum : ∑ k' ∈ lanes, served lane turns m k' < ∑ _k' ∈ lanes, n := by
    refine sum_lt_sum (fun k' hk' ↦ ?_) ⟨k, hk, hn⟩
    exact (h.served_le_succ hk hk' hleft).trans hn
  rw [h.sum_served, List.length_take, Nat.min_eq_left hlong, sum_const_nat fun _ _ ↦ rfl,
    Nat.mul_comm] at hsum
  exact hsum.not_ge hm

/-- A lane of at most `n` elements is whole in the prefix of `n` rounds. -/
theorem lane_subset_take (h : InRounds lane lanes turns) (hk : k ∈ lanes)
    (hn : (lane k).length ≤ n) (hm : n * (#lanes) ≤ m) : ∀ x ∈ lane k, x ∈ turns.take m := by
  intro x hx
  obtain ⟨i, hi, rfl⟩ := List.getElem_of_mem hx
  refine (h.mem_take_iff hk (List.getElem?_eq_getElem hi)).mpr ?_
  have hserved := h.min_le_served hk hm
  rw [Nat.min_eq_right hn] at hserved
  exact hi.trans_le hserved

end InRounds

end EdgeMulticast.Lib
