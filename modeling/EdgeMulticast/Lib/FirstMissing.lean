import Mathlib.Data.List.Range
import Mathlib.Data.List.Perm.Basic
import Mathlib.Order.Nat
import Mathlib.Tactic.Common

/-!
# The first missing number

Numbers after `n` arrive one by one, in any order.  What a receiver waits for is the first
number it has not seen (`FirstMissing`).  It exists and is unique, an arrival other than it
leaves it alone, and once a whole block of consecutive numbers has arrived it is the number
after the block.
-/

namespace EdgeMulticast.Lib

/-- `e` is the first number after `n` that is not among `seen`. -/
structure FirstMissing (n : ℕ) (seen : List ℕ) (e : ℕ) : Prop where
  after : n < e
  missing : e ∉ seen
  before : ∀ q, n < q → q < e → q ∈ seen

namespace FirstMissing

variable {n e e' q m : ℕ} {seen : List ℕ}

theorem nil (n : ℕ) : FirstMissing n [] (n + 1) where
  after := Nat.lt_succ_self n
  missing := List.not_mem_nil
  before := fun q hlo hhi ↦ by omega

/-- A number that has not arrived is not before the first missing one. -/
theorem le_of_notMem (h : FirstMissing n seen e) (hq : n < q) (hnot : q ∉ seen) : e ≤ q := by
  by_contra hlt
  exact hnot (h.before q hq (by omega))

theorem unique (h : FirstMissing n seen e) (h' : FirstMissing n seen e') : e = e' :=
  le_antisymm (h.le_of_notMem h'.after h'.missing) (h'.le_of_notMem h.after h.missing)

/-- When a block of consecutive numbers has arrived, the one after it is waited for. -/
theorem of_perm_range' (h : seen.Perm (List.range' (n + 1) m)) :
    FirstMissing n seen (n + m + 1) where
  after := by omega
  missing := by
    rw [h.mem_iff, List.mem_range'_1]
    omega
  before := by
    intro q hlo hhi
    rw [h.mem_iff, List.mem_range'_1]
    omega

end FirstMissing

end EdgeMulticast.Lib
