import Mathlib.Algebra.Order.Group.Nat
import Mathlib.Tactic.Common

/-!
# Spans of time in two words

`std::time::Duration`: whole seconds in 64 bits and the nanoseconds below a second.  Each operation
is written on the two words, fails where the standard library returns `None` or panics, and comes
with the equation that says what it is on the total (`asNanos`).
-/

namespace EdgeMulticast.Lib

def NANOS_PER_SEC : ℕ := 1000000000

/-- A span of time. -/
@[ext]
structure StdDuration where
  secs : ℕ
  nanos : ℕ
  secs_lt : secs < 2 ^ 64
  nanos_lt : nanos < NANOS_PER_SEC
  deriving DecidableEq

namespace StdDuration

/-- The total, in nanoseconds.  The multiplication is not for a defeq check to unfold. -/
@[irreducible]
def asNanos (d : StdDuration) : ℕ := d.secs * NANOS_PER_SEC + d.nanos

/-- What every total is below. -/
def LIMIT : ℕ := 2 ^ 64 * NANOS_PER_SEC

/-- The longest span. -/
def MAX : StdDuration := ⟨2 ^ 64 - 1, 999999999, by decide, by decide⟩

/-- The span of a total, or none for a total that its words cannot hold. -/
def ofNanos (total : ℕ) : Option StdDuration :=
  if h : total / NANOS_PER_SEC < 2 ^ 64 then
    some ⟨total / NANOS_PER_SEC, total % NANOS_PER_SEC, h, Nat.mod_lt _ (by decide)⟩
  else none

theorem asNanos_lt (d : StdDuration) : d.asNanos < LIMIT := by
  have hsecs := d.secs_lt
  have hnanos := d.nanos_lt
  simp only [asNanos, LIMIT, NANOS_PER_SEC] at hnanos ⊢
  omega

theorem asNanos_of_ofNanos {total : ℕ} {d : StdDuration} (h : ofNanos total = some d) :
    d.asNanos = total := by
  rw [ofNanos] at h
  split at h
  · obtain rfl := Option.some.inj h
    rw [asNanos]
    exact Nat.div_add_mod' total NANOS_PER_SEC
  · cases h

theorem ofNanos_of_lt {total : ℕ} (h : total < LIMIT) : ∃ d, ofNanos total = some d := by
  rw [ofNanos, dif_pos (Nat.div_lt_of_lt_mul (by rwa [Nat.mul_comm]))]
  exact ⟨_, rfl⟩

theorem ofNanos_of_le {total : ℕ} (h : LIMIT ≤ total) : ofNanos total = none := by
  rw [ofNanos, dif_neg]
  rw [Nat.not_lt, Nat.le_div_iff_mul_le (by decide)]
  exact h

/-! ## Order -/

/-- Seconds first, as the derived order of the two fields compares. -/
instance : LE StdDuration where
  le d e := d.secs < e.secs ∨ d.secs = e.secs ∧ d.nanos ≤ e.nanos

instance (d e : StdDuration) : Decidable (d ≤ e) :=
  inferInstanceAs (Decidable (d.secs < e.secs ∨ d.secs = e.secs ∧ d.nanos ≤ e.nanos))

theorem le_iff {d e : StdDuration} : d ≤ e ↔ d.asNanos ≤ e.asNanos := by
  have hd := d.nanos_lt
  have he := e.nanos_lt
  change d.secs < e.secs ∨ d.secs = e.secs ∧ d.nanos ≤ e.nanos ↔ _
  simp only [asNanos, NANOS_PER_SEC] at hd he ⊢
  omega

def isZero (d : StdDuration) : Bool := d.secs = 0 ∧ d.nanos = 0

theorem isZero_iff {d : StdDuration} : d.isZero ↔ d.asNanos = 0 := by
  simp only [isZero, asNanos, NANOS_PER_SEC, decide_eq_true_eq]
  omega

def min (d e : StdDuration) : StdDuration := if d ≤ e then d else e

def max (d e : StdDuration) : StdDuration := if d ≤ e then e else d

@[simp] theorem asNanos_min (d e : StdDuration) :
    (d.min e).asNanos = Nat.min d.asNanos e.asNanos := by
  rw [min]
  split
  next h => exact (Nat.min_eq_left (le_iff.mp h)).symm
  next h => exact (Nat.min_eq_right (Nat.le_of_not_le (mt le_iff.mpr h))).symm

@[simp] theorem asNanos_max (d e : StdDuration) :
    (d.max e).asNanos = Nat.max d.asNanos e.asNanos := by
  rw [max]
  split
  next h => exact (Nat.max_eq_right (le_iff.mp h)).symm
  next h => exact (Nat.max_eq_left (Nat.le_of_not_le (mt le_iff.mpr h))).symm

/-! ## Arithmetic -/

/-- Multiply by a number, or none where the seconds overflow. -/
def checkedMul (d : StdDuration) (rhs : ℕ) : Option StdDuration :=
  let total := d.nanos * rhs
  let secs := d.secs * rhs + total / NANOS_PER_SEC
  if h : secs < 2 ^ 64 then
    some ⟨secs, total % NANOS_PER_SEC, h, Nat.mod_lt _ (by decide)⟩
  else none

theorem checkedMul_eq (d : StdDuration) (k : ℕ) : d.checkedMul k = ofNanos (d.asNanos * k) := by
  have hsecs : d.asNanos * k / NANOS_PER_SEC = d.secs * k + d.nanos * k / NANOS_PER_SEC := by
    rw [asNanos, Nat.add_mul, Nat.mul_right_comm, Nat.add_comm,
      Nat.add_mul_div_right _ _ (by decide), Nat.add_comm]
  have hnanos : d.asNanos * k % NANOS_PER_SEC = d.nanos * k % NANOS_PER_SEC := by
    rw [asNanos, Nat.add_mul, Nat.mul_right_comm, Nat.add_comm, Nat.add_mul_mod_self_right]
  simp only [checkedMul, ofNanos, hsecs, hnanos]

/-- Divide by two. -/
def half (d : StdDuration) : StdDuration where
  secs := d.secs / 2
  nanos := d.nanos / 2 + (d.secs % 2 * NANOS_PER_SEC + d.nanos % 2) / 2
  secs_lt := (Nat.div_le_self _ _).trans_lt d.secs_lt
  nanos_lt := by
    have hnanos := d.nanos_lt
    simp only [NANOS_PER_SEC] at hnanos ⊢
    omega

@[simp] theorem asNanos_half (d : StdDuration) : d.half.asNanos = d.asNanos / 2 := by
  simp only [half, asNanos, NANOS_PER_SEC]
  omega

/-- Subtract, or none where the result would be negative. -/
def checkedSub (d e : StdDuration) : Option StdDuration :=
  if e.secs ≤ d.secs then
    if hle : e.nanos ≤ d.nanos then
      some ⟨d.secs - e.secs, d.nanos - e.nanos, (Nat.sub_le _ _).trans_lt d.secs_lt,
        (Nat.sub_le _ _).trans_lt d.nanos_lt⟩
    else if h : 1 ≤ d.secs - e.secs then
      -- a second is borrowed
      some ⟨d.secs - e.secs - 1, d.nanos + NANOS_PER_SEC - e.nanos,
        by have := d.secs_lt; omega, by have := d.nanos_lt; have := e.nanos_lt; omega⟩
    else none
  else none

theorem checkedSub_of_le {d e : StdDuration} (h : e.asNanos ≤ d.asNanos) :
    ∃ f, d.checkedSub e = some f ∧ f.asNanos = d.asNanos - e.asNanos := by
  have hd := d.nanos_lt
  have he := e.nanos_lt
  rw [checkedSub]
  simp only [asNanos, NANOS_PER_SEC] at hd he h ⊢
  rw [if_pos (by omega)]
  split
  · exact ⟨_, rfl, by dsimp only; omega⟩
  · rw [dif_pos (by omega)]
    exact ⟨_, rfl, by dsimp only; omega⟩

/-- Add, or none where the seconds overflow. -/
def checkedAdd (d e : StdDuration) : Option StdDuration :=
  let nanos := d.nanos + e.nanos
  if hnanos : nanos < NANOS_PER_SEC then
    if hsecs : d.secs + e.secs < 2 ^ 64 then some ⟨d.secs + e.secs, nanos, hsecs, hnanos⟩ else none
  else if hsecs : d.secs + e.secs + 1 < 2 ^ 64 then
    some ⟨d.secs + e.secs + 1, nanos - NANOS_PER_SEC, hsecs,
      by have := d.nanos_lt; have := e.nanos_lt; omega⟩
  else none

/-- Add, or the longest span where the seconds overflow. -/
def saturatingAdd (d e : StdDuration) : StdDuration := (d.checkedAdd e).getD MAX

theorem asNanos_saturatingAdd {d e : StdDuration} (h : d.asNanos + e.asNanos < LIMIT) :
    (d.saturatingAdd e).asNanos = d.asNanos + e.asNanos := by
  have hd := d.nanos_lt
  have he := e.nanos_lt
  rw [saturatingAdd, checkedAdd]
  unfold asNanos LIMIT at h
  unfold asNanos
  unfold NANOS_PER_SEC at hd he h ⊢
  split
  · rw [dif_pos (by omega), Option.getD_some]
    dsimp only
    omega
  · rw [dif_pos (by omega), Option.getD_some]
    dsimp only
    omega

/-- The span of a 64-bit count of nanoseconds. -/
def fromNanos (count : ℕ) (h : count < 2 ^ 64) : StdDuration where
  secs := count / NANOS_PER_SEC
  nanos := count % NANOS_PER_SEC
  secs_lt := (Nat.div_le_self _ _).trans_lt h
  nanos_lt := Nat.mod_lt _ (by decide)

@[simp] theorem asNanos_fromNanos (count : ℕ) (h : count < 2 ^ 64) :
    (fromNanos count h).asNanos = count := by
  rw [asNanos]
  exact Nat.div_add_mod' count NANOS_PER_SEC

end StdDuration

end EdgeMulticast.Lib
