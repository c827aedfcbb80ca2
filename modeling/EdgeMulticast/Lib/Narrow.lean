import Mathlib.Algebra.Group.Int.Defs
import Mathlib.Algebra.Group.Nat.Defs
import Mathlib.Data.Int.Order.Basic
import Mathlib.Data.Nat.Log
import Mathlib.Order.Nat
import Mathlib.Tactic.Common

/-!
# Narrowing an integer to a machine word

A program that receives numbers from a text format narrows them to the width of the field they
are stored in.  `lowBits` keeps the low bits of a signed 64-bit value, and is the identity on
the numbers that fit.
-/

namespace EdgeMulticast.Lib

/-- An integer as a signed 64-bit value.  One that does not fit converts to the most negative
value, as a conversion from a double does. -/
def toSigned64 (n : ℤ) : ℤ := if -2 ^ 63 ≤ n ∧ n < 2 ^ 63 then n else -2 ^ 63

/-- The low `w` bits of an integer, as an unsigned value. -/
def lowBits (w : ℕ) (n : ℤ) : ℕ := (toSigned64 n % 2 ^ w).toNat

/-- The low `w` bits of an integer, as a signed value. -/
def lowBitsSigned (w : ℕ) (n : ℤ) : ℤ := (toSigned64 n).bmod (2 ^ w)

/-- An integer as an unsigned 64-bit value. -/
def toUnsigned64 (n : ℤ) : ℕ := if 0 ≤ n ∧ n < 2 ^ 64 then n.toNat else lowBits 64 n

theorem lowBits_lt (w : ℕ) (n : ℤ) : lowBits w n < 2 ^ w := by
  have hpos : (0 : ℤ) < 2 ^ w := Int.pow_pos (by decide)
  have hlt := Int.emod_lt_of_pos (toSigned64 n) hpos
  have hcast : ((2 ^ w : ℕ) : ℤ) = 2 ^ w := by push_cast; rfl
  rw [lowBits, Int.toNat_lt (Int.emod_nonneg _ hpos.ne'), hcast]
  exact hlt

theorem lowBits_natCast {w n : ℕ} (hn : n < 2 ^ w) (hw : w < 64) : lowBits w n = n := by
  have hle : 2 ^ w ≤ 2 ^ 63 := Nat.pow_le_pow_right (by decide) (by omega)
  have hcast : ((2 ^ w : ℕ) : ℤ) = 2 ^ w := by push_cast; rfl
  rw [lowBits, toSigned64, if_pos (by omega), Int.emod_eq_of_lt (by omega) (by omega)]
  exact Int.toNat_natCast n

end EdgeMulticast.Lib

/-!
## Integers in a binary floating-point format

A format of precision `p` represents the integers of at most `p` significant bits.  An integer
that is read into it becomes the nearest of them, the even one of two (`nearest`).  The integers
it keeps are those it represents (`nearest_eq_iff`).

The exponent is taken to be large enough for every integer in question.
-/

namespace EdgeMulticast.Lib

/-- The integers of at most `p` significant bits. -/
def Representable (p n : ℕ) : Prop := ∃ m e, m < 2 ^ p ∧ n = m * 2 ^ e

/-- The quotient by `2 ^ e`, rounded to nearest, ties to even. -/
def roundEven (n e : ℕ) : ℕ :=
  let q := n / 2 ^ e
  let r := n % 2 ^ e
  if 2 * r < 2 ^ e ∨ 2 * r = 2 ^ e ∧ q % 2 = 0 then q else q + 1

/-- The bits of `n` beyond the first `p`. -/
def excess (p n : ℕ) : ℕ := n.log2 + 1 - p

/-- The nearest integer of at most `p` significant bits, ties to even. -/
def nearest (p n : ℕ) : ℕ := roundEven n (excess p n) * 2 ^ excess p n

/-- The nearest integer, either side of zero. -/
def nearestInt (p : ℕ) (z : ℤ) : ℤ := z.sign * nearest p z.natAbs

variable {p n w : ℕ}

theorem roundEven_le (n e : ℕ) : roundEven n e ≤ n / 2 ^ e + 1 := by
  rw [roundEven]
  split
  · exact Nat.le_succ _
  · exact le_refl _

theorem roundEven_of_dvd {e : ℕ} (h : 2 ^ e ∣ n) : roundEven n e = n / 2 ^ e := by
  rw [roundEven]
  exact if_pos (Or.inl (by rw [Nat.mod_eq_zero_of_dvd h]; exact Nat.two_pow_pos e))

/-- What is kept has `p` bits. -/
theorem div_excess_lt (p n : ℕ) : n / 2 ^ excess p n < 2 ^ p := by
  rw [Nat.div_lt_iff_lt_mul (Nat.two_pow_pos _), ← Nat.pow_add]
  refine Nat.lt_log2_self.trans_le (Nat.pow_le_pow_right (by decide) ?_)
  rw [excess]
  omega

theorem roundEven_excess_le (p n : ℕ) : roundEven n (excess p n) ≤ 2 ^ p :=
  (roundEven_le n _).trans (div_excess_lt p n)

theorem representable_nearest (hp : 0 < p) (n : ℕ) : Representable p (nearest p n) := by
  rcases (roundEven_excess_le p n).lt_or_eq with hlt | hcarry
  · exact ⟨_, _, hlt, rfl⟩
  · refine ⟨1, p + excess p n, Nat.one_lt_two_pow hp.ne', ?_⟩
    rw [nearest, hcarry, Nat.one_mul, Nat.pow_add]

/-- The excess bits of an integer that is represented are zero. -/
theorem Representable.dvd (h : Representable p n) : 2 ^ excess p n ∣ n := by
  obtain ⟨m, e, hm, rfl⟩ := h
  rcases Nat.eq_zero_or_pos (m * 2 ^ e) with hzero | hpos
  · rw [hzero]
    exact Nat.dvd_zero _
  · have hlog : (m * 2 ^ e).log2 < p + e := by
      rw [Nat.log2_lt hpos.ne', Nat.pow_add]
      exact Nat.mul_lt_mul_of_pos_right hm (Nat.two_pow_pos _)
    have hle : excess p (m * 2 ^ e) ≤ e := by
      rw [excess]
      omega
    exact Nat.dvd_trans (Nat.pow_dvd_pow 2 hle) (Nat.dvd_mul_left _ m)

theorem Representable.nearest_eq (h : Representable p n) : nearest p n = n := by
  rw [nearest, roundEven_of_dvd h.dvd, Nat.div_mul_cancel h.dvd]

/-- **What a format keeps is what it represents.** -/
theorem nearest_eq_iff (hp : 0 < p) : nearest p n = n ↔ Representable p n :=
  ⟨fun h ↦ h ▸ representable_nearest hp n, Representable.nearest_eq⟩

theorem Representable.of_lt (h : n < 2 ^ p) : Representable p n := ⟨n, 0, h, by simp⟩

theorem Representable.two_pow (hp : 0 < p) (e : ℕ) : Representable p (2 ^ e) :=
  ⟨1, e, Nat.one_lt_two_pow hp.ne', (Nat.one_mul _).symm⟩

/-- Rounding does not cross a power of two. -/
theorem nearest_le (hp : 0 < p) (hw : p ≤ w) (hn : n ≤ 2 ^ w) : nearest p n ≤ 2 ^ w := by
  rcases hn.lt_or_eq with hlt | rfl
  · rcases Nat.eq_zero_or_pos n with rfl | hpos
    · rw [(Representable.of_lt (Nat.two_pow_pos _)).nearest_eq]
      exact Nat.zero_le _
    · have hlog : n.log2 < w := (Nat.log2_lt hpos.ne').mpr hlt
      calc nearest p n ≤ 2 ^ p * 2 ^ excess p n :=
            Nat.mul_le_mul_right _ (roundEven_excess_le p n)
        _ = 2 ^ (p + excess p n) := (Nat.pow_add ..).symm
        _ ≤ 2 ^ w := Nat.pow_le_pow_right (by decide) (by rw [excess]; omega)
  · exact ((Representable.two_pow hp w).nearest_eq).le

theorem nearestInt_natCast (p n : ℕ) : nearestInt p n = nearest p n := by
  rcases Nat.eq_zero_or_pos n with rfl | hpos
  · rw [(Representable.of_lt (Nat.two_pow_pos _)).nearest_eq, nearestInt]
    exact Int.zero_mul _
  · rw [nearestInt, Int.sign_natCast_of_ne_zero hpos.ne', Int.one_mul, Int.natAbs_natCast]

/-- Of two that are as near the even one is taken. -/
example : nearest 53 (2 ^ 53 + 1) = 2 ^ 53 ∧ nearest 53 (2 ^ 53 + 3) = 2 ^ 53 + 4 := by
  decide +kernel

end EdgeMulticast.Lib
