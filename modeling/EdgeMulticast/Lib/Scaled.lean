import Mathlib.Algebra.Order.Field.Basic
import Mathlib.Algebra.Order.Field.Power
import Mathlib.Data.Rat.Cast.Order
import Mathlib.Tactic.Linarith
import Mathlib.Tactic.NormNum
import Mathlib.Tactic.Ring

/-!
# Fixed-point numbers

An integer and a decimal exponent stand for a rational.  This file says when two such pairs stand
for one rational (`scaled_eq_iff_of_le`, `scaled_eq_iff_of_ge`), and what decides whether a
rational can be restated at an exponent: the last place at which it has a digit that is not zero
(`LastPlace.exists_scaled_iff`).
-/

namespace EdgeMulticast.Lib

/-- The rational that an integer stands for at a decimal exponent. -/
def scaled (n p : ℤ) : ℚ := n * 10 ^ p

theorem ten_zpow_pos (p : ℤ) : (0 : ℚ) < 10 ^ p := zpow_pos (by norm_num) p

theorem scaled_zero (p : ℤ) : scaled 0 p = 0 := by
  rw [scaled, Int.cast_zero, zero_mul]

theorem scaled_one : scaled 1 0 = 1 := by
  rw [scaled, zpow_zero, Int.cast_one, mul_one]

theorem scaled_eq_zero_iff {n p : ℤ} : scaled n p = 0 ↔ n = 0 := by
  rw [scaled, mul_eq_zero, Int.cast_eq_zero, or_iff_left (ten_zpow_pos p).ne']

theorem scaled_inj {n m p : ℤ} : scaled n p = scaled m p ↔ n = m := by
  rw [scaled, scaled, mul_left_inj' (ten_zpow_pos p).ne', Int.cast_inj]

theorem scaled_lt_scaled {n m p : ℤ} : scaled n p < scaled m p ↔ n < m := by
  rw [scaled, scaled, mul_lt_mul_iff_left₀ (ten_zpow_pos p), Int.cast_lt]

theorem scaled_neg (n p : ℤ) : scaled (-n) p = -scaled n p := by
  rw [scaled, scaled, Int.cast_neg, neg_mul]

theorem scaled_nonneg_iff {n p : ℤ} : 0 ≤ scaled n p ↔ 0 ≤ n := by
  rw [scaled, mul_nonneg_iff_of_pos_right (ten_zpow_pos p), Int.cast_nonneg_iff]

theorem scaled_mul (n m p q : ℤ) : scaled n p * scaled m q = scaled (n * m) (p + q) := by
  rw [scaled, scaled, scaled, Int.cast_mul, zpow_add₀ (by norm_num)]
  ring

/-- Digits move from the exponent to the integer. -/
theorem scaled_add (n p : ℤ) (k : ℕ) : scaled n (p + k) = scaled (n * 10 ^ k) p := by
  rw [scaled, scaled, zpow_add₀ (by norm_num), zpow_natCast, Int.cast_mul, Int.cast_pow]
  push_cast
  ring

theorem scaled_eq_iff_of_le {n p r q : ℤ} (h : q ≤ p) :
    scaled n p = scaled r q ↔ n * 10 ^ (p - q).toNat = r := by
  have hp : p = q + ((p - q).toNat : ℕ) := by omega
  conv_lhs => rw [hp]
  rw [scaled_add, scaled_inj]

theorem scaled_eq_iff_of_ge {n p r q : ℤ} (h : p ≤ q) :
    scaled n p = scaled r q ↔ n = r * 10 ^ (q - p).toNat := by
  rw [eq_comm, scaled_eq_iff_of_le h, eq_comm]

/-! ## The last place of a number -/

/-- The last place at which a rational has a digit that is not zero. -/
def LastPlace (v : ℚ) (p : ℤ) : Prop := ∃ n : ℤ, v = scaled n p ∧ ¬10 ∣ n

namespace LastPlace

variable {v : ℚ} {p q : ℤ}

/-- A number stands at an exponent exactly when it has no digit below it. -/
theorem exists_scaled_iff (h : LastPlace v p) (q : ℤ) : (∃ r, v = scaled r q) ↔ q ≤ p := by
  obtain ⟨n, rfl, hn⟩ := h
  constructor
  · rintro ⟨r, hr⟩
    by_contra hlt
    rw [scaled_eq_iff_of_ge (by omega)] at hr
    apply hn
    rw [hr]
    exact Dvd.dvd.mul_left (dvd_pow_self 10 (by omega)) r
  · intro hle
    exact ⟨_, (scaled_eq_iff_of_le hle).mpr rfl⟩

theorem unique (h : LastPlace v p) (h' : LastPlace v q) : p = q := by
  have hleft := (h.exists_scaled_iff q).mp (h'.imp fun _ hn ↦ hn.1)
  have hright := (h'.exists_scaled_iff p).mp (h.imp fun _ hn ↦ hn.1)
  omega

theorem ne_zero (h : LastPlace v p) : v ≠ 0 := by
  obtain ⟨n, rfl, hn⟩ := h
  intro hzero
  exact hn (scaled_eq_zero_iff.mp hzero ▸ dvd_zero 10)

end LastPlace

theorem lastPlace_neg_iff {v : ℚ} {p : ℤ} : LastPlace (-v) p ↔ LastPlace v p := by
  suffices hneg : ∀ {v : ℚ}, LastPlace v p → LastPlace (-v) p by
    constructor
    · intro h
      rw [← neg_neg v]
      exact hneg h
    · exact hneg
  rintro _ ⟨n, rfl, hn⟩
  exact ⟨-n, (scaled_neg n p).symm, fun h ↦ hn (Int.dvd_neg.mp h)⟩

/-- An integer is some power of ten times one that ten does not divide. -/
theorem exists_pow_ten_mul {n : ℤ} (hn : n ≠ 0) : ∃ (k : ℕ) (r : ℤ), n = r * 10 ^ k ∧ ¬10 ∣ r := by
  induction hsize : n.natAbs using Nat.strong_induction_on generalizing n with
  | _ size ih =>
      by_cases hdvd : 10 ∣ n
      · obtain ⟨m, rfl⟩ := hdvd
        obtain ⟨k, r, hm, hr⟩ := ih m.natAbs (by omega) (show m ≠ 0 by omega) rfl
        exact ⟨k + 1, r, by rw [hm, pow_succ]; ring, hr⟩
      · exact ⟨0, n, by rw [pow_zero, mul_one], hdvd⟩

theorem exists_lastPlace {n : ℤ} (hn : n ≠ 0) (p : ℤ) : ∃ q, p ≤ q ∧ LastPlace (scaled n p) q := by
  obtain ⟨k, r, rfl, hr⟩ := exists_pow_ten_mul hn
  exact ⟨p + k, by omega, r, (scaled_add r p k).symm, hr⟩

/-- Where a number has its last place, given by how often ten divides it. -/
theorem lastPlace_of_dvd {n p : ℤ} {k : ℕ} (hdvd : 10 ^ k ∣ n) (hnot : ¬10 ^ (k + 1) ∣ n) :
    LastPlace (scaled n p) (p + k) := by
  obtain ⟨r, rfl⟩ := hdvd
  refine ⟨r, by rw [scaled_add, mul_comm], fun hr ↦ hnot ?_⟩
  rw [pow_succ]
  exact mul_dvd_mul_left _ hr

end EdgeMulticast.Lib
