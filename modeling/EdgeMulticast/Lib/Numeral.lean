import EdgeMulticast.Lib.Bytes
import EdgeMulticast.Lib.Scaled
import Mathlib.Data.List.Induction

/-!
# Decimal numerals

Text in the grammar `[-]digits[.digits]`, the rational that it spells, and its digits by their
place.  The last digit that is not zero stands at the last place of the rational
(`Numeral.lastDigit_iff`), so the text and the number agree on what an exponent cuts off.
-/

namespace EdgeMulticast.Lib

/-! ## Digits -/

theorem ofDigits_append (v : ℕ) (xs ys : List Byte) :
    ofDigits v (xs ++ ys) = ofDigits (ofDigits v xs) ys := by
  rw [ofDigits, List.foldl_append, ofDigits, ofDigits]

theorem ofDigits_cons (v : ℕ) (b : Byte) (bs : List Byte) :
    ofDigits v (b :: bs) = ofDigits (v * 10 + (b.toNat - 48)) bs := by
  rw [ofDigits, List.foldl_cons, ofDigits]

theorem ofDigits_zeros (v k : ℕ) : ofDigits v (List.replicate k 48) = v * 10 ^ k := by
  induction k generalizing v with
  | zero => exact (mul_one v).symm
  | succ k ih =>
      have hzero : (48 : Byte).toNat - 48 = 0 := rfl
      rw [List.replicate_succ, ofDigits_cons, ih, hzero, Nat.add_zero, mul_assoc, pow_succ']

theorem le_ofDigits (v : ℕ) (bs : List Byte) : v ≤ ofDigits v bs := by
  induction bs generalizing v with
  | nil => exact le_rfl
  | cons b bs ih =>
      have hstep : v ≤ v * 10 + (b.toNat - 48) := by omega
      exact le_trans hstep (ih _)

/-- The digit that a byte spells, none being zero. -/
def digitOf (b : Option Byte) : ℕ := b.elim 0 fun b ↦ b.toNat - 48

theorem digitOf_some_ne_zero_iff {b : Byte} (hb : isDigit b) : digitOf (some b) ≠ 0 ↔ b ≠ 48 := by
  rw [isDigit, Bool.and_eq_true, decide_eq_true_eq, decide_eq_true_eq, UInt8.le_iff_toNat_le] at hb
  rw [Ne, Ne, ← UInt8.toNat_inj]
  have hlow : 48 ≤ b.toNat := hb.1
  have hsame : digitOf (some b) = b.toNat - 48 := rfl
  have hzero : (48 : Byte).toNat = 48 := rfl
  omega

theorem not_ten_dvd_digit {b : Byte} (hb : isDigit b) (hne : b ≠ 48) (v : ℕ) :
    ¬10 ∣ v * 10 + (b.toNat - 48) := by
  have hpos : b.toNat - 48 ≠ 0 := (digitOf_some_ne_zero_iff hb).mpr hne
  rw [isDigit, Bool.and_eq_true, decide_eq_true_eq, decide_eq_true_eq, UInt8.le_iff_toNat_le,
    UInt8.le_iff_toNat_le] at hb
  have hhigh : b.toNat ≤ 57 := hb.2
  omega

/-- Digits are zeros, or end with a digit that is not and some zeros after it. -/
theorem zeros_or_last (bs : List Byte) :
    bs = List.replicate bs.length 48 ∨
      ∃ xs b k, bs = xs ++ b :: List.replicate k 48 ∧ b ≠ 48 := by
  induction bs using List.reverseRecOn with
  | nil => exact .inl rfl
  | append_singleton bs b ih =>
      by_cases hb : b = 48
      · subst hb
        rcases ih with hzeros | ⟨xs, b, k, rfl, hb⟩
        · left
          rw [List.length_append, List.length_singleton, List.replicate_succ', ← hzeros]
        · right
          refine ⟨xs, b, k + 1, ?_, hb⟩
          rw [List.replicate_succ', List.append_assoc, List.cons_append]
      · exact .inr ⟨bs, b, 0, rfl, hb⟩

theorem findIdx?_zeros (k : ℕ) : (List.replicate k (48 : Byte)).findIdx? (· ≠ 48) = none := by
  rw [List.findIdx?_eq_none_iff]
  intro b hb
  rw [List.eq_of_mem_replicate hb]
  rfl

/-- How far from the end the last digit stands that is not zero. -/
theorem findIdx?_reverse_last (xs : List Byte) {b : Byte} (hb : b ≠ 48) (k : ℕ) :
    (xs ++ b :: List.replicate k 48).reverse.findIdx? (· ≠ 48) = some k := by
  have hzeros : (List.replicate k (48 : Byte)).findIdx? (· ≠ 48) = none := findIdx?_zeros k
  have hlast : [b].findIdx? (· ≠ (48 : Byte)) = some 0 := by
    rw [List.findIdx?_singleton, if_pos (decide_eq_true hb)]
  rw [List.reverse_append, List.reverse_cons, List.reverse_replicate, List.append_assoc,
    List.findIdx?_append, hzeros, List.findIdx?_append, hlast, List.length_replicate]
  exact congrArg some (Nat.zero_add k)

/-- Where the last digits of some are not all zeros, one of them is the last that is not. -/
theorem exists_last_of_findIdx? {bs : List Byte} {d j : ℕ}
    (h : (bs.reverse.take d).findIdx? (· ≠ 48) = some j) :
    ∃ xs b, bs = xs ++ b :: List.replicate j 48 ∧ b ≠ 48 ∧ j < d := by
  rw [List.findIdx?_take] at h
  rcases zeros_or_last bs with hzeros | ⟨xs, b, k, rfl, hb⟩
  · rw [hzeros, List.reverse_replicate, findIdx?_zeros] at h
    cases h
  · rw [findIdx?_reverse_last xs hb, Option.bind_some, Option.guard] at h
    split at h
    next hkd =>
      cases h
      exact ⟨xs, b, rfl, hb, of_decide_eq_true hkd⟩
    next => cases h

theorem eq_take_append_zeros {bs : List Byte} {d : ℕ}
    (h : (bs.reverse.take d).findIdx? (· ≠ 48) = none) :
    bs = bs.take (bs.length - d) ++ List.replicate (min d bs.length) 48 := by
  have hdrop : bs.drop (bs.length - d) = List.replicate (min d bs.length) 48 := by
    rw [List.eq_replicate_iff, List.length_drop]
    refine ⟨by omega, fun b hb ↦ ?_⟩
    rw [List.findIdx?_eq_none_iff] at h
    have hzero := h b (by rw [List.take_reverse, List.mem_reverse]; exact hb)
    simpa using hzero
  rw [← hdrop, List.take_append_drop]

/-! ## Numerals -/

/-- A sign, and the digits on either side of the dot, with none after it when there is no dot. -/
structure Numeral where
  negative : Bool
  whole : List Byte
  fraction : List Byte
  whole_ne : whole ≠ []
  isDigit_of_mem : ∀ b ∈ whole ++ fraction, isDigit b

namespace Numeral

variable (n : Numeral)

def text : List Byte :=
  (if n.negative then [0x2d] else []) ++
    (n.whole ++ if n.fraction = [] then [] else 0x2e :: n.fraction)

def digits : List Byte := n.whole ++ n.fraction

def coefficient : ℕ := ofDigits 0 n.digits

/-- What the numeral spells without its sign. -/
def magnitude : ℚ := scaled n.coefficient (-n.fraction.length)

def value : ℚ := if n.negative then -n.magnitude else n.magnitude

/-- The digit at the place of `10 ^ p`. -/
def digit : ℤ → ℕ
  | .ofNat i => digitOf n.whole.reverse[i]?
  | .negSucc i => digitOf n.fraction[i]?

/-- The last digit that is not zero stands at `p`. -/
def LastDigit (p : ℤ) : Prop := n.digit p ≠ 0 ∧ ∀ q < p, n.digit q = 0

theorem magnitude_eq_zero_iff : n.magnitude = 0 ↔ n.coefficient = 0 := by
  rw [magnitude, scaled_eq_zero_iff, Int.natCast_eq_zero]

theorem value_eq_zero_iff : n.value = 0 ↔ n.coefficient = 0 := by
  rw [value, ← magnitude_eq_zero_iff]
  split
  next => exact neg_eq_zero
  next => exact Iff.rfl

/-- Places count from the end of the digits. -/
theorem digit_eq (i : ℕ) : n.digit (i - n.fraction.length) = digitOf n.digits.reverse[i]? := by
  rw [digits, List.reverse_append]
  by_cases hi : i < n.fraction.length
  · have hplace : (i : ℤ) - n.fraction.length = .negSucc (n.fraction.length - 1 - i) := by omega
    rw [List.getElem?_append_left (by rwa [List.length_reverse]), List.getElem?_reverse hi, hplace]
    rfl
  · have hplace : (i : ℤ) - n.fraction.length = .ofNat (i - n.fraction.length) := by
      rw [Int.ofNat_eq_natCast]
      omega
    rw [List.getElem?_append_right (by rw [List.length_reverse]; omega), List.length_reverse,
      hplace]
    rfl

theorem digit_eq_zero {p : ℤ} (hp : p < -n.fraction.length) : n.digit p = 0 := by
  cases p with
  | ofNat i =>
      rw [Int.ofNat_eq_natCast] at hp
      omega
  | negSucc i =>
      have hlen : n.fraction.length ≤ i := by omega
      rw [digit, List.getElem?_eq_none hlen]
      rfl

theorem digit_zeros (hzeros : n.digits = List.replicate n.digits.length 48) (p : ℤ) :
    n.digit p = 0 := by
  by_cases hp : p < -n.fraction.length
  · exact n.digit_eq_zero hp
  · obtain ⟨i, hi⟩ := Int.eq_ofNat_of_zero_le (show 0 ≤ p + n.fraction.length by omega)
    rw [show p = i - n.fraction.length by omega, digit_eq, hzeros, List.reverse_replicate]
    cases hget : (List.replicate n.digits.length (48 : Byte))[i]? with
    | none => rfl
    | some b => rw [List.eq_of_mem_replicate (List.mem_of_getElem? hget)]; rfl

/-- The last digit that is not zero, from the digits. -/
theorem lastDigit_of_digits {xs : List Byte} {b : Byte} {k : ℕ}
    (hdigits : n.digits = xs ++ b :: List.replicate k 48) (hb : b ≠ 48) :
    n.LastDigit (k - n.fraction.length) := by
  have hreverse : n.digits.reverse = List.replicate k 48 ++ b :: xs.reverse := by
    rw [hdigits, List.reverse_append, List.reverse_cons, List.reverse_replicate, List.append_assoc,
      List.singleton_append]
  constructor
  · have hget : n.digits.reverse[k]? = some b := by
      rw [hreverse, List.getElem?_append_right (by rw [List.length_replicate]),
        List.length_replicate, Nat.sub_self, List.getElem?_cons_zero]
    have hmem : b ∈ n.digits := by
      rw [hdigits]
      exact List.mem_append_right _ List.mem_cons_self
    rw [digit_eq, hget, digitOf_some_ne_zero_iff (n.isDigit_of_mem b hmem)]
    exact hb
  · intro q hq
    by_cases hlow : q < -n.fraction.length
    · exact n.digit_eq_zero hlow
    · obtain ⟨i, hi⟩ := Int.eq_ofNat_of_zero_le (show 0 ≤ q + n.fraction.length by omega)
      have hik : i < k := by omega
      rw [show q = i - n.fraction.length by omega, digit_eq, hreverse,
        List.getElem?_append_left (by rwa [List.length_replicate]), List.getElem?_replicate,
        if_pos hik]
      rfl

theorem LastDigit.unique {n : Numeral} {p q : ℤ} (h : n.LastDigit p) (h' : n.LastDigit q) :
    p = q := by
  rcases lt_trichotomy p q with hlt | heq | hgt
  · exact absurd (h'.2 p hlt) h.1
  · exact heq
  · exact absurd (h.2 q hgt) h'.1

/-- The number that the digits spell, from the digits. -/
theorem lastPlace_of_digits {xs : List Byte} {b : Byte} {k : ℕ}
    (hdigits : n.digits = xs ++ b :: List.replicate k 48) (hb : b ≠ 48) :
    LastPlace n.magnitude (k - n.fraction.length) := by
  have hmem : b ∈ n.digits := by
    rw [hdigits]
    exact List.mem_append_right _ List.mem_cons_self
  have hndvd := not_ten_dvd_digit (n.isDigit_of_mem b hmem) hb (ofDigits 0 xs)
  have hcoefficient : n.coefficient = (ofDigits 0 xs * 10 + (b.toNat - 48)) * 10 ^ k := by
    rw [coefficient, hdigits, ofDigits_append, ofDigits_cons, ofDigits_zeros]
  refine ⟨(ofDigits 0 xs * 10 + (b.toNat - 48) : ℕ), ?_, fun h ↦ hndvd (by exact_mod_cast h)⟩
  rw [magnitude, hcoefficient, sub_eq_neg_add, scaled_add]
  push_cast
  rfl

theorem lastPlace_value_iff {p : ℤ} : LastPlace n.value p ↔ LastPlace n.magnitude p := by
  rw [value]
  split
  next => exact lastPlace_neg_iff
  next => exact Iff.rfl

/-- The digits of a numeral and the number it spells have their last place in common. -/
theorem lastDigit_iff {p : ℤ} : n.LastDigit p ↔ LastPlace n.value p := by
  rw [lastPlace_value_iff]
  rcases zeros_or_last n.digits with hzeros | ⟨xs, b, k, hdigits, hb⟩
  · have hzero : n.magnitude = 0 := by
      rw [magnitude_eq_zero_iff, coefficient, hzeros, ofDigits_zeros, zero_mul]
    constructor
    · intro h
      exact absurd (n.digit_zeros hzeros p) h.1
    · intro h
      exact absurd hzero h.ne_zero
  · have hdigit := n.lastDigit_of_digits hdigits hb
    have hplace := n.lastPlace_of_digits hdigits hb
    constructor
    · intro h
      rw [h.unique hdigit]
      exact hplace
    · intro h
      rw [h.unique hplace]
      exact hdigit

/-- A numeral is worth nothing where it has no digit but zeros. -/
theorem value_eq_zero_iff_digits : n.value = 0 ↔ ∀ b ∈ n.digits, b = 48 := by
  constructor
  · intro h
    rcases zeros_or_last n.digits with hzeros | ⟨xs, b, k, hdigits, hb⟩
    · intro b hmem
      rw [hzeros] at hmem
      exact List.eq_of_mem_replicate hmem
    · exact absurd h (n.lastPlace_value_iff.mpr (n.lastPlace_of_digits hdigits hb)).ne_zero
  · intro h
    rw [value_eq_zero_iff, coefficient, List.eq_replicate_of_mem h, ofDigits_zeros, zero_mul]

end Numeral

end EdgeMulticast.Lib

/-!
## The coarsest exponent of some numbers

The largest exponent, not above zero, at which every one of some rationals is an integer.  It is a
canonical form: it depends on the numbers, not on how they were written.  `coarsest_fraction` is
where it stands for a decimal text.
-/

namespace EdgeMulticast.Lib

/-- Every one of the numbers is an integer at the exponent. -/
def Integral (vs : List ℚ) (p : ℤ) : Prop := ∀ v ∈ vs, ∃ n, v = scaled n p

/-- The largest exponent, not above zero, at which the numbers are integers. -/
structure Coarsest (vs : List ℚ) (p : ℤ) : Prop where
  nonpos : p ≤ 0
  integral : Integral vs p
  largest : ∀ q ≤ 0, Integral vs q → q ≤ p

variable {v : ℚ} {vs ws : List ℚ} {p q : ℤ}

theorem exists_scaled_of_le (h : ∃ n, v = scaled n p) (hle : q ≤ p) : ∃ n, v = scaled n q := by
  obtain ⟨n, rfl⟩ := h
  exact ⟨_, (scaled_eq_iff_of_le hle).mpr rfl⟩

theorem Integral.of_le (h : Integral vs p) (hle : q ≤ p) : Integral vs q :=
  fun v hv ↦ exists_scaled_of_le (h v hv) hle

theorem integral_append : Integral (vs ++ ws) p ↔ Integral vs p ∧ Integral ws p :=
  List.forall_mem_append

theorem integral_singleton : Integral [v] p ↔ ∃ n, v = scaled n p := List.forall_mem_singleton

namespace Coarsest

theorem unique (h : Coarsest vs p) (h' : Coarsest vs q) : p = q :=
  le_antisymm (h'.largest p h.nonpos h.integral) (h.largest q h'.nonpos h'.integral)

/-- The finer of two exponents states the numbers of both. -/
theorem append (h : Coarsest vs p) (h' : Coarsest ws q) : Coarsest (vs ++ ws) (min p q) where
  nonpos := (min_le_left p q).trans h.nonpos
  integral := integral_append.mpr
    ⟨h.integral.of_le (min_le_left p q), h'.integral.of_le (min_le_right p q)⟩
  largest := by
    intro r hr hintegral
    obtain ⟨hvs, hws⟩ := integral_append.mp hintegral
    exact le_min (h.largest r hr hvs) (h'.largest r hr hws)

end Coarsest

theorem coarsest_nil : Coarsest [] 0 where
  nonpos := le_rfl
  integral := fun _ hv ↦ absurd hv List.not_mem_nil
  largest := fun _ hq _ ↦ hq

theorem coarsest_of_integer (h : ∃ n, v = scaled n 0) : Coarsest [v] 0 where
  nonpos := le_rfl
  integral := integral_singleton.mpr h
  largest := fun _ hq _ ↦ hq

/-- The last digit behind the point is the coarsest place. -/
theorem coarsest_of_lastPlace (h : LastPlace v p) (hp : p ≤ 0) : Coarsest [v] p where
  nonpos := hp
  integral := integral_singleton.mpr ((h.exists_scaled_iff p).mpr le_rfl)
  largest := fun q _ hq ↦ (h.exists_scaled_iff q).mp (integral_singleton.mp hq)

/-- Decimal numbers have a coarsest exponent. -/
theorem exists_coarsest (h : ∀ v ∈ vs, ∃ n q, v = scaled n q) : ∃ p, Coarsest vs p := by
  induction vs with
  | nil => exact ⟨0, coarsest_nil⟩
  | cons v vs ih =>
      obtain ⟨hv, hvs⟩ := List.forall_mem_cons.mp h
      obtain ⟨p, hp⟩ := ih hvs
      obtain ⟨n, q, rfl⟩ := hv
      suffices hfirst : ∃ p, Coarsest [scaled n q] p by
        obtain ⟨r, hr⟩ := hfirst
        exact ⟨_, hr.append hp⟩
      by_cases hn : n = 0
      · refine ⟨0, coarsest_of_integer ⟨0, ?_⟩⟩
        rw [hn, scaled_zero, scaled_zero]
      · obtain ⟨r, -, hlast⟩ := exists_lastPlace hn q
        rcases le_total r 0 with hr | hr
        · exact ⟨r, coarsest_of_lastPlace hlast hr⟩
        · exact ⟨0, coarsest_of_integer ((hlast.exists_scaled_iff 0).mpr hr)⟩

/-! ## Decimal text -/

/-- A numeral whose fraction is all zeros is an integer. -/
theorem Numeral.exists_scaled_zero (n : Numeral)
    (hzeros : n.fraction = List.replicate n.fraction.length 48) : ∃ r, n.value = scaled r 0 := by
  have hmagnitude : n.magnitude = scaled (ofDigits 0 n.whole) 0 := by
    have hcoefficient : n.coefficient = ofDigits 0 n.whole * 10 ^ n.fraction.length := by
      rw [coefficient, digits, ofDigits_append]
      conv_lhs => rw [hzeros]
      exact ofDigits_zeros _ _
    rw [magnitude, hcoefficient, scaled_eq_iff_of_ge (by omega)]
    push_cast
    rw [zero_sub, neg_neg, Int.toNat_natCast]
  rw [value]
  split
  next => exact ⟨-(ofDigits 0 n.whole), by rw [hmagnitude, scaled_neg]⟩
  next => exact ⟨_, hmagnitude⟩

/-- The fraction of a numeral, its trailing zeros dropped, counts the digits behind the point. -/
theorem coarsest_fraction (n : Numeral) :
    Coarsest [n.value] (-(n.fraction.reverse.dropWhile (· = 48)).length) := by
  rcases zeros_or_last n.fraction with hzeros | ⟨xs, b, k, hfraction, hb⟩
  · have hnone : n.fraction.reverse.dropWhile (· = 48) = [] := by
      rw [hzeros, List.reverse_replicate, List.dropWhile_replicate]
      exact if_pos rfl
    rw [hnone]
    exact coarsest_of_integer (n.exists_scaled_zero hzeros)
  · have hdropped : n.fraction.reverse.dropWhile (· = 48) = b :: xs.reverse := by
      rw [hfraction, List.reverse_append, List.reverse_cons, List.reverse_replicate,
        List.append_assoc, List.singleton_append, List.dropWhile_append_of_pos
          (fun c hc ↦ decide_eq_true (List.eq_of_mem_replicate hc)),
        List.dropWhile_cons_of_neg (by rw [decide_eq_true_eq]; exact hb)]
    have hdigits : n.digits = (n.whole ++ xs) ++ b :: List.replicate k 48 := by
      rw [Numeral.digits, hfraction, List.append_assoc]
    have hlast := n.lastPlace_value_iff.mpr (n.lastPlace_of_digits hdigits hb)
    have hlength := congrArg List.length hfraction
    rw [List.length_append, List.length_cons, List.length_replicate] at hlength
    rw [hdropped, List.length_cons, List.length_reverse]
    have hplace : (k : ℤ) - n.fraction.length = -(xs.length + 1 : ℕ) := by omega
    rw [hplace] at hlast
    exact coarsest_of_lastPlace hlast (by omega)

end EdgeMulticast.Lib
