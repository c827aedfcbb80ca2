import EdgeMulticast.Lowering.FixedPoint

/-!
# Text and mantissa agree

A venue states a number as decimal text or as a mantissa and an exponent.  Both come to what
`Restates` says of the rational, except where a mantissa is stated at an exponent that is more
than 18 places finer than the target, or where a quantity needs the upper half of a `u64`.
-/

namespace EdgeMulticast.Lowering

open EdgeMulticast.Lib

/-! ## A mantissa and its exponent -/

theorem powerOfTen_of_le {d : ℤ} (hd : d ≤ 18) : powerOfTen d = .ok (10 ^ d.toNat) := by
  have hpow : (10 : ℤ) ^ d.toNat ≤ 10 ^ 18 := pow_le_pow_right₀ (by norm_num) (by omega)
  have hpos : (0 : ℤ) < 10 ^ d.toNat := by positivity
  rw [powerOfTen, checked, I64_MIN, I64_MAX, if_pos (by omega)]

theorem le_pow_ten {d : ℤ} (hd : 18 < d) : (10 : ℤ) ^ 19 ≤ 10 ^ d.toNat :=
  pow_le_pow_right₀ (by norm_num) (by omega)

theorem powerOfTen_of_lt {d : ℤ} (hd : 18 < d) : powerOfTen d = .error .overflow := by
  have hpow := le_pow_ten hd
  rw [powerOfTen, checked, I64_MIN, I64_MAX, if_neg (by omega)]

theorem trailingZeros_spec {n : ℤ} (hn : n ≠ 0) :
    10 ^ trailingZeros n ∣ n ∧ ¬10 ^ (trailingZeros n + 1) ∣ n := by
  induction n using trailingZeros.induct with
  | case1 n h ih =>
      have hten : n = 10 * n.tdiv 10 := (Int.mul_tdiv_cancel_of_tmod_eq_zero h.2).symm
      obtain ⟨hdvd, hnot⟩ := ih (by omega)
      rw [trailingZeros, if_pos h, pow_succ' 10 (trailingZeros (n.tdiv 10)),
        pow_succ' 10 (trailingZeros (n.tdiv 10) + 1)]
      constructor
      · conv_rhs => rw [hten]
        exact mul_dvd_mul_left 10 hdvd
      · intro hmore
        conv_rhs at hmore => rw [hten]
        exact hnot ((mul_dvd_mul_iff_left (by norm_num)).mp hmore)
  | case2 n h =>
      rw [trailingZeros, if_neg h, pow_zero, zero_add, pow_one]
      exact ⟨one_dvd n, fun hdvd ↦ h ⟨hn, Int.tmod_eq_zero_of_dvd hdvd⟩⟩

/-- A multiple of a power of ten is as large as it. -/
theorem pow_ten_le_natAbs {n : ℤ} {k : ℕ} (hn : n ≠ 0) (hdvd : 10 ^ k ∣ n) : 10 ^ k ≤ n.natAbs := by
  have hle := Nat.le_of_dvd (Int.natAbs_pos.mpr hn) (Int.natAbs_dvd_natAbs.mpr hdvd)
  rwa [Int.natAbs_pow] at hle

/-- What is left over by a power of ten ends as the number does. -/
theorem lastPlace_of_remainder {m : ℤ} (source : ℤ) {d : ℕ} (h : m.tmod (10 ^ d) ≠ 0) :
    trailingZeros (m.tmod (10 ^ d)) < d ∧
      LastPlace (scaled m source) (source + trailingZeros (m.tmod (10 ^ d))) := by
  obtain ⟨hdvd, hnot⟩ := trailingZeros_spec h
  generalize trailingZeros (m.tmod (10 ^ d)) = z at hdvd hnot
  have hsplit : m = m.tmod (10 ^ d) + 10 ^ d * m.tdiv (10 ^ d) :=
    (Int.tmod_add_mul_tdiv m (10 ^ d)).symm
  have hz : z < d := by
    by_contra hle
    have hlow : 10 ^ d ≤ (m.tmod (10 ^ d)).natAbs :=
      pow_ten_le_natAbs h (dvd_trans (pow_dvd_pow 10 (by omega)) hdvd)
    have hhigh : (m.tmod (10 ^ d)).natAbs < ((10 : ℤ) ^ d).natAbs := by
      rw [Int.natAbs_tmod]
      exact Nat.mod_lt _ (Int.natAbs_pos.mpr (by positivity))
    rw [Int.natAbs_pow] at hhigh
    exact absurd hlow (not_le.mpr hhigh)
  have hmore {k : ℕ} (hk : k ≤ d) : 10 ^ k ∣ m ↔ 10 ^ k ∣ m.tmod (10 ^ d) := by
    conv_lhs => rw [hsplit]
    exact (Int.dvd_add_left (Dvd.dvd.mul_right (pow_dvd_pow 10 hk) _))
  exact ⟨hz, lastPlace_of_dvd ((hmore hz.le).mpr hdvd) fun h ↦ hnot ((hmore hz).mp h)⟩

/-- A number that ten divides some times over lies further from zero than what is left. -/
theorem within_of_mul_pow {m r : ℤ} {k : ℕ} (h : m = r * 10 ^ k) (hm : I64_MIN ≤ m ∧ m ≤ I64_MAX) :
    I64_MIN ≤ r ∧ r ≤ I64_MAX := by
  have hone : (1 : ℤ) ≤ 10 ^ k := one_le_pow₀ (by norm_num)
  rw [I64_MIN, I64_MAX] at hm ⊢
  rcases le_total 0 r with hr | hr
  · have := le_mul_of_one_le_right hr hone
    omega
  · have := mul_le_of_one_le_right hr hone
    omega

theorem rescaleSigned_restates {m : ℤ} (hm : I64_MIN ≤ m ∧ m ≤ I64_MAX) {source target : Int8}
    (h : m = 0 ∨ -18 ≤ source.toInt - target.toInt) :
    Restates I64_MIN I64_MAX (scaled m source.toInt) target.toInt
      (rescaleSigned m source target) := by
  rw [rescaleSigned]
  split
  next hzero =>
    refine .ok (by decide) ?_
    rw [hzero, scaled_zero, scaled_zero]
  next hne =>
    dsimp only
    split
    next hshift =>
      refine .ok hm ?_
      rw [show source.toInt = target.toInt by omega]
    next =>
      split
      next hup =>
        have hstates : scaled m source.toInt =
            scaled (m * 10 ^ (source.toInt - target.toInt).toNat) target.toInt :=
          (scaled_eq_iff_of_le (by omega)).mpr rfl
        by_cases hd : source.toInt - target.toInt ≤ 18
        · rw [powerOfTen_of_le hd]
          dsimp only [bind, Except.bind]
          rw [checked]
          split
          next hraw =>
            split at hraw
            next => cases hraw
            next hout => exact .overflow hout hstates
          next raw hraw =>
            split at hraw
            next hfits =>
              cases hraw
              exact .ok hfits hstates
            next => cases hraw
        · have hpow := le_pow_ten (not_le.mp hd)
          rw [powerOfTen_of_lt (not_le.mp hd)]
          refine .overflow (fun hfits ↦ ?_) hstates
          rw [I64_MIN, I64_MAX] at hfits
          rcases lt_or_gt_of_ne hne with hneg | hpos
          · have := le_mul_of_one_le_left (show (0 : ℤ) ≤ 10 ^ (source.toInt - target.toInt).toNat by
              positivity) (show 1 ≤ -m by omega)
            rw [neg_mul] at this
            omega
          · have := le_mul_of_one_le_left (show (0 : ℤ) ≤ 10 ^ (source.toInt - target.toInt).toNat by
              positivity) (show 1 ≤ m by omega)
            omega
      next hdown =>
        have hd : -(source.toInt - target.toInt) ≤ 18 := by
          rcases h with hzero | h
          · exact absurd hzero hne
          · omega
        rw [powerOfTen_of_le hd]
        change Restates _ _ _ _ (if _ then _ else _)
        generalize hk : (-(source.toInt - target.toInt)).toNat = k
        split
        next hrem =>
          have hq : m = m.tdiv (10 ^ k) * 10 ^ k := (Int.tdiv_mul_cancel_of_tmod_eq_zero hrem).symm
          have hstates : scaled m source.toInt = scaled (m.tdiv (10 ^ k)) target.toInt := by
            rw [scaled_eq_iff_of_ge (by omega),
              show (target.toInt - source.toInt).toNat = k by omega]
            exact hq
          exact .ok (within_of_mul_pow hq hm) hstates
        next hrem =>
          obtain ⟨hz, hlast⟩ := lastPlace_of_remainder source.toInt hrem
          have hbeyond : precisionBeyond (m.tmod (10 ^ k)) (-(source.toInt - target.toInt)) =
              (target.toInt - (source.toInt + trailingZeros (m.tmod (10 ^ k)))).toNat := by
            rw [precisionBeyond]
            omega
          rw [hbeyond]
          exact .tooPrecise hlast (by omega)

/-- A mantissa more than 18 places finer than the target is refused, although it is no multiple of
so large a power of ten. -/
theorem rescaleSigned_of_finer {m : ℤ} (hne : m ≠ 0) {source target : Int8}
    (h : source.toInt - target.toInt < -18) : rescaleSigned m source target = .error .overflow := by
  rw [rescaleSigned, if_neg hne]
  dsimp only
  rw [if_neg (by omega), if_neg (by omega), powerOfTen_of_lt (by omega)]
  rfl

theorem not_stated_of_finer {m source target : ℤ} (hne : m ≠ 0)
    (hm : I64_MIN ≤ m ∧ m ≤ I64_MAX) (h : source - target < -18) :
    ¬∃ r, scaled m source = scaled r target := by
  rintro ⟨r, hr⟩
  rw [scaled_eq_iff_of_ge (by omega)] at hr
  have hpow := le_pow_ten (show 18 < target - source by omega)
  have hle := pow_ten_le_natAbs hne ⟨r, by rw [hr, mul_comm]⟩
  have hcast : ((10 ^ (target - source).toNat : ℕ) : ℤ) = 10 ^ (target - source).toNat := by
    push_cast
    rfl
  rw [I64_MIN, I64_MAX] at hm
  omega

/-! ## The two ways -/

theorem toInt_bounds (m : Int64) : I64_MIN ≤ m.toInt ∧ m.toInt ≤ I64_MAX := by
  have hlow := Int64.le_toInt m
  have hhigh := Int64.toInt_lt m
  rw [I64_MIN, I64_MAX]
  omega

/-- A text whose value an `i8` exponent states comes to what the value does. -/
theorem parse_of_fixed {reader : Reader} {n : Numeral} (hn : reader.Spells n.text n) {m : ℤ}
    {source : Int8} (hvalue : n.value = scaled m source.toInt) (target : Int8) :
    Restates reader.min reader.max (scaled m source.toInt) target.toInt
      (reader.parse n.text target) := by
  rw [← hvalue]
  rcases parse_cases hn target with ⟨p, hlast, hbelow, hparse⟩ | ⟨_, hrestates⟩
  · have hsource := (hlast.exists_scaled_iff source.toInt).mp ⟨m, hvalue⟩
    have hlow := Int8.le_toInt source
    have hhigh := Int8.toInt_lt target
    rw [hparse, Nat.mod_eq_of_lt (by omega)]
    exact .tooPrecise hlast hbelow
  · exact hrestates

theorem spells_signed (n : Numeral) : Reader.signed.Spells n.text n := ⟨rfl, fun h ↦ (by cases h)⟩

theorem spells_unsigned {n : Numeral} (h : n.negative = false) : Reader.unsigned.Spells n.text n :=
  ⟨rfl, fun _ ↦ h⟩

theorem parseUnsigned_negative {n : Numeral} (h : n.negative = true) (target : Int8) :
    parseUnsigned n.text target = .error .malformed := by
  rw [numeral_text, h, if_pos rfl, List.singleton_append, parseUnsigned, List.head?_cons, if_pos rfl]

theorem magnitude_nonneg (n : Numeral) : 0 ≤ n.magnitude :=
  scaled_nonneg_iff.mpr (Int.natCast_nonneg _)

theorem nonneg_of_not_negative {n : Numeral} {m p : ℤ} (hvalue : n.value = scaled m p)
    (h : n.negative = false) : 0 ≤ m := by
  rw [Numeral.value, h, if_neg Bool.false_ne_true] at hvalue
  rw [← scaled_nonneg_iff, ← hvalue]
  exact magnitude_nonneg n

theorem nonpos_of_negative {n : Numeral} {m p : ℤ} (hvalue : n.value = scaled m p)
    (h : n.negative = true) : m ≤ 0 := by
  rw [Numeral.value, h, if_pos rfl, neg_eq_iff_eq_neg, ← scaled_neg] at hvalue
  have hnonneg : 0 ≤ -m := by
    rw [← scaled_nonneg_iff, ← hvalue]
    exact magnitude_nonneg n
  omega

/-- A value that is stated at the source but not at the target comes to no overflow. -/
theorem disagree_of_finer {min max m source target : ℤ} (hne : m ≠ 0)
    (hm : I64_MIN ≤ m ∧ m ≤ I64_MAX) (h : source - target < -18) {x : Except ScaleError ℤ}
    (hx : Restates min max (scaled m source) target x) : x ≠ .error .overflow := by
  rintro rfl
  cases hx with
  | overflow outside states => exact not_stated_of_finer hne hm h ⟨_, states⟩

/-- A price is the same either way, unless the mantissa is stated more than 18 places finer. -/
theorem priceAt_agrees {n : Numeral} {m : Int64} {source : Int8}
    (hvalue : n.value = scaled m.toInt source.toInt) (target : Int8) :
    priceAt (.text n.text) target = priceAt (.fixed m source) target ↔
      m.toInt = 0 ∨ -18 ≤ source.toInt - target.toInt := by
  have htext := parse_of_fixed (spells_signed n) hvalue target
  change parseSigned n.text target = rescaleSigned m.toInt source target ↔ _
  constructor
  · intro heq
    by_contra hfiner
    obtain ⟨hne, hfiner⟩ := not_or.mp hfiner
    rw [rescaleSigned_of_finer hne (by omega)] at heq
    exact disagree_of_finer hne (toInt_bounds m) (by omega) htext heq
  · intro h
    exact htext.unique (rescaleSigned_restates (toInt_bounds m) h)

/-- Where a quantity is the same either way: a zero may have no sign in the text, and a quantity
that only the upper half of a `u64` holds is read from text alone. -/
def QtyAgrees (n : Numeral) (m : Int64) (source target : Int8) : Prop :=
  m.toInt < 0 ∨
  (m.toInt = 0 ∧ n.negative = false) ∨
  (0 < m.toInt ∧ -18 ≤ source.toInt - target.toInt ∧
    ¬(I64_MAX < m.toInt * 10 ^ (source.toInt - target.toInt).toNat ∧
      m.toInt * 10 ^ (source.toInt - target.toInt).toNat ≤ U64_MAX))

/-- The range check of a quantity, after the restating. -/
def asQty (x : Except ScaleError ℤ) : Except ScaleError ℤ :=
  x.bind fun raw ↦
    match checked 0 U64_MAX raw with
    | none => .error .malformed
    | some raw => .ok raw

theorem qtyAt_fixed {m : Int64} (hm : ¬m.toInt < 0) (source target : Int8) :
    qtyAt (.fixed m source) target = asQty (rescaleSigned m.toInt source target) := if_neg hm

theorem asQty_ok {r : ℤ} (hr : 0 ≤ r ∧ r ≤ I64_MAX) : asQty (.ok r) = .ok r := by
  have hwide : r ≤ U64_MAX := hr.2.trans (by decide)
  change (match checked 0 U64_MAX r with | none => _ | some raw => _) = _
  rw [checked, if_pos ⟨hr.1, hwide⟩]

/-- A quantity in the range of an `i64` and one in that of a `u64` differ where only the second
holds it. -/
theorem eq_asQty_iff {v : ℚ} {e : ℤ} {x y : Except ScaleError ℤ} (hv : 0 ≤ v)
    (hx : Restates I64_MIN I64_MAX v e x) (hy : Restates 0 U64_MAX v e y) :
    y = asQty x ↔ ¬∃ r, v = scaled r e ∧ I64_MAX < r ∧ r ≤ U64_MAX := by
  cases hx with
  | @ok r fits states =>
      rw [states, scaled_nonneg_iff] at hv
      have hsame : y = .ok r := hy.unique (.ok ⟨hv, fits.2.trans (by decide)⟩ states)
      rw [asQty_ok ⟨hv, fits.2⟩, hsame]
      refine ⟨fun _ ↦ ?_, fun _ ↦ rfl⟩
      rintro ⟨r', states', hlow, _⟩
      rw [states, scaled_inj] at states'
      omega
  | tooPrecise last below =>
      refine ⟨fun _ ↦ ?_, fun _ ↦ hy.unique (.tooPrecise last below)⟩
      rintro ⟨r, states, _⟩
      exact absurd ((last.exists_scaled_iff e).mp ⟨r, states⟩) (not_le.mpr below)
  | @overflow r outside states =>
      rw [states, scaled_nonneg_iff] at hv
      have hlow : I64_MAX < r := by
        rw [I64_MIN] at outside
        by_contra hle
        exact outside ⟨by omega, by omega⟩
      by_cases hhigh : r ≤ U64_MAX
      · rw [hy.unique (.ok ⟨hv, hhigh⟩ states)]
        refine ⟨fun h ↦ ?_, fun h ↦ absurd ⟨r, states, hlow, hhigh⟩ h⟩
        cases h
      · rw [hy.unique (.overflow (fun h ↦ hhigh h.2) states)]
        refine ⟨fun _ ↦ ?_, fun _ ↦ rfl⟩
        rintro ⟨r', states', _, hle⟩
        rw [states, scaled_inj] at states'
        omega

/-- The integer at the target that only a `u64` holds, from the mantissa. -/
theorem exists_upper_iff (m : Int64) (source target : ℤ) :
    (∃ r, scaled m.toInt source = scaled r target ∧ I64_MAX < r ∧ r ≤ U64_MAX) ↔
      I64_MAX < m.toInt * 10 ^ (source - target).toNat ∧
        m.toInt * 10 ^ (source - target).toNat ≤ U64_MAX := by
  rcases le_total target source with hle | hle
  · constructor
    · rintro ⟨r, states, hrange⟩
      rwa [(scaled_eq_iff_of_le hle).mp states]
    · exact fun hrange ↦ ⟨_, (scaled_eq_iff_of_le hle).mpr rfl, hrange⟩
  · have hbound := (toInt_bounds m).2
    have hzero : (source - target).toNat = 0 := by omega
    rw [hzero, pow_zero, mul_one]
    constructor
    · rintro ⟨r, states, hlow, _⟩
      have hin := within_of_mul_pow ((scaled_eq_iff_of_ge hle).mp states) (toInt_bounds m)
      omega
    · rintro ⟨hlow, _⟩
      omega

theorem qtyAt_agrees {n : Numeral} {m : Int64} {source : Int8}
    (hvalue : n.value = scaled m.toInt source.toInt) (target : Int8) :
    qtyAt (.text n.text) target = qtyAt (.fixed m source) target ↔
      QtyAgrees n m source target := by
  change parseUnsigned n.text target = _ ↔ _
  rcases lt_trichotomy m.toInt 0 with hneg | hzero | hpos
  · have hsign : n.negative = true := by
      by_contra hsign
      have := nonneg_of_not_negative hvalue (Bool.not_eq_true _ ▸ hsign)
      omega
    rw [parseUnsigned_negative hsign]
    exact ⟨fun _ ↦ .inl hneg, fun _ ↦ (if_pos hneg).symm⟩
  · have hfixed : qtyAt (.fixed m source) target = .ok 0 := by
      rw [qtyAt_fixed (by omega), rescaleSigned, if_pos hzero]
      rfl
    rw [hfixed]
    cases hsign : n.negative with
    | true =>
        rw [parseUnsigned_negative hsign]
        constructor
        · intro h
          cases h
        · rintro (hneg | ⟨_, hplain⟩ | ⟨hpos, _⟩)
          · omega
          · rw [hsign] at hplain
            cases hplain
          · omega
    | false =>
        refine ⟨fun _ ↦ .inr (.inl ⟨hzero, hsign⟩), fun _ ↦ ?_⟩
        refine (parse_of_fixed (spells_unsigned hsign) hvalue target).unique (.ok (by decide) ?_)
        rw [hzero, scaled_zero, scaled_zero]
  · have hsign : n.negative = false := by
      by_contra hsign
      have := nonpos_of_negative hvalue (by simpa using hsign)
      omega
    have htext := parse_of_fixed (spells_unsigned hsign) hvalue target
    change Restates 0 U64_MAX _ _ (parseUnsigned n.text target) at htext
    rw [qtyAt_fixed (by omega), QtyAgrees]
    by_cases hfiner : -18 ≤ source.toInt - target.toInt
    · rw [eq_asQty_iff (scaled_nonneg_iff.mpr hpos.le)
        (rescaleSigned_restates (toInt_bounds m) (.inr hfiner)) htext, exists_upper_iff]
      constructor
      · exact fun h ↦ .inr (.inr ⟨hpos, hfiner, h⟩)
      · rintro (hneg | ⟨hzero, _⟩ | ⟨_, _, h⟩)
        · omega
        · omega
        · exact h
    · rw [rescaleSigned_of_finer hpos.ne' (by omega)]
      constructor
      · intro heq
        exact absurd heq (disagree_of_finer hpos.ne' (toInt_bounds m) (by omega) htext)
      · rintro (hneg | ⟨hzero, _⟩ | ⟨_, h, _⟩)
        · omega
        · omega
        · exact absurd h hfiner

/-- **Text and mantissa agree**, in a price and in a quantity, exactly where this says. -/
theorem text_fixed_agree {n : Numeral} {m : Int64} {source : Int8}
    (hvalue : n.value = scaled m.toInt source.toInt) (target : Int8) :
    (priceAt (.text n.text) target = priceAt (.fixed m source) target ↔
      m.toInt = 0 ∨ -18 ≤ source.toInt - target.toInt) ∧
    (qtyAt (.text n.text) target = qtyAt (.fixed m source) target ↔
      QtyAgrees n m source target) :=
  ⟨priceAt_agrees hvalue target, qtyAt_agrees hvalue target⟩

theorem farDigit_value (zeros : ℕ) : (farDigit zeros).value = scaled 1 (-(zeros + 1)) := by
  have hcoefficient : (farDigit zeros).coefficient = 1 := by
    change ofDigits 0 ((48 :: List.replicate zeros 48) ++ [49]) = 1
    rw [ofDigits_append, ← List.replicate_succ, ofDigits_zeros, zero_mul]
    rfl
  have hlen : (farDigit zeros).fraction.length = zeros + 1 := by
    change (List.replicate zeros (48 : Byte) ++ [49]).length = _
    rw [List.length_append, List.length_replicate, List.length_singleton]
  change (farDigit zeros).magnitude = _
  rw [Numeral.magnitude, hcoefficient, hlen]
  push_cast
  rfl

/-- A tenth, in hundredths. -/
theorem text_fixed_agree_tenth :
    priceAt (.text (farDigit 0).text) (-2) = priceAt (.fixed 1 (-1)) (-2) ∧
      qtyAt (.text (farDigit 0).text) (-2) = qtyAt (.fixed 1 (-1)) (-2) :=
  ⟨(text_fixed_agree (farDigit_value 0) (-2)).1.mpr (.inr (by decide)),
    (text_fixed_agree (farDigit_value 0) (-2)).2.mpr (.inr (.inr (by decide)))⟩

/-- One part in `10 ^ 20`, in units: too precise as text, and an overflow as a mantissa. -/
theorem text_fixed_disagree :
    (farDigit 19).value = scaled (1 : Int64).toInt (-20 : Int8).toInt ∧
      priceAt (.text (farDigit 19).text) 0 = .error (.tooPrecise 20) ∧
      priceAt (.fixed 1 (-20)) 0 = .error .overflow :=
  ⟨farDigit_value 19, by decide +kernel, by decide +kernel⟩

end EdgeMulticast.Lowering
