import EdgeMulticast.Lowering.Agreement

/-!
# Contract factors are exact

A price is quoted per contract and a quantity in contracts; `exact` divides by the size of the
contract or multiplies with it, in the integers of an `i128`.  An intermediate that such an integer
does not hold stands for a result that no `i64` or `u64` holds either, unless the result is zero.
-/

namespace EdgeMulticast.Lowering

open EdgeMulticast.Lib

/-- The intermediates of `exact` are `i128`s. -/
def Intermediate (numerator denominator shift : ℤ) : Prop :=
  (10 : ℤ) ^ shift.natAbs ≤ I128_MAX ∧
    if 0 ≤ shift then
      I128_MIN ≤ numerator * 10 ^ shift.natAbs ∧ numerator * 10 ^ shift.natAbs ≤ I128_MAX
    else denominator * 10 ^ shift.natAbs ≤ I128_MAX

instance (numerator denominator shift : ℤ) : Decidable (Intermediate numerator denominator shift) :=
  inferInstanceAs (Decidable (_ ∧ _))

/-- The equation that an exact result solves. -/
def Divides (numerator denominator shift r : ℤ) : Prop :=
  if 0 ≤ shift then numerator * 10 ^ shift.natAbs = r * denominator
  else numerator = r * (denominator * 10 ^ shift.natAbs)

theorem pow_ten_pos (k : ℕ) : (0 : ℤ) < 10 ^ k := by positivity

theorem powerOfTenI128_natAbs (k : ℕ) :
    powerOfTenI128 k = if (10 : ℤ) ^ k ≤ I128_MAX then some (10 ^ k) else none := by
  have hlow : I128_MIN ≤ 10 ^ k := le_trans (by decide) (pow_ten_pos k).le
  rw [powerOfTenI128, checked, Int.toNat_natCast]
  exact if_congr (and_iff_right hlow) rfl rfl

/-- A quotient without remainder. -/
theorem tmod_tdiv_iff {n d r : ℤ} (hd : 0 < d) : n.tmod d = 0 ∧ n.tdiv d = r ↔ n = r * d := by
  constructor
  · rintro ⟨hmod, rfl⟩
    exact (Int.tdiv_mul_cancel_of_tmod_eq_zero hmod).symm
  · rintro rfl
    exact ⟨Int.mul_tmod_left r d, Int.mul_tdiv_cancel r hd.ne'⟩

/-- A value with the power of ten of a shift, as `exact` computes it. -/
def scaledI128 (value shift : ℤ) (field : String) : Except LoweringError ℤ :=
  match powerOfTenI128 shift.natAbs with
  | none => .error (.scale field .overflow)
  | some power =>
      match checked I128_MIN I128_MAX (value * power) with
      | none => .error (.scale field .overflow)
      | some value => .ok value

theorem scaledI128_eq_ok_iff {value shift x : ℤ} {field : String} :
    scaledI128 value shift field = .ok x ↔
      (10 : ℤ) ^ shift.natAbs ≤ I128_MAX ∧
        (I128_MIN ≤ value * 10 ^ shift.natAbs ∧ value * 10 ^ shift.natAbs ≤ I128_MAX) ∧
        value * 10 ^ shift.natAbs = x := by
  rw [scaledI128, powerOfTenI128_natAbs]
  by_cases hpower : (10 : ℤ) ^ shift.natAbs ≤ I128_MAX
  · rw [if_pos hpower]
    dsimp only
    rw [checked]
    by_cases hfits : I128_MIN ≤ value * 10 ^ shift.natAbs ∧ value * 10 ^ shift.natAbs ≤ I128_MAX
    · rw [if_pos hfits]
      exact ⟨fun h ↦ ⟨hpower, hfits, Except.ok.inj h⟩, fun h ↦ congrArg Except.ok h.2.2⟩
    · rw [if_neg hfits]
      exact ⟨fun h ↦ (by cases h), fun h ↦ absurd h.2.1 hfits⟩
  · rw [if_neg hpower]
    exact ⟨fun h ↦ (by cases h), fun h ↦ absurd h.1 hpower⟩

/-- The division at the end of `exact`. -/
def quotient (numerator denominator : ℤ) (field : String) : Except LoweringError ℤ :=
  if numerator.tmod denominator ≠ 0 then
    .error (if isPowerOfTen denominator then .scale field (.tooPrecise 1) else .inexactContract field)
  else .ok (numerator.tdiv denominator)

theorem quotient_eq_ok_iff {numerator denominator r : ℤ} (hd : 0 < denominator) {field : String} :
    quotient numerator denominator field = .ok r ↔ numerator = r * denominator := by
  rw [← tmod_tdiv_iff hd, quotient]
  split
  next hmod => exact ⟨fun h ↦ (by cases h), fun h ↦ absurd h.1 hmod⟩
  next hmod =>
    exact ⟨fun h ↦ ⟨not_not.mp hmod, Except.ok.inj h⟩, fun h ↦ congrArg Except.ok h.2⟩

theorem exact_eq (numerator denominator shift : ℤ) (field : String) :
    exact numerator denominator shift field =
      if 0 ≤ shift then
        scaledI128 numerator shift field >>= fun numerator ↦ quotient numerator denominator field
      else
        scaledI128 denominator shift field >>= fun denominator ↦
          quotient numerator denominator field := by
  rw [exact]
  split
  next =>
    change (scaledI128 numerator shift field).map _ >>= _ = _
    cases scaledI128 numerator shift field with
    | error e => rfl
    | ok x => rfl
  next =>
    change (scaledI128 denominator shift field).map _ >>= _ = _
    cases scaledI128 denominator shift field with
    | error e => rfl
    | ok x => rfl

theorem exact_eq_ok_iff {numerator denominator : ℤ} (hd : 0 < denominator) (shift : ℤ)
    (field : String) (r : ℤ) :
    exact numerator denominator shift field = .ok r ↔
      Intermediate numerator denominator shift ∧ Divides numerator denominator shift r := by
  rw [Intermediate, Divides, exact_eq]
  have hpos := mul_pos hd (pow_ten_pos shift.natAbs)
  split
  next =>
    rw [bind_eq_ok]
    constructor
    · rintro ⟨x, hx, hr⟩
      obtain ⟨hpower, hfits, rfl⟩ := scaledI128_eq_ok_iff.mp hx
      exact ⟨⟨hpower, hfits⟩, (quotient_eq_ok_iff hd).mp hr⟩
    · rintro ⟨⟨hpower, hfits⟩, hr⟩
      exact ⟨_, scaledI128_eq_ok_iff.mpr ⟨hpower, hfits, rfl⟩, (quotient_eq_ok_iff hd).mpr hr⟩
  next =>
    rw [bind_eq_ok]
    constructor
    · rintro ⟨x, hx, hr⟩
      obtain ⟨hpower, hfits, rfl⟩ := scaledI128_eq_ok_iff.mp hx
      exact ⟨⟨hpower, hfits.2⟩, (quotient_eq_ok_iff hpos).mp hr⟩
    · rintro ⟨⟨hpower, hfits⟩, hr⟩
      have hlow : I128_MIN ≤ denominator * 10 ^ shift.natAbs := le_trans (by decide) hpos.le
      exact ⟨_, scaledI128_eq_ok_iff.mpr ⟨hpower, ⟨hlow, hfits⟩, rfl⟩,
        (quotient_eq_ok_iff hpos).mpr hr⟩

/-- The equation, between the rationals. -/
theorem divides_iff {numerator denominator shift r p q : ℤ} (hshift : shift = p - q) :
    Divides numerator denominator shift r ↔
      scaled (r * denominator) q = scaled numerator p := by
  rw [Divides, eq_comm (a := scaled (r * denominator) q)]
  split
  next hup =>
    rw [scaled_eq_iff_of_le (by omega), show (p - q).toNat = shift.natAbs by omega]
  next hdown =>
    rw [scaled_eq_iff_of_ge (by omega), show (q - p).toNat = shift.natAbs by omega, mul_assoc]

/-- A result that fits has intermediates that do, unless it is zero. -/
theorem intermediate_of_divides {n d shift r : ℤ} (hn : n ≠ 0) (hd : 0 < d)
    (hdivides : Divides n d shift r) (hresult : |r * d| ≤ 2 ^ 126) (hvalue : |n| ≤ 2 ^ 126) :
    Intermediate n d shift := by
  have hone : (1 : ℤ) ≤ |n| := Int.one_le_abs hn
  have hpow := pow_ten_pos shift.natAbs
  rw [Intermediate, I128_MIN, I128_MAX]
  rw [Divides] at hdivides
  split at hdivides
  next hup =>
    rw [← hdivides, abs_mul, abs_of_pos hpow] at hresult
    have hpower := le_mul_of_one_le_left hpow.le hone
    have hbounds : |n * 10 ^ shift.natAbs| ≤ 2 ^ 126 := by rwa [abs_mul, abs_of_pos hpow]
    obtain ⟨hlow, hhigh⟩ := abs_le.mp hbounds
    refine ⟨by omega, ?_⟩
    rw [if_pos hup]
    omega
  next hdown =>
    have hr : 1 ≤ |r| := by
      refine Int.one_le_abs fun hr ↦ hn ?_
      rw [hdivides, hr, zero_mul]
    have hprod := mul_pos hd hpow
    rw [hdivides, abs_mul, abs_of_pos hprod] at hvalue
    have hdenominator := le_mul_of_one_le_left hprod.le hr
    have hpower := le_mul_of_one_le_left hpow.le (show 1 ≤ d by omega)
    refine ⟨by omega, ?_⟩
    rw [if_neg hdown]
    omega

theorem divides_zero_iff {d shift r : ℤ} (hd : 0 < d) : Divides 0 d shift r ↔ r = 0 := by
  rw [Divides]
  split
  next =>
    rw [zero_mul, eq_comm, mul_eq_zero]
    exact or_iff_left hd.ne'
  next =>
    rw [eq_comm, mul_eq_zero]
    exact or_iff_left (mul_pos hd (pow_ten_pos _)).ne'

/-- The powers of ten that a zero is scaled with are `i128`s. -/
def PowerFits (denominator shift : ℤ) : Prop :=
  (10 : ℤ) ^ shift.natAbs ≤ I128_MAX ∧
    (0 ≤ shift ∨ denominator * 10 ^ shift.natAbs ≤ I128_MAX)

theorem intermediate_zero_iff {d shift : ℤ} : Intermediate 0 d shift ↔ PowerFits d shift := by
  rw [Intermediate, PowerFits]
  refine and_congr_right fun _ ↦ ?_
  split
  next hup =>
    rw [zero_mul]
    exact ⟨fun _ ↦ .inl hup, fun _ ↦ by decide⟩
  next hdown => exact ⟨.inr, fun h ↦ h.resolve_left hdown⟩

/-- `exact` has the result that the equation has, unless the number is zero and its power of ten is
no `i128`. -/
theorem exact_spec {n d shift : ℤ} (hd : 0 < d) (hvalue : |n| ≤ 2 ^ 126) {min max : ℤ}
    (hzero : min ≤ 0 ∧ 0 ≤ max) (hrange : ∀ r, min ≤ r → r ≤ max → |r * d| ≤ 2 ^ 126)
    (field : String) :
    (∀ r, (min ≤ r ∧ r ≤ max) ∧ exact n d shift field = .ok r ↔
      (min ≤ r ∧ r ≤ max) ∧ Divides n d shift r) ↔
      n ≠ 0 ∨ PowerFits d shift := by
  constructor
  · intro h
    by_contra hnot
    obtain ⟨hn, hnot⟩ := not_or.mp hnot
    rw [not_not] at hn
    rw [hn] at h
    have hexact := ((h 0).mpr ⟨hzero, (divides_zero_iff hd).mpr rfl⟩).2
    exact hnot (intermediate_zero_iff.mp ((exact_eq_ok_iff hd shift field 0).mp hexact).1)
  · intro h r
    refine and_congr_right fun hfits ↦ ?_
    rw [exact_eq_ok_iff hd]
    refine and_iff_right_of_imp fun hdivides ↦ ?_
    by_cases hn : n = 0
    · rw [hn]
      exact intermediate_zero_iff.mpr (h.resolve_left (not_not.mpr hn))
    · exact intermediate_of_divides hn hd hdivides (hrange r hfits.1 hfits.2) hvalue

/-! ## Prices and quantities -/

variable {inst : Instrument} {c : ContractSize}

theorem checked_eq_ok_iff {min max raw r : ℤ} {field : String} :
    (match checked min max raw with
      | none => .error (.scale field .overflow)
      | some raw => .ok raw : Except LoweringError ℤ) = .ok r ↔ (min ≤ raw ∧ raw ≤ max) ∧ raw = r := by
  rw [checked]
  by_cases h : min ≤ raw ∧ raw ≤ max
  · rw [if_pos h]
    exact ⟨fun hr ↦ ⟨h, Except.ok.inj hr⟩, fun hr ↦ congrArg Except.ok hr.2⟩
  · rw [if_neg h]
    exact ⟨fun hr ↦ (by cases hr), fun hr ↦ absurd hr.1 h⟩

theorem priceFor_contract (hc : inst.quotedPerContract = some c) (m : Int64) (e : Int8)
    (field : String) (r : ℤ) :
    priceFor inst (.fixed m e) field = .ok r ↔
      (I64_MIN ≤ r ∧ r ≤ I64_MAX) ∧
        exact m.toInt c.mantissa.toInt
          (e.toInt - c.exponent.toInt - inst.priceExponent.toInt) field = .ok r := by
  rw [priceFor, hc]
  change (exact _ _ _ _ >>= fun raw ↦ _) = _ ↔ _
  rw [bind_eq_ok]
  constructor
  · rintro ⟨raw, hexact, hraw⟩
    obtain ⟨hfits, rfl⟩ := checked_eq_ok_iff.mp hraw
    exact ⟨hfits, hexact⟩
  · rintro ⟨hfits, hexact⟩
    exact ⟨r, hexact, checked_eq_ok_iff.mpr ⟨hfits, rfl⟩⟩

theorem qtyFor_contract (hc : inst.quotedPerContract = some c) {m : Int64} (hm : ¬m.toInt < 0)
    (hproduct : |m.toInt * c.mantissa.toInt| ≤ 2 ^ 126) (e : Int8) (field : String) (r : ℤ) :
    qtyFor inst (.fixed m e) field = .ok r ↔
      (0 ≤ r ∧ r ≤ U64_MAX) ∧
        exact (m.toInt * c.mantissa.toInt) 1
          (e.toInt + c.exponent.toInt - inst.qtyExponent.toInt) field = .ok r := by
  have hchecked : checked I128_MIN I128_MAX (m.toInt * c.mantissa.toInt) =
      some (m.toInt * c.mantissa.toInt) := by
    obtain ⟨hlow, hhigh⟩ := abs_le.mp hproduct
    rw [checked, I128_MIN, I128_MAX, if_pos (by omega)]
  rw [qtyFor, hc]
  change (if m.toInt < 0 then _ else _) = _ ↔ _
  rw [if_neg hm, hchecked]
  change (exact _ _ _ _ >>= fun raw ↦ _) = _ ↔ _
  rw [bind_eq_ok]
  constructor
  · rintro ⟨raw, hexact, hraw⟩
    obtain ⟨hfits, rfl⟩ := checked_eq_ok_iff.mp hraw
    exact ⟨hfits, hexact⟩
  · rintro ⟨hfits, hexact⟩
    exact ⟨r, hexact, checked_eq_ok_iff.mpr ⟨hfits, rfl⟩⟩

theorem qtyFor_negative (hc : inst.quotedPerContract = some c) {m : Int64} (hm : m.toInt < 0)
    (e : Int8) (field : String) :
    qtyFor inst (.fixed m e) field = .error (.scale field .malformed) := by
  rw [qtyFor, hc]
  exact if_pos hm

theorem abs_mantissa_le (m : Int64) : |m.toInt| ≤ 2 ^ 63 := by
  have hbounds := toInt_bounds m
  rw [I64_MIN, I64_MAX] at hbounds
  rw [abs_le]
  omega

theorem abs_mul_mantissa_le {r : ℤ} (hr : |r| ≤ 2 ^ 63) (m : Int64) :
    |r * m.toInt| ≤ 2 ^ 126 := by
  rw [abs_mul]
  calc |r| * |m.toInt| ≤ 2 ^ 63 * 2 ^ 63 :=
        mul_le_mul hr (abs_mantissa_le m) (abs_nonneg _) (by norm_num)
    _ = 2 ^ 126 := by norm_num

/-- What is claimed of a price: it is read where the underlying, times the contract, is the price. -/
def PriceExact (inst : Instrument) (c : ContractSize) (m : Int64) (e : Int8) (field : String) :
    Prop :=
  ∀ r, priceFor inst (.fixed m e) field = .ok r ↔
    (I64_MIN ≤ r ∧ r ≤ I64_MAX) ∧
      scaled r inst.priceExponent.toInt * scaled c.mantissa.toInt c.exponent.toInt =
        scaled m.toInt e.toInt

/-- What is claimed of a quantity: it is read where it is the contracts times their size. -/
def QtyExact (inst : Instrument) (c : ContractSize) (m : Int64) (e : Int8) (field : String) : Prop :=
  ∀ r, qtyFor inst (.fixed m e) field = .ok r ↔
    (0 ≤ r ∧ r ≤ U64_MAX) ∧ 0 ≤ scaled m.toInt e.toInt ∧
      scaled r inst.qtyExponent.toInt =
        scaled m.toInt e.toInt * scaled c.mantissa.toInt c.exponent.toInt

theorem priceExact_iff (hc : inst.quotedPerContract = some c) (m : Int64) (e : Int8)
    (field : String) :
    PriceExact inst c m e field ↔
      m.toInt ≠ 0 ∨
        PowerFits c.mantissa.toInt (e.toInt - c.exponent.toInt - inst.priceExponent.toInt) := by
  have hvalue : |m.toInt| ≤ 2 ^ 126 := (abs_mantissa_le m).trans (by norm_num)
  have hrange (r : ℤ) (hlow : I64_MIN ≤ r) (hhigh : r ≤ I64_MAX) :
      |r * c.mantissa.toInt| ≤ 2 ^ 126 := by
    rw [I64_MIN] at hlow
    rw [I64_MAX] at hhigh
    exact abs_mul_mantissa_le (abs_le.mpr (by omega)) c.mantissa
  rw [← exact_spec c.positive hvalue (show I64_MIN ≤ 0 ∧ 0 ≤ I64_MAX by decide) hrange field]
  refine forall_congr' fun r ↦ ?_
  rw [priceFor_contract hc, divides_iff (p := e.toInt)
    (q := inst.priceExponent.toInt + c.exponent.toInt) (by omega), scaled_mul]

theorem qtyExact_iff (hc : inst.quotedPerContract = some c) (m : Int64) (e : Int8)
    (field : String) :
    QtyExact inst c m e field ↔
      m.toInt ≠ 0 ∨ PowerFits 1 (e.toInt + c.exponent.toInt - inst.qtyExponent.toInt) := by
  have hproduct : |m.toInt * c.mantissa.toInt| ≤ 2 ^ 126 :=
    abs_mul_mantissa_le (abs_mantissa_le m) c.mantissa
  by_cases hm : m.toInt < 0
  · refine iff_of_true (fun r ↦ ?_) (.inl (by omega))
    rw [qtyFor_negative hc hm, scaled_nonneg_iff]
    exact ⟨fun h ↦ (by cases h), fun h ↦ absurd h.2.1 (not_le.mpr hm)⟩
  · have hrange (r : ℤ) (hlow : 0 ≤ r) (hhigh : r ≤ U64_MAX) : |r * 1| ≤ 2 ^ 126 := by
      rw [U64_MAX] at hhigh
      rw [mul_one, abs_le]
      omega
    have hne : m.toInt * c.mantissa.toInt ≠ 0 ↔ m.toInt ≠ 0 := by
      rw [mul_ne_zero_iff]
      exact and_iff_left c.positive.ne'
    rw [← hne, ← exact_spec one_pos hproduct (show (0 : ℤ) ≤ 0 ∧ 0 ≤ U64_MAX by decide) hrange field]
    refine forall_congr' fun r ↦ ?_
    rw [qtyFor_contract hc hm hproduct, scaled_nonneg_iff, and_iff_right (not_lt.mp hm),
      divides_iff (p := e.toInt + c.exponent.toInt) (q := inst.qtyExponent.toInt) (by omega),
      scaled_mul, mul_one]

/-- **Contract factors are exact**, except for a zero whose power of ten is no `i128`. -/
theorem contract_exact (hc : inst.quotedPerContract = some c) (m : Int64) (e : Int8)
    (field : String) :
    (PriceExact inst c m e field ↔
      m.toInt ≠ 0 ∨
        PowerFits c.mantissa.toInt (e.toInt - c.exponent.toInt - inst.priceExponent.toInt)) ∧
    (QtyExact inst c m e field ↔
      m.toInt ≠ 0 ∨ PowerFits 1 (e.toInt + c.exponent.toInt - inst.qtyExponent.toInt)) :=
  ⟨priceExact_iff hc m e field, qtyExact_iff hc m e field⟩

/-- Three hundredths of the underlying. -/
def threeHundredths : ContractSize := ⟨3, -2, by decide⟩

theorem contract_exact_three :
    PriceExact ⟨7, -2, 0, some threeHundredths⟩ threeHundredths 6 (-2) "price" ∧
      QtyExact ⟨7, -2, 0, some threeHundredths⟩ threeHundredths 6 (-2) "qty" :=
  ⟨(contract_exact rfl 6 (-2) "price").1.mpr (.inl (by decide)),
    (contract_exact rfl 6 (-2) "qty").2.mpr (.inl (by decide))⟩

/-- A zero that is stated at a coarse exponent is refused. -/
theorem zero_refused :
    let inst : Instrument := ⟨7, -20, -20, some threeHundredths⟩
    priceFor inst (.fixed 0 20) "price" = .error (.scale "price" .overflow) ∧
      ¬PriceExact inst threeHundredths 0 20 "price" ∧
      qtyFor inst (.fixed 0 21) "qty" = .error (.scale "qty" .overflow) ∧
      ¬QtyExact inst threeHundredths 0 21 "qty" := by
  intro inst
  have hprice : priceFor inst (.fixed 0 20) "price" = .error (.scale "price" .overflow) := by
    decide +kernel
  have hqty : qtyFor inst (.fixed 0 21) "qty" = .error (.scale "qty" .overflow) := by
    decide +kernel
  have hzero (p : ℤ) : scaled (0 : Int64).toInt p = 0 := scaled_zero p
  refine ⟨hprice, fun h ↦ ?_, hqty, fun h ↦ ?_⟩
  · have hok := (h 0).mpr ⟨by decide, by rw [hzero, scaled_zero, zero_mul]⟩
    rw [hprice] at hok
    cases hok
  · have hok := (h 0).mpr ⟨by decide, by rw [hzero], by rw [hzero, scaled_zero, zero_mul]⟩
    rw [hqty] at hok
    cases hok

end EdgeMulticast.Lowering
