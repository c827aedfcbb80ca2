import EdgeMulticast.Lowering.Contract

/-!
# Numbers that a contract leaves as they are

A lowered number is in the range of its field and is zero only where zero is stated.  It is the
number that a plain reading at the exponent gives, exactly where the instrument is not quoted per
contract, or its contract is one, or the number is zero; a quantity has two corners besides.
-/

namespace EdgeMulticast.Lowering

open EdgeMulticast.Lib

namespace Scalar

/-- The number that is stated is zero, at whatever exponent. -/
def isZero : Scalar → Bool
  | .text bytes => bytes.all fun b ↦ !isDigit b || b == 48
  | .fixed mantissa _ => mantissa == 0

/-- The text begins with a sign. -/
def isSigned : Scalar → Bool
  | .text bytes => bytes.head? == some 0x2d
  | .fixed _ _ => false

/-- A mantissa that stays in the range of an `i64` when it gains the digits of a finer exponent. -/
def fitsI64 : Scalar → Int8 → Bool
  | .text _, _ => true
  | .fixed mantissa source, target =>
      decide (mantissa.toInt * 10 ^ (source.toInt - target.toInt).toNat ≤ I64_MAX)

end Scalar

/-- One contract is one of the underlying. -/
def ContractSize.isOne (c : ContractSize) : Bool :=
  decide (c.exponent.toInt ≤ 0 ∧ c.mantissa.toInt = 10 ^ (-c.exponent.toInt).toNat)

namespace Instrument

/-- The price that is published is the price that is stated. -/
def keepsPrice (inst : Instrument) (px : Scalar) : Bool :=
  inst.quotedPerContract.all fun c ↦ px.isZero || c.isOne

/-- The quantity that is published is the quantity that is stated.  The contract's arithmetic reads
a signed zero and a quantity past an `i64`, which a plain reading refuses. -/
def keepsQty (inst : Instrument) (qty : Scalar) : Bool :=
  inst.quotedPerContract.all fun c ↦
    !qty.isSigned && (qty.isZero || c.isOne && qty.fitsI64 inst.qtyExponent)

end Instrument

/-! ## What a reading comes to -/

theorem parse_eq_ok {reader : Reader} {text : List Byte} {e : Int8} {r : ℤ}
    (h : reader.parse text e = .ok r) :
    (reader.min ≤ r ∧ r ≤ reader.max) ∧ ∃ n, reader.Spells text n ∧ n.value = scaled r e.toInt := by
  by_cases hgrammar : ∃ n, reader.Spells text n
  · obtain ⟨n, hn⟩ := hgrammar
    rcases parse_cases hn e with ⟨_, _, _, hparse⟩ | ⟨_, hrestates⟩
    · rw [hparse] at h
      cases h
    · rw [h] at hrestates
      cases hrestates with
      | ok fits states => exact ⟨fits, n, hn, states⟩
  · rw [parse_malformed hgrammar] at h
    cases h

theorem rescaleSigned_eq_ok_iff (m : Int64) (source target : Int8) (r : ℤ) :
    rescaleSigned m.toInt source target = .ok r ↔
      (I64_MIN ≤ r ∧ r ≤ I64_MAX) ∧ scaled m.toInt source.toInt = scaled r target.toInt := by
  by_cases hfine : m.toInt = 0 ∨ -18 ≤ source.toInt - target.toInt
  · have hrestates := rescaleSigned_restates (toInt_bounds m) hfine
    constructor
    · intro h
      rw [h] at hrestates
      cases hrestates with
      | ok fits states => exact ⟨fits, states⟩
    · rintro ⟨fits, states⟩
      exact hrestates.unique (.ok fits states)
  · obtain ⟨hne, hfine⟩ := not_or.mp hfine
    rw [rescaleSigned_of_finer hne (not_le.mp hfine)]
    constructor
    · intro h
      cases h
    · rintro ⟨_, states⟩
      exact absurd ⟨r, states⟩ (not_stated_of_finer hne (toInt_bounds m) (not_le.mp hfine))

theorem isZero_text {n : Numeral} : (Scalar.text n.text).isZero = true ↔ n.value = 0 := by
  have hsign : ∀ b ∈ (if n.negative then [0x2d] else [] : List Byte), isDigit b = false := by
    intro b hb
    split at hb
    · rw [List.mem_singleton.mp hb]
      rfl
    · cases hb
  have hdot : ∀ b ∈ (if n.fraction = [] then [] else 0x2e :: n.fraction),
      b ∈ n.fraction ∨ isDigit b = false := by
    intro b hb
    split at hb
    · cases hb
    · rcases List.mem_cons.mp hb with rfl | hmem
      · exact .inr rfl
      · exact .inl hmem
  have hfraction : ∀ b ∈ n.fraction, b ∈ (if n.fraction = [] then [] else 0x2e :: n.fraction) := by
    intro b hb
    rw [if_neg (List.ne_nil_of_mem hb)]
    exact List.mem_cons_of_mem _ hb
  rw [n.value_eq_zero_iff_digits, Scalar.isZero, List.all_eq_true]
  constructor
  · intro h b hb
    have hmem : b ∈ n.text := by
      rw [Numeral.text, List.mem_append, List.mem_append]
      exact .inr ((List.mem_append.mp hb).imp_right (hfraction b))
    have hb' := h b hmem
    rw [n.isDigit_of_mem b hb] at hb'
    exact beq_iff_eq.mp hb'
  · intro h b hb
    rw [Numeral.text, List.mem_append, List.mem_append] at hb
    have hzero (hdigit : b ∈ n.digits) : (!isDigit b || b == 48) = true := by
      rw [h b hdigit]
      rfl
    have hother (hnot : isDigit b = false) : (!isDigit b || b == 48) = true := by
      rw [hnot]
      rfl
    rcases hb with hb | hb | hb
    · exact hother (hsign b hb)
    · exact hzero (List.mem_append.mpr (.inl hb))
    · exact (hdot b hb).elim (fun hb ↦ hzero (List.mem_append.mpr (.inr hb))) hother

theorem isOne_iff (c : ContractSize) :
    c.isOne = true ↔ scaled c.mantissa.toInt c.exponent.toInt = scaled 1 0 := by
  rw [ContractSize.isOne, decide_eq_true_eq]
  rcases le_total c.exponent.toInt 0 with hle | hge
  · rw [scaled_eq_iff_of_ge hle, zero_sub, one_mul]
    exact and_iff_right hle
  · rw [scaled_eq_iff_of_le hge, sub_zero]
    constructor
    · rintro ⟨hle, hm⟩
      rw [hm, le_antisymm hle hge]
      rfl
    · intro hm
      have hdvd : (10 : ℤ) ^ c.exponent.toInt.toNat ∣ 1 := ⟨_, by rw [mul_comm]; exact hm.symm⟩
      have hzero : c.exponent.toInt = 0 := by
        by_contra hne
        have hten : (10 : ℤ) ∣ 1 := dvd_trans (dvd_pow_self 10 (by omega)) hdvd
        exact absurd hten (by decide)
      rw [hzero] at hm ⊢
      exact ⟨le_rfl, (mul_one _).symm.trans hm⟩

/-! ## The integer behind a number -/

variable {inst : Instrument} {c : ContractSize} {s : Scalar} {field : String} {r : ℤ}

theorem fixedParts_text {bytes : List Byte} {target : Int8} {m : ℤ} {e : Int8}
    (h : fixedParts (.text bytes) target field = .ok (m, e)) :
    parseSigned bytes target = .ok m ∧ target = e := by
  rw [fixedParts] at h
  cases hp : parseSigned bytes target with
  | error err =>
      rw [hp] at h
      cases h
  | ok m' =>
      rw [hp] at h
      cases h
      exact ⟨rfl, rfl⟩

/-- The integer and the exponent that a contract is applied to state the scalar, and a plain
reading of the scalar is a restating of them. -/
theorem fixedParts_eq_ok {target : Int8} {m : ℤ} {e : Int8}
    (h : fixedParts s target field = .ok (m, e)) :
    (I64_MIN ≤ m ∧ m ≤ I64_MAX) ∧ (s.isZero = true ↔ m = 0) ∧
      ∀ r, priceAt s target = .ok r ↔
        (I64_MIN ≤ r ∧ r ≤ I64_MAX) ∧ scaled m e.toInt = scaled r target.toInt := by
  cases s with
  | fixed mantissa source =>
      cases h
      refine ⟨toInt_bounds mantissa, ?_, rescaleSigned_eq_ok_iff mantissa _ target⟩
      rw [Scalar.isZero, beq_iff_eq, ← Int64.toInt_inj]
      rfl
  | text bytes =>
      obtain ⟨hparse, rfl⟩ := fixedParts_text h
      obtain ⟨fits, n, ⟨rfl, _⟩, states⟩ := @parse_eq_ok .signed bytes target m hparse
      refine ⟨fits, ?_, fun r ↦ ?_⟩
      · rw [isZero_text, states, scaled_eq_zero_iff]
      · rw [priceAt, hparse, scaled_inj]
        constructor
        · rintro ⟨⟩
          exact ⟨fits, rfl⟩
        · rintro ⟨_, rfl⟩
          rfl

theorem exists_fixedParts {target : Int8} (h : priceAt s target = .ok r) (field : String) :
    ∃ m e, fixedParts s target field = .ok (m, e) := by
  cases s with
  | fixed mantissa source => exact ⟨_, _, rfl⟩
  | text bytes =>
      change parseSigned bytes target = .ok r at h
      refine ⟨r, target, ?_⟩
      rw [fixedParts, h]
      rfl

theorem priceAt_eq_ok {target : Int8} (h : priceAt s target = .ok r) :
    (I64_MIN ≤ r ∧ r ≤ I64_MAX) ∧ (r = 0 ↔ s.isZero = true) := by
  obtain ⟨m, e, hparts⟩ := exists_fixedParts h ""
  obtain ⟨_, hzero, hprice⟩ := fixedParts_eq_ok hparts
  obtain ⟨fits, states⟩ := (hprice r).mp h
  refine ⟨fits, ?_⟩
  rw [hzero, ← scaled_eq_zero_iff (p := target.toInt), ← states, scaled_eq_zero_iff]

/-! ## Prices -/

theorem priceFor_plain (hc : inst.quotedPerContract = none) :
    priceFor inst s field = .ok r ↔ priceAt s inst.priceExponent = .ok r := by
  rw [priceFor, hc]
  exact mapError_eq_ok

theorem priceFor_scaled (hc : inst.quotedPerContract = some c) (h : priceFor inst s field = .ok r) :
    ∃ m e, fixedParts s inst.priceExponent field = .ok (m, e) ∧ (I64_MIN ≤ r ∧ r ≤ I64_MAX) ∧
      scaled m e.toInt =
        scaled r inst.priceExponent.toInt * scaled c.mantissa.toInt c.exponent.toInt := by
  rw [priceFor, hc] at h
  obtain ⟨⟨m, e⟩, hparts, h⟩ := bind_eq_ok.mp h
  obtain ⟨raw, hexact, h⟩ := bind_eq_ok.mp h
  obtain ⟨hfits, rfl⟩ := checked_eq_ok_iff.mp h
  have hdivides := ((exact_eq_ok_iff c.positive _ field raw).mp hexact).2
  rw [divides_iff (p := e.toInt) (q := inst.priceExponent.toInt + c.exponent.toInt) (by omega),
    ← scaled_mul] at hdivides
  exact ⟨m, e, hparts, hfits, hdivides.symm⟩

theorem contract_ne_zero (c : ContractSize) : scaled c.mantissa.toInt c.exponent.toInt ≠ 0 :=
  fun h ↦ c.positive.ne' (scaled_eq_zero_iff.mp h)

/-- A number times a contract is the number, where the contract is one or the number is zero. -/
theorem mul_contract_eq_iff (c : ContractSize) (n p : ℤ) :
    scaled n p * scaled c.mantissa.toInt c.exponent.toInt = scaled n p ↔
      n = 0 ∨ c.isOne = true := by
  rw [mul_right_eq_self₀, scaled_eq_zero_iff, isOne_iff, or_comm, scaled_one]

/-- **A published price** is in the range of its field, is zero where zero is stated, and is the
price that a plain reading gives exactly where `keepsPrice` says so. -/
theorem priceFor_spec (h : priceFor inst s field = .ok r) :
    (I64_MIN ≤ r ∧ r ≤ I64_MAX) ∧ (r = 0 ↔ s.isZero = true) ∧
      (priceAt s inst.priceExponent = .ok r ↔ inst.keepsPrice s = true) := by
  rw [Instrument.keepsPrice]
  cases hc : inst.quotedPerContract with
  | none =>
      have hplain := (priceFor_plain hc).mp h
      obtain ⟨fits, hzero⟩ := priceAt_eq_ok hplain
      exact ⟨fits, hzero, iff_of_true hplain rfl⟩
  | some c =>
      obtain ⟨m, e, hparts, fits, hvalue⟩ := priceFor_scaled hc h
      obtain ⟨_, hzero, hprice⟩ := fixedParts_eq_ok hparts
      have hr : r = 0 ↔ s.isZero = true := by
        rw [hzero, ← scaled_eq_zero_iff (n := m) (p := e.toInt), hvalue, mul_eq_zero,
          scaled_eq_zero_iff, or_iff_left (contract_ne_zero c)]
      refine ⟨fits, hr, ?_⟩
      rw [hprice, hvalue, mul_contract_eq_iff, and_iff_right fits, hr, Option.all_some,
        Bool.or_eq_true]

/-! ## Quantities -/

theorem asQty_eq_ok_iff {x : Except ScaleError ℤ} :
    asQty x = .ok r ↔ x = .ok r ∧ 0 ≤ r ∧ r ≤ U64_MAX := by
  change x >>= _ = _ ↔ _
  rw [bind_eq_ok]
  constructor
  · rintro ⟨raw, rfl, h⟩
    rw [checked] at h
    split at h
    next => cases h
    next raw' hraw =>
      split at hraw
      next hfits =>
        cases hraw
        cases h
        exact ⟨rfl, hfits⟩
      next => cases hraw
  · rintro ⟨rfl, hfits⟩
    refine ⟨r, rfl, ?_⟩
    rw [checked, if_pos hfits]

/-- A text without a sign is one number to both readers, where both have room for it. -/
theorem parseUnsigned_eq_ok {bytes : List Byte} {target : Int8} {m : ℤ}
    (hsign : bytes.head? ≠ some 0x2d) (h : parseSigned bytes target = .ok m) :
    parseUnsigned bytes target = .ok m := by
  rw [parseSigned_eq, if_neg hsign, decide_eq_false hsign] at h
  obtain ⟨parts, hparts, h⟩ := bind_eq_ok.mp h
  obtain ⟨magnitude, hmagnitude, h⟩ := bind_eq_ok.mp h
  have hm : magnitude = m := by
    rw [toSigned, if_neg Bool.false_ne_true] at h
    split at h
    next => exact Except.ok.inj h
    next => cases h
  rw [parseUnsigned, if_neg hsign, hparts]
  exact hmagnitude.trans (congrArg Except.ok hm)

theorem qtyAt_eq_ok_iff {target : Int8} {m : ℤ} {e : Int8}
    (h : fixedParts s target field = .ok (m, e)) (hm : 0 ≤ m) :
    qtyAt s target = .ok r ↔
      s.isSigned = false ∧ (0 ≤ r ∧ r ≤ I64_MAX) ∧ scaled m e.toInt = scaled r target.toInt := by
  cases s with
  | fixed mantissa source =>
      cases h
      rw [qtyAt_fixed (not_lt.mpr hm), asQty_eq_ok_iff, rescaleSigned_eq_ok_iff]
      constructor
      · rintro ⟨⟨⟨_, hhigh⟩, states⟩, hlow, _⟩
        exact ⟨rfl, ⟨hlow, hhigh⟩, states⟩
      · rintro ⟨_, ⟨hlow, hhigh⟩, states⟩
        exact ⟨⟨⟨hlow.trans' (by decide), hhigh⟩, states⟩, hlow, hhigh.trans (by decide)⟩
  | text bytes =>
      obtain ⟨⟨_, hhigh⟩, _, _⟩ := fixedParts_eq_ok h
      obtain ⟨hparse, rfl⟩ := fixedParts_text h
      by_cases hsign : bytes.head? = some 0x2d
      · refine iff_of_false (fun hqty ↦ ?_) fun h ↦ ?_
        · rw [qtyAt, parseUnsigned, if_pos hsign] at hqty
          cases hqty
        · rw [Scalar.isSigned, beq_eq_false_iff_ne] at h
          exact h.1 hsign
      · rw [qtyAt, parseUnsigned_eq_ok hsign hparse, scaled_inj, Scalar.isSigned,
          beq_eq_false_iff_ne]
        constructor
        · rintro ⟨⟩
          exact ⟨hsign, ⟨hm, hhigh⟩, rfl⟩
        · rintro ⟨_, _, rfl⟩
          rfl

theorem qtyAt_eq_ok {target : Int8} (h : qtyAt s target = .ok r) :
    (0 ≤ r ∧ r ≤ U64_MAX) ∧ (r = 0 ↔ s.isZero = true) := by
  cases s with
  | fixed mantissa source =>
      have hm : ¬mantissa.toInt < 0 := fun hm ↦ by
        rw [qtyAt, if_pos hm] at h
        cases h
      rw [qtyAt_fixed hm, asQty_eq_ok_iff] at h
      exact ⟨h.2, (@priceAt_eq_ok (.fixed mantissa source) r target h.1).2⟩
  | text bytes =>
      obtain ⟨fits, n, ⟨rfl, _⟩, states⟩ := @parse_eq_ok .unsigned bytes target r h
      rw [isZero_text, states, scaled_eq_zero_iff]
      exact ⟨fits, Iff.rfl⟩

theorem qtyFor_plain (hc : inst.quotedPerContract = none) :
    qtyFor inst s field = .ok r ↔ qtyAt s inst.qtyExponent = .ok r := by
  rw [qtyFor, hc]
  exact mapError_eq_ok

theorem qtyFor_scaled (hc : inst.quotedPerContract = some c) (h : qtyFor inst s field = .ok r) :
    ∃ m e, fixedParts s inst.qtyExponent field = .ok (m, e) ∧ 0 ≤ m ∧ (0 ≤ r ∧ r ≤ U64_MAX) ∧
      scaled r inst.qtyExponent.toInt =
        scaled m e.toInt * scaled c.mantissa.toInt c.exponent.toInt := by
  rw [qtyFor, hc] at h
  obtain ⟨⟨m, e⟩, hparts, h⟩ := bind_eq_ok.mp h
  dsimp only at h
  split at h
  next => cases h
  next hm =>
    split at h
    next => cases h
    next product hproduct =>
      rw [checked] at hproduct
      split at hproduct
      next =>
        cases hproduct
        obtain ⟨raw, hexact, h⟩ := bind_eq_ok.mp h
        obtain ⟨hfits, rfl⟩ := checked_eq_ok_iff.mp h
        have hdivides := ((exact_eq_ok_iff one_pos _ field raw).mp hexact).2
        rw [divides_iff (p := e.toInt + c.exponent.toInt) (q := inst.qtyExponent.toInt) (by omega),
          ← scaled_mul, mul_one] at hdivides
        exact ⟨m, e, hparts, not_lt.mp hm, hfits, hdivides⟩
      next => cases hproduct

/-- The digits that a mantissa gains are what `fitsI64` looks at. -/
theorem fitsI64_iff {target : Int8} {m : ℤ} {e : Int8}
    (h : fixedParts s target field = .ok (m, e)) (hm : 0 ≤ m)
    (hvalue : scaled m e.toInt = scaled r target.toInt) :
    s.fitsI64 target = true ↔ r ≤ I64_MAX := by
  obtain ⟨⟨_, hhigh⟩, _, _⟩ := fixedParts_eq_ok h
  cases s with
  | text bytes =>
      obtain ⟨_, rfl⟩ := fixedParts_text h
      rw [← scaled_inj.mp hvalue]
      exact iff_of_true rfl hhigh
  | fixed mantissa source =>
      cases h
      rw [Scalar.fitsI64, decide_eq_true_eq]
      rcases le_total target.toInt e.toInt with hle | hge
      · rw [(scaled_eq_iff_of_le hle).mp hvalue]
      · have hr := (scaled_eq_iff_of_ge hge).mp hvalue
        rw [show (e.toInt - target.toInt).toNat = 0 by omega, pow_zero, mul_one]
        exact iff_of_true hhigh (within_of_mul_pow hr (toInt_bounds mantissa)).2

/-- **A published quantity** is in the range of its field, is zero where zero is stated, and is the
quantity that a plain reading gives exactly where `keepsQty` says so. -/
theorem qtyFor_spec (h : qtyFor inst s field = .ok r) :
    (0 ≤ r ∧ r ≤ U64_MAX) ∧ (r = 0 ↔ s.isZero = true) ∧
      (qtyAt s inst.qtyExponent = .ok r ↔ inst.keepsQty s = true) := by
  rw [Instrument.keepsQty]
  cases hc : inst.quotedPerContract with
  | none =>
      have hplain := (qtyFor_plain hc).mp h
      obtain ⟨fits, hzero⟩ := qtyAt_eq_ok hplain
      exact ⟨fits, hzero, iff_of_true hplain rfl⟩
  | some c =>
      obtain ⟨m, e, hparts, hm, fits, hvalue⟩ := qtyFor_scaled hc h
      obtain ⟨_, hzero, _⟩ := fixedParts_eq_ok hparts
      have hr : r = 0 ↔ m = 0 := by
        rw [← scaled_eq_zero_iff (p := inst.qtyExponent.toInt), hvalue, mul_eq_zero,
          scaled_eq_zero_iff, or_iff_left (contract_ne_zero c)]
      have hsame : scaled m e.toInt = scaled r inst.qtyExponent.toInt ↔
          m = 0 ∨ c.isOne = true := by
        rw [hvalue, eq_comm, mul_contract_eq_iff]
      refine ⟨fits, hr.trans hzero.symm, ?_⟩
      rw [qtyAt_eq_ok_iff hparts hm, Option.all_some, Bool.and_eq_true, Bool.not_eq_true',
        Bool.or_eq_true, Bool.and_eq_true, hzero]
      refine and_congr_right fun _ ↦ ?_
      rw [hsame]
      constructor
      · rintro ⟨⟨_, hhigh⟩, hm0 | hone⟩
        · exact .inl hm0
        · exact .inr ⟨hone, (fitsI64_iff hparts hm (hsame.mpr (.inr hone))).mpr hhigh⟩
      · rintro (hm0 | ⟨hone, hfits⟩)
        · rw [hr.mpr hm0]
          exact ⟨⟨le_rfl, by decide⟩, .inl hm0⟩
        · exact ⟨⟨fits.1, (fitsI64_iff hparts hm (hsame.mpr (.inr hone))).mp hfits⟩, .inr hone⟩

end EdgeMulticast.Lowering

/-!
## The number that is stated

A venue states a number as decimal text or as a mantissa and an exponent.  `Scalar.Is` is the
number, whichever way it is stated, and what each reading returns is that number.
-/

namespace EdgeMulticast.Lowering

open EdgeMulticast.Lib

namespace Scalar

/-- The number that a venue states, in the grammar of signed decimals or as a mantissa. -/
inductive Is : Scalar → ℚ → Prop
  | text (n : Numeral) : Is (.text n.text) n.value
  | fixed (mantissa : Int64) (exponent : Int8) :
      Is (.fixed mantissa exponent) (scaled mantissa.toInt exponent.toInt)

end Scalar

variable {s : Scalar} {field : String} {r : ℤ} {v : ℚ} {target : Int8}

theorem is_of_parse {reader : Reader} {text : List Byte} {target : Int8}
    (h : reader.parse text target = .ok r) : (Scalar.text text).Is (scaled r target.toInt) := by
  obtain ⟨_, n, ⟨rfl, _⟩, hvalue⟩ := parse_eq_ok h
  exact hvalue ▸ .text n

theorem is_of_priceAt {target : Int8} (h : priceAt s target = .ok r) :
    s.Is (scaled r target.toInt) := by
  cases s with
  | text text => exact is_of_parse (show Reader.signed.parse text target = .ok r from h)
  | fixed mantissa source =>
      rw [← ((rescaleSigned_eq_ok_iff mantissa source target r).mp h).2]
      exact .fixed mantissa source

theorem is_of_qtyAt {target : Int8} (h : qtyAt s target = .ok r) :
    s.Is (scaled r target.toInt) := by
  cases s with
  | text text => exact is_of_parse (show Reader.unsigned.parse text target = .ok r from h)
  | fixed mantissa source =>
      have hm : ¬mantissa.toInt < 0 := by
        intro hm
        rw [qtyAt, if_pos hm] at h
        cases h
      rw [qtyAt_fixed hm, asQty_eq_ok_iff] at h
      exact is_of_priceAt (s := .fixed mantissa source) h.1

theorem is_of_fixedParts {target e : Int8} {m : ℤ}
    (h : fixedParts s target field = .ok (m, e)) : s.Is (scaled m e.toInt) := by
  cases s with
  | text text =>
      obtain ⟨hparse, rfl⟩ := fixedParts_text h
      exact is_of_parse (show Reader.signed.parse text target = .ok m from hparse)
  | fixed mantissa exponent =>
      cases h
      exact .fixed mantissa _

/-- A number that is an integer at an exponent is read there, when the integer fits an `i64`. -/
theorem priceAt_eq_ok_iff (h : s.Is v) (hv : v = scaled r target.toInt) {raw : ℤ} :
    priceAt s target = .ok raw ↔ raw = r ∧ I64_MIN ≤ r ∧ r ≤ I64_MAX := by
  have hsame : (I64_MIN ≤ raw ∧ raw ≤ I64_MAX) ∧ v = scaled raw target.toInt ↔
      raw = r ∧ I64_MIN ≤ r ∧ r ≤ I64_MAX := by
    rw [hv, scaled_inj]
    constructor
    · rintro ⟨hfits, rfl⟩
      exact ⟨rfl, hfits⟩
    · rintro ⟨rfl, hfits⟩
      exact ⟨hfits, rfl⟩
  rw [← hsame]
  cases h with
  | fixed mantissa source => exact rescaleSigned_eq_ok_iff mantissa source target raw
  | text n =>
      rcases parse_cases (spells_signed n) target with ⟨p, hlast, hbelow, -⟩ | ⟨-, hrestates⟩
      · exact absurd ((hlast.exists_scaled_iff target.toInt).mp ⟨r, hv⟩) (not_le.mpr hbelow)
      · constructor
        · intro hok
          rw [show Reader.signed.parse n.text target = .ok raw from hok] at hrestates
          cases hrestates with
          | ok fits states => exact ⟨fits, states⟩
        · exact fun ⟨fits, states⟩ ↦ hrestates.unique (.ok fits states)

end EdgeMulticast.Lowering
