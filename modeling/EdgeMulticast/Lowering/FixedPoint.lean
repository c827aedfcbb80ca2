import EdgeMulticast.Lib.Except
import EdgeMulticast.Lib.Numeral
import EdgeMulticast.Lowering.Scale

/-!
# Decimal text is read exactly

What `parse_signed` and `parse_unsigned` come to, for every text and every exponent.  The grammar
and the value of a text are those of `Lib.Numeral`; `Restates` says what restating a rational at an
exponent has to come to, whichever way the rational is stated.

The one thing that is not exact is how far the precision of a text reaches past the exponent: the
distance is cast to a `u32`, and a text may be longer than that.
-/

namespace EdgeMulticast.Lowering

open EdgeMulticast.Lib

/-- What a rational comes to when it is restated at an exponent, in a range of integers. -/
inductive Restates (min max : ℤ) (v : ℚ) (exponent : ℤ) : Except ScaleError ℤ → Prop
  | ok {r : ℤ} (fits : min ≤ r ∧ r ≤ max) (states : v = scaled r exponent) :
      Restates min max v exponent (.ok r)
  | tooPrecise {p : ℤ} (last : LastPlace v p) (below : p < exponent) :
      Restates min max v exponent (.error (.tooPrecise (exponent - p).toNat))
  | overflow {r : ℤ} (outside : ¬(min ≤ r ∧ r ≤ max)) (states : v = scaled r exponent) :
      Restates min max v exponent (.error .overflow)

namespace Restates

variable {min max : ℤ} {v : ℚ} {e : ℤ} {x y : Except ScaleError ℤ}

theorem unique (h : Restates min max v e x) (h' : Restates min max v e y) : x = y := by
  have habsurd {r p : ℤ} (states : v = scaled r e) (last : LastPlace v p) (below : p < e) : False :=
    absurd ((last.exists_scaled_iff e).mp ⟨r, states⟩) (not_le.mpr below)
  cases h with
  | ok fits states =>
      cases h' with
      | ok fits' states' => rw [scaled_inj.mp (states.symm.trans states')]
      | tooPrecise last below => exact (habsurd states last below).elim
      | overflow outside states' =>
          rw [scaled_inj.mp (states.symm.trans states')] at fits
          exact absurd fits outside
  | tooPrecise last below =>
      cases h' with
      | ok fits states => exact (habsurd states last below).elim
      | tooPrecise last' below' => rw [last.unique last']
      | overflow outside states => exact (habsurd states last below).elim
  | overflow outside states =>
      cases h' with
      | ok fits states' =>
          rw [scaled_inj.mp (states'.symm.trans states)] at fits
          exact absurd fits outside
      | tooPrecise last below => exact (habsurd states last below).elim
      | overflow outside' states' => rfl

end Restates

/-! ## The grammar -/

/-- The digits of a numeral, with the dot between them. -/
def dotted (whole fraction : List Byte) : List Byte :=
  whole ++ if fraction = [] then [] else 0x2e :: fraction

theorem take_dotted (whole fraction : List Byte) :
    (whole ++ 0x2e :: fraction).take whole.length = whole := by
  rw [List.take_append_of_le_length le_rfl, List.take_length]

theorem drop_dotted (whole fraction : List Byte) :
    (whole ++ 0x2e :: fraction).drop (whole.length + 1) = fraction := by
  rw [List.drop_append, List.drop_of_length_le (Nat.le_succ _), Nat.add_sub_cancel_left]
  rfl

theorem dotPos_digits {bs : List Byte} (hbs : ∀ b ∈ bs, isDigit b) (rest : List Byte) (i : ℕ)
    (dot : Option ℕ) : dotPos (bs ++ rest) i dot = dotPos rest (i + bs.length) dot := by
  induction bs generalizing i with
  | nil => rfl
  | cons b bs ih =>
      obtain ⟨hb, hbs⟩ := List.forall_mem_cons.mp hbs
      rw [List.cons_append, dotPos, if_pos hb, ih hbs, List.length_cons, Nat.add_assoc,
        Nat.add_comm 1]

/-- A dot that is found stands between digits. -/
theorem dotPos_eq_ok {bs : List Byte} {i : ℕ} {dot found : Option ℕ}
    (h : dotPos bs i dot = .ok found) :
    (found = dot ∧ ∀ b ∈ bs, isDigit b) ∨
      (dot = none ∧ ∃ whole fraction, bs = whole ++ 0x2e :: fraction ∧
        (∀ b ∈ whole ++ fraction, isDigit b) ∧ found = some (i + whole.length)) := by
  induction bs generalizing i dot with
  | nil => exact .inl ⟨(Except.ok.inj h).symm, fun _ hb ↦ absurd hb List.not_mem_nil⟩
  | cons b bs ih =>
      rw [dotPos] at h
      split at h
      next hb =>
        rcases ih h with ⟨hfound, hbs⟩ | ⟨hdot, whole, fraction, rfl, hdigits, hfound⟩
        · exact .inl ⟨hfound, List.forall_mem_cons.mpr ⟨hb, hbs⟩⟩
        · refine .inr ⟨hdot, b :: whole, fraction, rfl, List.forall_mem_cons.mpr ⟨hb, hdigits⟩, ?_⟩
          rw [hfound, List.length_cons, Nat.add_assoc, Nat.add_comm 1]
      next =>
        split at h
        next hb =>
          obtain ⟨rfl, rfl⟩ := hb
          rcases ih h with ⟨hfound, hbs⟩ | ⟨hdot, _⟩
          · exact .inr ⟨rfl, [], bs, rfl, hbs, hfound⟩
          · cases hdot
        next => cases h

theorem dotPos_error {bs : List Byte} {i : ℕ} {dot : Option ℕ} {e : ScaleError}
    (h : dotPos bs i dot = .error e) : e = .malformed := by
  induction bs generalizing i dot with
  | nil => cases h
  | cons b bs ih =>
      rw [dotPos] at h
      split at h
      next => exact ih h
      next =>
        split at h
        next => exact ih h
        next => exact (Except.error.inj h).symm

theorem splitDigits_error {bs : List Byte} {e : ScaleError} (h : splitDigits bs = .error e) :
    e = .malformed := by
  rw [splitDigits] at h
  split at h
  next => exact (Except.error.inj h).symm
  next =>
    split at h
    next hdot => exact Except.error.inj h ▸ dotPos_error hdot
    next => cases h
    next =>
      split at h
      next => exact (Except.error.inj h).symm
      next => cases h

theorem splitDigits_dotted {whole fraction : List Byte} (hne : whole ≠ [])
    (hdigits : ∀ b ∈ whole ++ fraction, isDigit b) :
    splitDigits (dotted whole fraction) = .ok (whole, fraction) := by
  obtain ⟨hwhole, hfraction⟩ := List.forall_mem_append.mp hdigits
  have hne' : dotted whole fraction ≠ [] := fun h ↦ hne (List.append_eq_nil_iff.mp h).1
  have hpos : whole.length ≠ 0 := fun h ↦ hne (List.length_eq_zero_iff.mp h)
  rw [splitDigits, if_neg hne', dotted, dotPos_digits hwhole, Nat.zero_add]
  cases fraction with
  | nil =>
      rw [if_pos rfl, List.append_nil]
      rfl
  | cons b bs =>
      have hdot : dotPos (0x2e :: b :: bs) whole.length none = .ok (some whole.length) := by
        have hrest := dotPos_digits hfraction [] (whole.length + 1) (some whole.length)
        rw [List.append_nil] at hrest
        exact hrest
      have hlen : (whole ++ 0x2e :: b :: bs).length = whole.length + (bs.length + 2) := by
        rw [List.length_append, List.length_cons, List.length_cons]
      have hin : ¬(whole.length = 0 ∨ whole.length = (whole ++ 0x2e :: b :: bs).length - 1) := by
        rw [hlen]
        omega
      rw [if_neg (List.cons_ne_nil b bs), hdot]
      dsimp only
      rw [if_neg hin, take_dotted, drop_dotted]

theorem splitDigits_eq_ok {bs whole fraction : List Byte}
    (h : splitDigits bs = .ok (whole, fraction)) :
    bs = dotted whole fraction ∧ whole ≠ [] ∧ ∀ b ∈ whole ++ fraction, isDigit b := by
  rw [splitDigits] at h
  split at h
  next => cases h
  next hne =>
    split at h
    next => cases h
    next hdot =>
      cases h
      rcases dotPos_eq_ok hdot with ⟨_, hdigits⟩ | ⟨_, _, _, _, _, hfound⟩
      · refine ⟨(List.append_nil bs).symm, hne, ?_⟩
        rwa [List.append_nil]
      · cases hfound
    next pos hdot =>
      rcases dotPos_eq_ok hdot with ⟨hfound, _⟩ | ⟨_, whole', fraction', rfl, hdigits, hfound⟩
      · cases hfound
      · rw [Nat.zero_add] at hfound
        cases hfound
        split at h
        next => cases h
        next hin =>
          rw [take_dotted, drop_dotted] at h
          cases h
          rw [List.length_append, List.length_cons] at hin
          have hne' : fraction ≠ [] := by
            rintro rfl
            rw [List.length_nil] at hin
            omega
          refine ⟨?_, ?_, hdigits⟩
          · rw [dotted, if_neg hne']
          · rintro rfl
            exact hin (.inl rfl)

/-! ## The magnitude -/

/-- A number in the range of a `u64`, or an overflow. -/
def inU64 (r : ℕ) : Except ScaleError ℤ :=
  if (r : ℤ) ≤ U64_MAX then .ok r else .error .overflow

/-- One digit more, where a `u64` holds the number at both steps. -/
def takeDigit (value : ℤ) (b : Byte) : Except ScaleError ℤ :=
  match checked 0 U64_MAX (value * 10) with
  | none => .error .overflow
  | some value =>
      match checked 0 U64_MAX (value + (b.toNat - 48)) with
      | none => .error .overflow
      | some value => .ok value

theorem takeDigit_eq (v : ℕ) {b : Byte} (hb : isDigit b) :
    takeDigit v b = inU64 (v * 10 + (b.toNat - 48)) := by
  rw [isDigit, Bool.and_eq_true, decide_eq_true_eq, decide_eq_true_eq, UInt8.le_iff_toNat_le] at hb
  have hlow : 48 ≤ b.toNat := hb.1
  have hsum : (v : ℤ) * 10 + (b.toNat - 48) = (v * 10 + (b.toNat - 48) : ℕ) := by omega
  have hten : (v : ℤ) * 10 ≤ (v * 10 + (b.toNat - 48) : ℕ) := by omega
  rw [takeDigit, checked, inU64]
  by_cases hfits : ((v * 10 + (b.toNat - 48) : ℕ) : ℤ) ≤ U64_MAX
  · rw [if_pos ⟨by omega, hten.trans hfits⟩, if_pos hfits]
    dsimp only
    rw [checked, hsum, if_pos ⟨by omega, hfits⟩]
  · rw [if_neg hfits]
    split
    next => rfl
    next value hvalue =>
      split at hvalue
      next =>
        cases hvalue
        rw [checked, hsum, if_neg fun h ↦ hfits h.2]
      next => cases hvalue

theorem takeDigits_eq {bs : List Byte} (hbs : ∀ b ∈ bs, isDigit b) {v : ℕ}
    (hv : (v : ℤ) ≤ U64_MAX) : bs.foldlM takeDigit (v : ℤ) = inU64 (ofDigits v bs) := by
  induction bs generalizing v with
  | nil => exact (if_pos hv).symm
  | cons b bs ih =>
      obtain ⟨hb, hbs⟩ := List.forall_mem_cons.mp hbs
      rw [List.foldlM_cons, takeDigit_eq v hb, ofDigits_cons, inU64]
      split
      next hfits => exact ih hbs hfits
      next hfits =>
        have hgrows : v * 10 + (b.toNat - 48) ≤ ofDigits (v * 10 + (b.toNat - 48)) bs :=
          le_ofDigits _ bs
        rw [inU64, if_neg (by omega)]
        rfl

theorem accumulate_eq {bs : List Byte} (hbs : ∀ b ∈ bs, isDigit b) :
    accumulate bs = inU64 (ofDigits 0 bs) := takeDigits_eq hbs (by decide)

/-- What the digits of a numeral come to at an exponent. -/
theorem scaleDigits_cases (n : Numeral) (exponent : Int8) :
    (∃ p, LastPlace n.magnitude p ∧ p < exponent.toInt ∧
      scaleDigits n.whole n.fraction exponent =
        .error (.tooPrecise ((exponent.toInt - p).toNat % 2 ^ 32))) ∨
    ∃ r : ℕ, n.magnitude = scaled r exponent.toInt ∧
      scaleDigits n.whole n.fraction exponent = inU64 r := by
  have hlength : n.whole.length + n.fraction.length = n.digits.length :=
    List.length_append.symm
  have htail : n.fraction.reverse ++ n.whole.reverse = n.digits.reverse :=
    List.reverse_append.symm
  rw [scaleDigits]
  dsimp only
  rw [hlength, htail]
  split
  next hshift =>
    -- a finer exponent: zeros are written after the digits
    obtain ⟨k, hk⟩ := Int.eq_ofNat_of_zero_le (show 0 ≤ -(n.fraction.length + exponent.toInt) by omega)
    right
    refine ⟨n.coefficient * 10 ^ k, ?_, ?_⟩
    · rw [Numeral.magnitude, show -(n.fraction.length : ℤ) = exponent.toInt + k by omega, scaled_add]
      push_cast
      rfl
    · have hpad : (-(n.fraction.length + exponent.toInt)).toNat = k := by omega
      rw [hpad, accumulate_eq, ← Numeral.digits, ofDigits_append, ofDigits_zeros]
      · rfl
      · rw [List.forall_mem_append]
        refine ⟨n.isDigit_of_mem, fun b hb ↦ ?_⟩
        rw [List.eq_of_mem_replicate hb]
        rfl
  next hshift =>
    have hdrop : ((n.fraction.length + exponent.toInt).toNat : ℤ) =
        n.fraction.length + exponent.toInt := by omega
    generalize (n.fraction.length + exponent.toInt).toNat = drop at hdrop
    have htake : n.digits.reverse.take (min drop n.digits.length) = n.digits.reverse.take drop := by
      rw [← List.length_reverse, ← List.take_eq_take_min]
    rw [textPrecisionBeyond, htake]
    cases hcut : (n.digits.reverse.take drop).findIdx? (· ≠ 48) with
    | some k =>
        -- a digit that is not zero is cut off
        obtain ⟨xs, b, hdigits, hb, hk⟩ := exists_last_of_findIdx? hcut
        left
        refine ⟨k - n.fraction.length, n.lastPlace_of_digits hdigits hb, by omega, ?_⟩
        rw [Option.map_some]
        dsimp only
        rw [show exponent.toInt - (k - n.fraction.length) =
          n.fraction.length + exponent.toInt - k by omega]
    | none =>
        -- only zeros are
        have hzeros := eq_take_append_zeros hcut
        right
        rw [Option.map_none]
        dsimp only
        split
        next hlen =>
          refine ⟨0, ?_, rfl⟩
          have hzero : n.coefficient = 0 := by
            rw [Nat.sub_eq_zero_of_le hlen, List.take_zero, List.nil_append] at hzeros
            rw [Numeral.coefficient, hzeros, ofDigits_zeros, zero_mul]
          rw [Nat.cast_zero, scaled_zero, n.magnitude_eq_zero_iff, hzero]
        next hlen =>
          refine ⟨ofDigits 0 (n.digits.take (n.digits.length - drop)), ?_, ?_⟩
          · rw [min_eq_left (by omega)] at hzeros
            have hcoefficient : n.coefficient =
                ofDigits 0 (n.digits.take (n.digits.length - drop)) * 10 ^ drop := by
              rw [Numeral.coefficient]
              conv_lhs => rw [hzeros]
              rw [ofDigits_append, ofDigits_zeros]
            rw [Numeral.magnitude, hcoefficient,
              show exponent.toInt = -(n.fraction.length : ℤ) + drop by omega, scaled_add]
            push_cast
            rfl
          · exact accumulate_eq fun b hb ↦ n.isDigit_of_mem b (List.mem_of_mem_take hb)

/-! ## The numbers that are read -/

/-- The signs a reader takes: a price may be negative, a quantity has no sign. -/
inductive Reader where
  | signed
  | unsigned
deriving DecidableEq

namespace Reader

def parse : Reader → List Byte → Int8 → Except ScaleError ℤ
  | .signed => parseSigned
  | .unsigned => parseUnsigned

def min : Reader → ℤ
  | .signed => I64_MIN
  | .unsigned => 0

def max : Reader → ℤ
  | .signed => I64_MAX
  | .unsigned => U64_MAX

/-- The text is the numeral, in the grammar of the reader. -/
def Spells (reader : Reader) (text : List Byte) (n : Numeral) : Prop :=
  n.text = text ∧ (reader = .unsigned → n.negative = false)

end Reader

theorem numeral_text (n : Numeral) :
    n.text = (if n.negative then [0x2d] else []) ++ dotted n.whole n.fraction := rfl

theorem head?_dotted {whole fraction : List Byte} (hne : whole ≠ [])
    (hdigits : ∀ b ∈ whole ++ fraction, isDigit b) :
    (dotted whole fraction).head? ≠ some 0x2d := by
  obtain ⟨b, bs, rfl⟩ := List.exists_cons_of_ne_nil hne
  intro h
  have hb : isDigit b := hdigits b List.mem_cons_self
  rw [Option.some.inj h] at hb
  exact absurd hb (by decide)

/-- What a reader has done with the digits of a text that it has split. -/
def finish (reader : Reader) (negative : Bool) (magnitude : ℤ) : Except ScaleError ℤ :=
  match reader with
  | .signed => toSigned magnitude negative
  | .unsigned => .ok magnitude

theorem parseSigned_eq (text : List Byte) (exponent : Int8) :
    parseSigned text exponent =
      (splitDigits (if text.head? = some 0x2d then text.tail else text)).bind fun parts ↦
        (scaleDigits parts.1 parts.2 exponent).bind fun magnitude ↦
          toSigned magnitude (decide (text.head? = some 0x2d)) := rfl

theorem parse_text {reader : Reader} {text : List Byte} {n : Numeral} (h : reader.Spells text n)
    (exponent : Int8) :
    reader.parse text exponent =
      (scaleDigits n.whole n.fraction exponent).bind (finish reader n.negative) := by
  obtain ⟨rfl, hsign⟩ := h
  have hhead := head?_dotted n.whole_ne n.isDigit_of_mem
  have hsplit := splitDigits_dotted n.whole_ne n.isDigit_of_mem
  rw [numeral_text]
  cases reader with
  | signed =>
      change parseSigned _ _ = _
      rw [parseSigned_eq]
      cases hneg : n.negative with
      | true =>
          rw [if_pos rfl, List.singleton_append, List.head?_cons, if_pos rfl, List.tail_cons, hsplit]
          rfl
      | false =>
          rw [if_neg Bool.false_ne_true, List.nil_append, if_neg hhead, decide_eq_false hhead, hsplit]
          rfl
  | unsigned =>
      change parseUnsigned _ _ = _
      rw [hsign rfl, if_neg Bool.false_ne_true, List.nil_append, parseUnsigned, if_neg hhead, hsplit]
      change scaleDigits n.whole n.fraction exponent = _
      cases scaleDigits n.whole n.fraction exponent with
      | error e => rfl
      | ok r => rfl

/-- The numeral of a text that the reader splits. -/
def numeralOf (negative : Bool) {bs whole fraction : List Byte}
    (h : splitDigits bs = .ok (whole, fraction)) : Numeral where
  negative
  whole
  fraction
  whole_ne := (splitDigits_eq_ok h).2.1
  isDigit_of_mem := (splitDigits_eq_ok h).2.2

theorem parse_malformed {reader : Reader} {text : List Byte} {exponent : Int8}
    (h : ¬∃ n, reader.Spells text n) : reader.parse text exponent = .error .malformed := by
  cases reader with
  | signed =>
      change parseSigned _ _ = _
      rw [parseSigned_eq]
      cases hsplit : splitDigits (if text.head? = some 0x2d then text.tail else text) with
      | error e =>
          rw [splitDigits_error hsplit]
          rfl
      | ok parts =>
          obtain ⟨whole, fraction⟩ := parts
          refine absurd ⟨numeralOf (text.head? = some 0x2d) hsplit, ?_, fun h ↦ (by cases h)⟩ h
          change (if decide (text.head? = some 0x2d) then [0x2d] else []) ++ dotted whole fraction = _
          rw [← (splitDigits_eq_ok hsplit).1]
          by_cases hhead : text.head? = some 0x2d
          · rw [if_pos (decide_eq_true hhead), if_pos hhead]
            exact List.eq_cons_of_mem_head? hhead ▸ rfl
          · rw [if_neg (by rw [decide_eq_false hhead]; exact Bool.false_ne_true), if_neg hhead]
            rfl
  | unsigned =>
      change parseUnsigned _ _ = _
      rw [parseUnsigned]
      split
      next => rfl
      next =>
        cases hsplit : splitDigits text with
        | error e =>
            rw [splitDigits_error hsplit]
            rfl
        | ok parts =>
            obtain ⟨whole, fraction⟩ := parts
            refine absurd ⟨numeralOf false hsplit, ?_, fun _ ↦ rfl⟩ h
            exact (splitDigits_eq_ok hsplit).1.symm

/-- A magnitude, with the sign of the numeral. -/
def withSign (negative : Bool) (r : ℕ) : ℤ := if negative then -r else r

theorem value_eq_scaled {n : Numeral} {r : ℕ} {e : ℤ} (h : n.magnitude = scaled r e) :
    n.value = scaled (withSign n.negative r) e := by
  rw [Numeral.value, h, withSign]
  split
  next => exact (scaled_neg r e).symm
  next => rfl

theorem toSigned_eq (negative : Bool) (r : ℕ) :
    toSigned r negative =
      if I64_MIN ≤ withSign negative r ∧ withSign negative r ≤ I64_MAX then
        .ok (withSign negative r)
      else .error .overflow := by
  rw [toSigned, withSign, I64_MIN, I64_MAX]
  cases negative with
  | true =>
      rw [if_pos rfl, if_pos rfl]
      split
      next hr => rw [hr]; rfl
      next hr =>
        by_cases hle : (r : ℤ) ≤ 2 ^ 63 - 1
        · rw [if_pos hle, if_pos (by omega)]
        · rw [if_neg hle, if_neg (by omega)]
  | false =>
      rw [if_neg Bool.false_ne_true, if_neg Bool.false_ne_true]
      by_cases hle : (r : ℤ) ≤ 2 ^ 63 - 1
      · rw [if_pos hle, if_pos (by omega)]
      · rw [if_neg hle, if_neg (by omega)]

/-- A magnitude that stands at the exponent is read as it is, or is out of range. -/
theorem finish_restates {reader : Reader} {text : List Byte} {n : Numeral}
    (h : reader.Spells text n) {r : ℕ} {e : ℤ} (hr : n.magnitude = scaled r e) :
    Restates reader.min reader.max n.value e ((inU64 r).bind (finish reader n.negative)) := by
  have hvalue := value_eq_scaled hr
  rw [inU64]
  split
  next hu64 =>
    change Restates _ _ _ _ (finish reader n.negative r)
    cases reader with
    | signed =>
        rw [finish, toSigned_eq]
        split
        next hfits => exact .ok hfits hvalue
        next hout => exact .overflow hout hvalue
    | unsigned =>
        rw [h.2 rfl] at hvalue
        exact .ok ⟨Int.natCast_nonneg r, hu64⟩ hvalue
  next hu64 =>
    refine .overflow (fun hfits ↦ ?_) hvalue
    cases reader with
    | signed =>
        change I64_MIN ≤ _ ∧ _ ≤ I64_MAX at hfits
        rw [I64_MIN, I64_MAX, withSign] at hfits
        rw [U64_MAX] at hu64
        split at hfits <;> omega
    | unsigned =>
        rw [h.2 rfl] at hfits
        exact hu64 hfits.2

/-- A text that is in the grammar comes to what its value does, the distance of its last digit
below the exponent cast to a `u32`. -/
theorem parse_cases {reader : Reader} {text : List Byte} {n : Numeral}
    (h : reader.Spells text n) (exponent : Int8) :
    (∃ p, LastPlace n.value p ∧ p < exponent.toInt ∧
      reader.parse text exponent = .error (.tooPrecise ((exponent.toInt - p).toNat % 2 ^ 32))) ∨
    ((∃ r, n.value = scaled r exponent.toInt) ∧
      Restates reader.min reader.max n.value exponent.toInt (reader.parse text exponent)) := by
  rw [parse_text h]
  rcases scaleDigits_cases n exponent with ⟨p, hlast, hbelow, hparse⟩ | ⟨r, hr, hparse⟩
  · rw [hparse]
    exact .inl ⟨p, n.lastPlace_value_iff.mpr hlast, hbelow, rfl⟩
  · rw [hparse]
    exact .inr ⟨⟨_, value_eq_scaled hr⟩, finish_restates h hr⟩

/-- The last digit of a text stands `2 ^ 32` places or more below the exponent. -/
def Remote (reader : Reader) (text : List Byte) (exponent : Int8) : Prop :=
  ∃ n, reader.Spells text n ∧ ∃ p, n.LastDigit p ∧ 2 ^ 32 ≤ exponent.toInt - p

theorem parse_restates {reader : Reader} {text : List Byte} {n : Numeral} {exponent : Int8}
    (h : reader.Spells text n) (hnear : ¬Remote reader text exponent) :
    Restates reader.min reader.max n.value exponent.toInt (reader.parse text exponent) := by
  rcases parse_cases h exponent with ⟨p, hlast, hbelow, hparse⟩ | ⟨_, hrestates⟩
  · have hlt : ¬2 ^ 32 ≤ exponent.toInt - p :=
      fun hfar ↦ hnear ⟨n, h, p, n.lastDigit_iff.mpr hlast, hfar⟩
    rw [hparse, Nat.mod_eq_of_lt (by omega)]
    exact .tooPrecise hlast hbelow
  · exact hrestates

/-- What is claimed of reading a text at an exponent: each of the four outcomes is that of exactly
the texts it is meant for. -/
structure ReadsExactly (reader : Reader) (text : List Byte) (exponent : ℤ)
    (outcome : Except ScaleError ℤ) : Prop where
  ok : ∀ r, outcome = .ok r ↔
    (reader.min ≤ r ∧ r ≤ reader.max) ∧
      ∃ n, reader.Spells text n ∧ n.value = scaled r exponent
  malformed : outcome = .error .malformed ↔ ¬∃ n, reader.Spells text n
  tooPrecise : ∀ beyond, outcome = .error (.tooPrecise beyond) ↔
    ∃ n, reader.Spells text n ∧ ∃ p, n.LastDigit p ∧ p < exponent ∧ (beyond : ℤ) = exponent - p
  overflow : outcome = .error .overflow ↔
    ∃ n, reader.Spells text n ∧
      ∃ r, n.value = scaled r exponent ∧ ¬(reader.min ≤ r ∧ r ≤ reader.max)

theorem misread {reader : Reader} {text : List Byte} {exponent : Int8}
    (h : Remote reader text exponent) :
    ¬ReadsExactly reader text exponent.toInt (reader.parse text exponent) := by
  obtain ⟨n, hn, p, hlast, hfar⟩ := h
  intro hexact
  have hplace := n.lastDigit_iff.mp hlast
  have hbelow : p < exponent.toInt := by omega
  have hstated := (hexact.tooPrecise (exponent.toInt - p).toNat).mpr
    ⟨n, hn, p, hlast, hbelow, by omega⟩
  rcases parse_cases hn exponent with ⟨q, hq, _, hparse⟩ | ⟨hstands, _⟩
  · rw [hparse, hq.unique hplace] at hstated
    have hmod := ScaleError.tooPrecise.inj (Except.error.inj hstated)
    omega
  · exact absurd ((hplace.exists_scaled_iff _).mp hstands) (not_le.mpr hbelow)

/-- **Decimal text is read exactly**, up to texts whose last digit stands `2 ^ 32` places or more
below the exponent: there the distance that is reported is not the distance. -/
theorem parse_exact (reader : Reader) (text : List Byte) (exponent : Int8) :
    ReadsExactly reader text exponent.toInt (reader.parse text exponent) ↔
      ¬Remote reader text exponent := by
  constructor
  · exact fun hexact hfar ↦ misread hfar hexact
  · intro hnear
    by_cases hgrammar : ∃ n, reader.Spells text n
    · have hrestates {n : Numeral} (hn : reader.Spells text n) := parse_restates hn hnear
      obtain ⟨n, hn⟩ := hgrammar
      have hn' := hrestates hn
      constructor
      · intro r
        constructor
        · intro hok
          rw [hok] at hn'
          cases hn' with
          | ok fits states => exact ⟨fits, n, hn, states⟩
        · rintro ⟨fits, m, hm, states⟩
          exact (hrestates hm).unique (.ok fits states)
      · constructor
        · intro hmalformed
          rw [hmalformed] at hn'
          cases hn'
        · exact fun hnone ↦ absurd ⟨n, hn⟩ hnone
      · intro beyond
        constructor
        · intro hprecise
          rw [hprecise] at hn'
          cases hn' with
          | tooPrecise last below => exact ⟨n, hn, _, n.lastDigit_iff.mpr last, below, by omega⟩
        · rintro ⟨m, hm, p, hlast, hbelow, hbeyond⟩
          have hstated := (hrestates hm).unique (.tooPrecise (m.lastDigit_iff.mp hlast) hbelow)
          rwa [← hbeyond, Int.toNat_natCast] at hstated
      · constructor
        · intro hoverflow
          rw [hoverflow] at hn'
          cases hn' with
          | overflow outside states => exact ⟨n, hn, _, states, outside⟩
        · rintro ⟨m, hm, r, states, outside⟩
          exact (hrestates hm).unique (.overflow outside states)
    · rw [parse_malformed hgrammar]
      constructor
      · intro r
        constructor
        · intro h
          cases h
        · exact fun ⟨_, n, hn, _⟩ ↦ absurd ⟨n, hn⟩ hgrammar
      · exact ⟨fun _ ↦ hgrammar, fun _ ↦ rfl⟩
      · intro beyond
        constructor
        · intro h
          cases h
        · exact fun ⟨n, hn, _⟩ ↦ absurd ⟨n, hn⟩ hgrammar
      · constructor
        · intro h
          cases h
        · exact fun ⟨n, hn, _⟩ ↦ absurd ⟨n, hn⟩ hgrammar

/-! ## A text that is too long -/

/-- `0.00…01`, with some zeros after the dot. -/
def farDigit (zeros : ℕ) : Numeral where
  negative := false
  whole := [48]
  fraction := List.replicate zeros 48 ++ [49]
  whole_ne := List.cons_ne_nil _ _
  isDigit_of_mem := by
    intro b hb
    rw [List.mem_append, List.mem_append, List.mem_singleton, List.mem_replicate,
      List.mem_singleton] at hb
    rcases hb with rfl | ⟨_, rfl⟩ | rfl <;> rfl

theorem farDigit_remote {zeros : ℕ} (h : zeros + 1 = 2 ^ 32) :
    Remote .signed (farDigit zeros).text 0 := by
  refine ⟨farDigit zeros, ⟨rfl, fun h ↦ by cases h⟩, -(zeros + 1), ?_, ?_⟩
  · have hdigits : (farDigit zeros).digits = (48 :: List.replicate zeros 48) ++ 49 ::
        List.replicate 0 48 := rfl
    have hlast := (farDigit zeros).lastDigit_of_digits hdigits (by decide)
    have hlen : (farDigit zeros).fraction.length = zeros + 1 := by
      change (List.replicate zeros (48 : Byte) ++ [49]).length = _
      rw [List.length_append, List.length_replicate, List.length_singleton]
    rwa [hlen, Nat.cast_zero, zero_sub, Nat.cast_add, Nat.cast_one] at hlast
  · have hzero : (0 : Int8).toInt = 0 := rfl
    omega

theorem farDigit_misread :
    ∃ text, ¬ReadsExactly .signed text (0 : Int8).toInt (parseSigned text 0) :=
  ⟨(farDigit (2 ^ 32 - 1)).text, misread (farDigit_remote rfl)⟩

end EdgeMulticast.Lowering
