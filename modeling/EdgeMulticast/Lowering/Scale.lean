import EdgeMulticast.Lib.Bytes
import Mathlib.Data.Int.Basic

/-!
# Venue units to the exponent of an instrument

`fixed_point.rs` (`dz-edge-core`) and `scale.rs`, `contract.rs`, `error.rs`
(`dz-publisher-lowering`): a price or a quantity as the venue states it, restated exactly at the
exponent the wire carries it at, or refused.

A machine integer is an integer here, and every place where the source checks its range says so.
-/

namespace EdgeMulticast.Lowering

open EdgeMulticast.Lib

inductive ScaleError where
  | tooPrecise (beyond : ℕ)
  | malformed
  | overflow
deriving DecidableEq, Repr

inductive LoweringError where
  | unknownInstrument
  | inexactContract (field : String)
  | scale (field : String) (source : ScaleError)
deriving DecidableEq, Repr

/-- A number as the venue states it: decimal text, or `mantissa * 10 ^ exponent`. -/
inductive Scalar where
  | text (value : List Byte)
  | fixed (mantissa : Int64) (exponent : Int8)
deriving DecidableEq

def I64_MIN : ℤ := -2 ^ 63

def I64_MAX : ℤ := 2 ^ 63 - 1

def U64_MAX : ℤ := 2 ^ 64 - 1

def I128_MIN : ℤ := -2 ^ 127

def I128_MAX : ℤ := 2 ^ 127 - 1

/-- A result that has to lie in a machine integer's range. -/
def checked (min max value : ℤ) : Option ℤ :=
  if min ≤ value ∧ value ≤ max then some value else none

/-! ## Decimal text -/

/-- Where the dot is, in text of digits and at most one dot. -/
def dotPos : List Byte → ℕ → Option ℕ → Except ScaleError (Option ℕ)
  | [], _, dot => .ok dot
  | b :: bs, i, dot =>
      if isDigit b then dotPos bs (i + 1) dot
      else if b = 0x2e ∧ dot = none then dotPos bs (i + 1) (some i)
      else .error .malformed

/-- The digits before and after the dot. -/
def splitDigits (s : List Byte) : Except ScaleError (List Byte × List Byte) :=
  if s = [] then .error .malformed
  else match dotPos s 0 none with
    | .error e => .error e
    | .ok none => .ok (s, [])
    | .ok (some pos) =>
        if pos = 0 ∨ pos = s.length - 1 then .error .malformed
        else .ok (s.take pos, s.drop (pos + 1))

/-- The number the digits spell, where a `u64` holds it after every digit. -/
def accumulate (digits : List Byte) : Except ScaleError ℤ :=
  digits.foldlM (fun (value : ℤ) b ↦
    match checked 0 U64_MAX (value * 10) with
    | none => .error .overflow
    | some value =>
        match checked 0 U64_MAX (value + (b.toNat - 48)) with
        | none => .error .overflow
        | some value => .ok value) 0

/-- How far the precision reaches past the cut: `tail` is what is cut off, its last digit first.
The distance is cast to a `u32`. -/
def textPrecisionBeyond (tail : List Byte) (shift : ℤ) : Option ℕ :=
  (tail.findIdx? (· ≠ 48)).map fun (j : ℕ) ↦ (shift - j).toNat % 2 ^ 32

def scaleDigits (intPart fracPart : List Byte) (exponent : Int8) : Except ScaleError ℤ :=
  let len := intPart.length + fracPart.length
  let shift : ℤ := fracPart.length + exponent.toInt
  if shift ≤ 0 then accumulate (intPart ++ fracPart ++ List.replicate (-shift).toNat 48)
  else
    let drop := shift.toNat
    let tail := fracPart.reverse ++ intPart.reverse
    match textPrecisionBeyond (tail.take (min drop len)) shift with
    | some beyond => .error (.tooPrecise beyond)
    | none =>
        if len ≤ drop then .ok 0
        else accumulate ((intPart ++ fracPart).take (len - drop))

def toSigned (magnitude : ℤ) (negative : Bool) : Except ScaleError ℤ :=
  if negative then
    if magnitude = 2 ^ 63 then .ok I64_MIN
    else if magnitude ≤ I64_MAX then .ok (-magnitude)
    else .error .overflow
  else if magnitude ≤ I64_MAX then .ok magnitude
  else .error .overflow

/-- Decimal text as an `i64` at an exponent. -/
def parseSigned (text : List Byte) (exponent : Int8) : Except ScaleError ℤ := do
  let negative := text.head? = some 0x2d
  let (intPart, fracPart) ← splitDigits (if negative then text.tail else text)
  let magnitude ← scaleDigits intPart fracPart exponent
  toSigned magnitude negative

/-- Decimal text as a `u64` at an exponent. -/
def parseUnsigned (text : List Byte) (exponent : Int8) : Except ScaleError ℤ :=
  if text.head? = some 0x2d then .error .malformed
  else do
    let (intPart, fracPart) ← splitDigits text
    scaleDigits intPart fracPart exponent

/-! ## A mantissa and its exponent -/

/-- `10 ^ digits` as an `i64`. -/
def powerOfTen (digits : ℤ) : Except ScaleError ℤ :=
  match checked I64_MIN I64_MAX (10 ^ digits.toNat) with
  | none => .error .overflow
  | some factor => .ok factor

/-- How often ten divides a number that is not zero. -/
def trailingZeros (rest : ℤ) : ℕ :=
  if rest ≠ 0 ∧ rest.tmod 10 = 0 then trailingZeros (rest.tdiv 10) + 1 else 0
termination_by rest.natAbs
decreasing_by
  next h =>
      rw [Int.natAbs_tdiv]
      exact Nat.div_lt_self (Int.natAbs_pos.mpr h.1) (by decide)

def precisionBeyond (remainder digits : ℤ) : ℕ := digits.toNat - trailingZeros remainder

/-- Restate `mantissa * 10 ^ source` as an integer at `target`. -/
def rescaleSigned (mantissa : ℤ) (source target : Int8) : Except ScaleError ℤ :=
  if mantissa = 0 then .ok 0
  else
    let shift := source.toInt - target.toInt
    if shift = 0 then .ok mantissa
    else if 0 < shift then do
      -- a finer exponent: the value gains digits
      let factor ← powerOfTen shift
      match checked I64_MIN I64_MAX (mantissa * factor) with
      | none => .error .overflow
      | some raw => .ok raw
    else do
      -- a coarser one: every digit that is dropped has to be zero
      let digits := -shift
      let divisor ← powerOfTen digits
      let remainder := mantissa.tmod divisor
      if remainder = 0 then .ok (mantissa.tdiv divisor)
      else .error (.tooPrecise (precisionBeyond remainder digits))

def priceAt (value : Scalar) (exponent : Int8) : Except ScaleError ℤ :=
  match value with
  | .text text => parseSigned text exponent
  | .fixed mantissa source => rescaleSigned mantissa.toInt source exponent

def qtyAt (value : Scalar) (exponent : Int8) : Except ScaleError ℤ :=
  match value with
  | .text text => parseUnsigned text exponent
  | .fixed mantissa source =>
      if mantissa.toInt < 0 then .error .malformed
      else do
        let raw ← rescaleSigned mantissa.toInt source exponent
        match checked 0 U64_MAX raw with
        | none => .error .malformed
        | some raw => .ok raw

/-! ## Contract factors -/

/-- How much of the underlying one contract is, strictly positive. -/
structure ContractSize where
  mantissa : Int64
  exponent : Int8
  positive : 0 < mantissa.toInt
deriving DecidableEq

/-- `10 ^ digits` as an `i128`. -/
def powerOfTenI128 (digits : ℤ) : Option ℤ := checked I128_MIN I128_MAX (10 ^ digits.toNat)

def isPowerOfTen (value : ℤ) : Bool :=
  if 0 < value ∧ value.tmod 10 = 0 then isPowerOfTen (value.tdiv 10) else value == 1
termination_by value.natAbs
decreasing_by
  next h =>
      rw [Int.natAbs_tdiv]
      exact Nat.div_lt_self (Int.natAbs_pos.mpr (Int.ne_of_gt h.1)) (by decide)

/-- `numerator * 10 ^ shift / denominator`, exactly. -/
def exact (numerator denominator shift : ℤ) (field : String) : Except LoweringError ℤ := do
  let overflow := LoweringError.scale field .overflow
  let scaled (value : ℤ) : Except LoweringError ℤ :=
    match powerOfTenI128 shift.natAbs with
    | none => .error overflow
    | some power =>
        match checked I128_MIN I128_MAX (value * power) with
        | none => .error overflow
        | some value => .ok value
  let (numerator, denominator) ←
    if 0 ≤ shift then (scaled numerator).map fun numerator ↦ (numerator, denominator)
    else (scaled denominator).map fun denominator ↦ (numerator, denominator)
  if numerator.tmod denominator ≠ 0 then
    .error (if isPowerOfTen denominator then .scale field (.tooPrecise 1) else .inexactContract field)
  else .ok (numerator.tdiv denominator)

/-- The integer and the exponent behind a value, text being read at the exponent of the
instrument. -/
def fixedParts (value : Scalar) (textExponent : Int8) (field : String) :
    Except LoweringError (ℤ × Int8) :=
  match value with
  | .fixed mantissa exponent => .ok (mantissa.toInt, exponent)
  | .text text =>
      ((parseSigned text textExponent).mapError (.scale field)).map fun mantissa ↦
        (mantissa, textExponent)

/-- What the lowering has to know about an instrument. -/
structure Instrument where
  instrumentId : UInt32
  priceExponent : Int8
  qtyExponent : Int8
  quotedPerContract : Option ContractSize
deriving DecidableEq

/-- A price for an instrument, through its contract factor if it has one. -/
def priceFor (inst : Instrument) (value : Scalar) (field : String) : Except LoweringError ℤ :=
  match inst.quotedPerContract with
  | none => (priceAt value inst.priceExponent).mapError (.scale field)
  | some contract => do
      let (mantissa, exponent) ← fixedParts value inst.priceExponent field
      let shift := exponent.toInt - contract.exponent.toInt - inst.priceExponent.toInt
      let raw ← exact mantissa contract.mantissa.toInt shift field
      match checked I64_MIN I64_MAX raw with
      | none => .error (.scale field .overflow)
      | some raw => .ok raw

/-- A quantity for an instrument, through its contract factor if it has one. -/
def qtyFor (inst : Instrument) (value : Scalar) (field : String) : Except LoweringError ℤ :=
  match inst.quotedPerContract with
  | none => (qtyAt value inst.qtyExponent).mapError (.scale field)
  | some contract => do
      let (mantissa, exponent) ← fixedParts value inst.qtyExponent field
      if mantissa < 0 then .error (.scale field .malformed)
      else
        match checked I128_MIN I128_MAX (mantissa * contract.mantissa.toInt) with
        | none => .error (.scale field .overflow)
        | some product =>
            let shift := exponent.toInt + contract.exponent.toInt - inst.qtyExponent.toInt
            let raw ← exact product 1 shift field
            match checked 0 U64_MAX raw with
            | none => .error (.scale field .overflow)
            | some raw => .ok raw

end EdgeMulticast.Lowering
