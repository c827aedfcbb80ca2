import EdgeMulticast.Lib.Except
import EdgeMulticast.Lowering.Depth
import EdgeMulticast.Refdata.Published

/-!
# Composing definitions and strikes

`definition.rs`, `strike.rs` and `refusal.rs` (`dz-publisher-refdata`), over `pad_text`
(`dz-edge-core`) and `ContractSize::from_scalar` (`dz-publisher-lowering`): what a venue states about
an instrument and its strike, as the messages that publish it, or why it is refused.
-/

namespace EdgeMulticast.Refdata

open EdgeMulticast.Lib
open EdgeMulticast.Codec
open EdgeMulticast.Lowering

/-! ## Text fields -/

def SYMBOL_LEN : ℕ := 64

def LEG_LEN : ℕ := 8

inductive Fit where
  | fitted | truncated | unrepresentable
deriving DecidableEq, Repr

/-- Whether a place in a text is between two characters. -/
def isCharBoundary (text : List Byte) (i : ℕ) : Bool :=
  i == 0 || i == text.length || (text[i]?).any fun b ↦ b < 0x80 || 0xc0 ≤ b

/-- The last place between two characters at or before `cut`. -/
def cutBack (text : List Byte) : ℕ → ℕ
  | 0 => 0
  | cut + 1 => if isCharBoundary text (cut + 1) then cut + 1 else cutBack text cut

/-- A text in a field of `n` bytes, and whether it fits there. -/
def padText (n : ℕ) (text : List Byte) : Vector Byte n × Fit :=
  let cut := if text.length ≤ n then text.length else cutBack text n
  let fit :=
    if 0 ∈ text then .unrepresentable
    else if text.length ≤ n then .fitted
    else .truncated
  (.ofFn fun i ↦ (text.take cut).getD i 0, fit)

def symbolField (ticker : List Byte) : Vector Byte SYMBOL_LEN × Fit := padText SYMBOL_LEN ticker

structure Fits where
  symbol : Fit
  leg1 : Option Fit
  leg2 : Option Fit
deriving DecidableEq, Repr

/-! ## What a venue states about an instrument -/

inductive AssetClass where
  | unknown | cryptoSpot | predictionBinary | predictionScalar | predictionCategorical
  | perpetualFuture | datedFuture
deriving DecidableEq, Repr

inductive MarketModel where
  | unknown | clob | amm
deriving DecidableEq, Repr

inductive SettleType where
  | notApplicable | cash | physical
deriving DecidableEq, Repr

inductive PriceBound where
  | unbounded | unitInterval | nonNegative
deriving DecidableEq, Repr

def AssetClass.byte : AssetClass → Byte
  | .unknown => 0
  | .cryptoSpot => 1
  | .predictionBinary => 2
  | .predictionScalar => 3
  | .predictionCategorical => 4
  | .perpetualFuture => 5
  | .datedFuture => 6

def MarketModel.byte : MarketModel → Byte
  | .unknown => 0
  | .clob => 1
  | .amm => 2

def SettleType.byte : SettleType → Byte
  | .notApplicable => 0
  | .cash => 1
  | .physical => 2

def PriceBound.byte : PriceBound → Byte
  | .unbounded => 0
  | .unitInterval => 1
  | .nonNegative => 2

structure InstrumentSpec where
  symbol : List Byte
  venueKey : Option (List Byte) := none
  leg1 : Option (List Byte) := none
  leg2 : Option (List Byte) := none
  assetClass : AssetClass
  priceExponent : Int8
  qtyExponent : Int8
  marketModel : MarketModel
  tickSize : Scalar
  lotSize : Scalar
  contractValue : Option Scalar := none
  quotedPerContract : Option Scalar := none
  expiryNs : Option UInt64 := none
  settleType : SettleType
  priceBound : PriceBound
deriving DecidableEq

/-- Why an offer or a statement is refused. -/
inductive Refusal where
  | capped
  | contractSize
  | field (error : LoweringError)
  | scaleRestated
  | datedFutureTerms
  | unknownShard
  | shardRestated
  | strikeUnrepresentable
  | strikeEmpty
  | strikeUnfixed
  | strikePresence
  | badVenueKey
  | venueKeyNotDeclared
  | idSpaceExhausted
  | idUnavailable
  | unpersistable
  | shuttingDown
deriving DecidableEq, Repr

/-! ## Definitions -/

/-- The exponent a contract size in decimal text is read at. -/
def TEXT_EXPONENT : Int8 := -9

def contractSizeNew (mantissa : Int64) (exponent : Int8) : Option ContractSize :=
  if h : 0 < mantissa.toInt then some ⟨mantissa, exponent, h⟩ else none

def contractSizeFromScalar : Scalar → Option ContractSize
  | .fixed mantissa exponent => contractSizeNew mantissa exponent
  | .text text =>
      match Lowering.parseSigned text TEXT_EXPONENT with
      | .error _ => none
      | .ok mantissa => contractSizeNew (Int64.ofInt mantissa) TEXT_EXPONENT

/-- A Manifest Seq that is not one. -/
def UNSTAMPED : UInt16 := 0

/-- One instrument, as the lowering reads it and as it is published. -/
structure Composition where
  instrument : Instrument
  definition : InstrumentDefinition
  fits : Fits
deriving DecidableEq

def InstrumentSpec.contractSize (spec : InstrumentSpec) : Except Refusal (Option ContractSize) :=
  match spec.quotedPerContract with
  | none => .ok none
  | some stated =>
      match contractSizeFromScalar stated with
      | none => .error .contractSize
      | some size => .ok (some size)

def InstrumentSpec.contractValueAt (spec : InstrumentSpec) : Except Refusal ℤ :=
  match spec.contractValue with
  | none => .ok 0
  | some stated =>
      (qtyAt stated spec.priceExponent).mapError fun e ↦ .field (.scale "contract_value" e)

def legField (leg : Option (List Byte)) : Vector Byte LEG_LEN :=
  (leg.map fun leg ↦ (padText LEG_LEN leg).1).getD (.replicate LEG_LEN 0)

def compose (spec : InstrumentSpec) (instrumentId : UInt32) (sourceId : SourceId) :
    Except Refusal Composition :=
  if spec.assetClass = .datedFuture ∧
      (spec.expiryNs.all (· = 0) ∨ spec.settleType = .notApplicable) then
    .error .datedFutureTerms
  else do
    let quotedPerContract ← spec.contractSize
    let instrument : Instrument :=
      { instrumentId, priceExponent := spec.priceExponent, qtyExponent := spec.qtyExponent,
        quotedPerContract }
    let tickSize ← (priceFor instrument spec.tickSize "tick_size").mapError .field
    let lotSize ← (qtyFor instrument spec.lotSize "lot_size").mapError .field
    let contractValue ← spec.contractValueAt
    return {
      instrument
      definition := {
        instrumentId
        sourceId := sourceId.value
        symbol := (symbolField spec.symbol).1
        leg1 := legField spec.leg1
        leg2 := legField spec.leg2
        assetClass := spec.assetClass.byte
        priceExponent := spec.priceExponent
        qtyExponent := spec.qtyExponent
        marketModel := spec.marketModel.byte
        tickSize := Int64.ofInt tickSize
        lotSize := UInt64.ofNat lotSize.toNat
        contractValue := UInt64.ofNat contractValue.toNat
        expiryNs := spec.expiryNs.getD 0
        settleType := spec.settleType.byte
        priceBound := spec.priceBound.byte
        manifestSeq := UNSTAMPED }
      fits := {
        symbol := (symbolField spec.symbol).2
        leg1 := spec.leg1.map fun leg ↦ (padText LEG_LEN leg).2
        leg2 := spec.leg2.map fun leg ↦ (padText LEG_LEN leg).2 } }

/-- Whether two definitions describe the same instrument, their manifests apart. -/
def sameDefinition (left right : InstrumentDefinition) : Bool :=
  stamped left UNSTAMPED = stamped right UNSTAMPED

/-! ## Strikes -/

/-- One end of a strike, as the venue states it. -/
structure StrikeBound where
  value : Scalar
  inclusive : Bool
deriving DecidableEq

inductive Strike where
  | pending
  | fixed (lower upper : Option StrikeBound) (fixingTimeNs : Option UInt64)
deriving DecidableEq

/-- A strike with no bound. -/
def pendingInterval (instrumentId : UInt32) (sourceId : UInt16) (strikeExponent : Int8) :
    StrikeInterval :=
  ⟨instrumentId, sourceId, strikeExponent, 0, 0, 0, 0⟩

def isPending (strike : StrikeInterval) : Bool :=
  strike.boundFlags &&& (BOUND_LOWER_PRESENT ||| BOUND_UPPER_PRESENT) = 0

/-- Whether two strikes state one interval, their fixing times apart. -/
def sameInterval (left right : StrikeInterval) : Bool :=
  left.strikeExponent = right.strikeExponent && left.boundFlags = right.boundFlags &&
    left.lowerBound = right.lowerBound && left.upperBound = right.upperBound

def PENDING_EXPONENT : Int8 := 0

/-- The digits of a mantissa behind the point, trailing zeros dropped. -/
def significantDigits : ℕ → ℤ → ℕ
  | 0, _ => 0
  | digits + 1, mantissa =>
      if mantissa.tmod 10 = 0 then significantDigits digits (mantissa.tdiv 10) else digits + 1

/-- The coarsest exponent, never above zero, at which a value is exact. -/
def coarsestExponent (value : Scalar) : Except Refusal Int8 :=
  let digits : ℕ := match value with
    | .text text =>
        match text.findIdx? (· = 0x2e) with
        | none => 0
        | some dot => ((text.drop (dot + 1)).reverse.dropWhile (· = 0x30)).length
    | .fixed mantissa exponent => significantDigits (-min exponent.toInt 0).toNat mantissa.toInt
  if digits ≤ 128 then .ok (Int8.ofInt (-digits)) else .error .strikeUnrepresentable

def strikeExponentOf : List StrikeBound → Int8 → Except Refusal Int8
  | [], strikeExponent => .ok strikeExponent
  | bound :: bounds, strikeExponent =>
      match coarsestExponent bound.value with
      | .error refusal => .error refusal
      | .ok exponent => strikeExponentOf bounds (min strikeExponent exponent)

def boundAt (strikeExponent : Int8) : Option StrikeBound → Except Refusal Int64
  | none => .ok 0
  | some bound =>
      match priceAt bound.value strikeExponent with
      | .error _ => .error .strikeUnrepresentable
      | .ok value => .ok (Int64.ofInt value)

def boundFlag (present inclusive : Byte) : Option StrikeBound → Byte
  | none => 0
  | some bound => if bound.inclusive then present ||| inclusive else present

/-- The interval that an instrument publishes for a strike. -/
def composeStrike (strike : Strike) (instrumentId : UInt32) (sourceId : SourceId) :
    Except Refusal StrikeInterval :=
  match strike with
  | .pending => .ok (pendingInterval instrumentId sourceId.value PENDING_EXPONENT)
  | .fixed none none _ => .error .strikeUnrepresentable
  | .fixed lower upper fixingTimeNs => do
      let strikeExponent ← strikeExponentOf ([lower, upper].filterMap id) 0
      let lowerBound ← boundAt strikeExponent lower
      let upperBound ← boundAt strikeExponent upper
      let composed : StrikeInterval := {
        instrumentId
        sourceId := sourceId.value
        strikeExponent
        boundFlags := boundFlag BOUND_LOWER_PRESENT BOUND_LOWER_INCLUSIVE lower |||
          boundFlag BOUND_UPPER_PRESENT BOUND_UPPER_INCLUSIVE upper
        lowerBound
        upperBound
        fixingTimeNs := fixingTimeNs.getD 0 }
      if composed.defect.isSome then .error .strikeEmpty else .ok composed

end EdgeMulticast.Refdata
