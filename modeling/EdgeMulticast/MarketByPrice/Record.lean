import EdgeMulticast.Lib.Narrow
import EdgeMulticast.Shared

/-!
# The record envelope of the market-by-price book-builder

`record.go` and the coercion helpers at the end of `shard.go`.

A record is an envelope and a bag of fields.  `Fields` holds, for every key the book-builder
reads, what the bag says under it: an integer literal for a number, a constructor for one of
the parser's spellings, and the zero the coercion helpers answer for a key that is absent.
The helpers keep their own names here, since how they narrow a literal is part of what the
book-builder does with it.

Sequence numbers and quantities are natural numbers and prices are integers; where the
source's arithmetic is modulo a power of two the definitions say so.
-/

namespace EdgeMulticast.MarketByPrice

open EdgeMulticast.Lib

/-! ## Spellings -/

/-- The record types the book-builder dispatches on. -/
inductive RecordType where
  | instrumentDefinition | strikeInterval
  | snapshotBegin | snapshotLevel | snapshotEnd
  | levelUpdate | bookClear | instrumentReset
  | batchBoundary | trade | liquidation
  | heartbeat | manifestSummary | endOfSession
  | other
deriving DecidableEq, Repr

/-- The port role a record arrived on. -/
inductive Port where
  | refdata | mktdata | snapshot
deriving DecidableEq, Repr

inductive ActionName where
  | new | change | delete | other
deriving DecidableEq, Repr

inductive ClearSideName where
  | bid | ask | both | other
deriving DecidableEq, Repr

inductive ScopeName where
  | entireSide | fromPrice | other
deriving DecidableEq, Repr

/-- The fields of a record, under the parser's names.  A default stands for an absent key. -/
structure Fields where
  -- deltas and snapshot levels
  perInstrumentSeq : ℤ := 0
  side : SideName := .other
  priceRaw : ℤ := 0
  qtyRaw : ℤ := 0
  orderCount : Option ℤ := none
  levelFlags : ℤ := 0
  action : ActionName := .other
  clearSide : ClearSideName := .other
  scope : ScopeName := .other
  fromPriceRaw : ℤ := 0
  -- snapshot groups and resets
  snapshotId : ℤ := 0
  anchorSeq : ℤ := 0
  totalLevels : ℤ := 0
  lastInstrumentSeq : ℤ := 0
  depthBound : ℤ := 0
  newAnchorSeq : ℤ := 0
  -- reference data
  symbol : String := ""
  priceExponent : ℤ := 0
  qtyExponent : ℤ := 0
  manifestSeq : ℤ := 0
  sourceId : ℤ := 0
  strikeExponent : ℤ := 0
  boundFlags : ℤ := 0
  lowerBoundRaw : ℤ := 0
  upperBoundRaw : ℤ := 0
  fixingTime : Option ℕ := none
  valid : ℤ := 0
  instrumentCount : ℤ := 0
deriving DecidableEq, Repr

/-- The parser's envelope.  `messageIndex` is the position of the record's message among the
application messages of its datagram. -/
structure Record where
  type : RecordType
  channelID : ℕ := 0
  port : Port := .mktdata
  sequenceNumber : ℕ := 0
  messageIndex : ℕ := 0
  resetCount : ℕ := 0
  instrumentID : ℕ := 0
  sendTSNS : ℕ := 0
  fields : Fields := {}
deriving DecidableEq, Repr

/-! ## Coercion helpers -/

/-- A literal as a signed 64-bit value.  One that `ParseInt` refuses goes through a double. -/
def numInt64 (n : ℤ) : ℤ := toSigned64 n

def toUint8 (n : ℤ) : ℕ := lowBits 8 n

def toUint16 (n : ℤ) : ℕ := lowBits 16 n

def toUint32 (n : ℤ) : ℕ := lowBits 32 n

/-- Unsigned first: the top half of the range does not survive a trip through `int64`. -/
def toUint64 (n : ℤ) : ℕ := toUnsigned64 n

def toInt8 (n : ℤ) : ℤ := lowBitsSigned 8 n

def toInt64 (n : ℤ) : ℤ := numInt64 n

theorem toUint32_lt (n : ℤ) : toUint32 n < 2 ^ 32 := lowBits_lt 32 n

theorem toUint32_natCast {n : ℕ} (h : n < 2 ^ 32) : toUint32 n = n :=
  lowBits_natCast h (by decide)

/-- `u16Unavailable`: absent, or too large to express. -/
def u16Unavailable : ℕ := 0xFFFF

/-- The optional order count.  The parser omits the key for the sentinel, so an absent key
reads as the sentinel and not as zero, which is a real count. -/
def orderCountFrom (f : Fields) : ℕ :=
  match f.orderCount with
  | none => u16Unavailable
  | some n => toUint16 n

/-- Outside both wire enumerations, so neither can collide with a real value. -/
def clearSideReserved : ℕ := 0xff

def scopeReserved : ℕ := 0xff

def clearSideFromString : ClearSideName → ℕ
  | .bid => 0
  | .ask => 1
  | .both => 2
  | .other => clearSideReserved

def scopeFromString : ScopeName → ℕ
  | .entireSide => 0
  | .fromPrice => 1
  | .other => scopeReserved

def actionFromString : ActionName → ℕ
  | .new => 1
  | .change => 2
  | .delete => 3
  | .other => 0

/-! ## Reading a record -/

namespace Record

/-- `toUint32(rec.Fields["per_instrument_seq"])`. -/
def perInstrumentSeq (rec : Record) : ℕ := toUint32 rec.fields.perInstrumentSeq

/-- The publisher's send timestamp, in nanoseconds. -/
def sendTime (rec : Record) : ℕ := rec.sendTSNS

theorem perInstrumentSeq_lt (rec : Record) : rec.perInstrumentSeq < 2 ^ 32 := toUint32_lt _

/-- The two record types that carry a book mutation. -/
def isDelta (rec : Record) : Bool := rec.type = .levelUpdate || rec.type = .bookClear

end Record

end EdgeMulticast.MarketByPrice
