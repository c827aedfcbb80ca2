import EdgeMulticast.Lib.Narrow
import EdgeMulticast.Shared

/-!
# The record envelope of the market-by-order book-builder

`record.go` and the coercion helpers of `shard.go`.

The decoder of this book-builder makes every number in the bag a double.  Each numeric field
of the parser is an integer, so a field here holds the integer that its double denotes; the
zero that a helper answers for an absent key is the default.
-/

namespace EdgeMulticast.MarketByOrder

open EdgeMulticast.Lib

/-- The record types a shard dispatches on. -/
inductive RecordType where
  | instrumentDefinition
  | snapshotBegin | snapshotOrder | snapshotEnd
  | orderAdd | orderCancel | orderExecute
  | instrumentReset
  | trade
  | other
deriving DecidableEq, Repr

/-- The fields of a record, under the parser's names. -/
structure Fields where
  -- deltas and snapshot orders
  perInstrumentSeq : ℤ := 0
  orderId : ℤ := 0
  side : SideName := .other
  orderFlags : ℤ := 0
  enterTs : ℕ := 0
  priceRaw : ℤ := 0
  qtyRaw : ℤ := 0
  execFlags : ℤ := 0
  execQtyRaw : ℤ := 0
  -- snapshot groups and resets
  snapshotId : ℤ := 0
  anchorSeq : ℤ := 0
  totalOrders : ℤ := 0
  lastInstrumentSeq : ℤ := 0
  newAnchorSeq : ℤ := 0
  -- reference data
  symbol : String := ""
  priceExponent : ℤ := 0
  qtyExponent : ℤ := 0
deriving DecidableEq, Repr

structure Record where
  type : RecordType
  channelID : ℕ := 0
  sequenceNumber : ℕ := 0
  instrumentID : ℕ := 0
  fields : Fields := {}
deriving DecidableEq, Repr

/-! ## Coercion helpers -/

def toUint8 (n : ℤ) : ℕ := lowBits 8 n

def toUint32 (n : ℤ) : ℕ := lowBits 32 n

def toUint64 (n : ℤ) : ℕ := toUnsigned64 n

def toInt8 (n : ℤ) : ℤ := lowBitsSigned 8 n

def toInt64 (n : ℤ) : ℤ := toSigned64 n

theorem toUint32_lt (n : ℤ) : toUint32 n < 2 ^ 32 := lowBits_lt 32 n

theorem toUint32_natCast {n : ℕ} (h : n < 2 ^ 32) : toUint32 n = n :=
  lowBits_natCast h (by decide)

namespace Record

/-- `toUint32(rec.Fields["per_instrument_seq"])`. -/
def perInstrumentSeq (rec : Record) : ℕ := toUint32 rec.fields.perInstrumentSeq

/-- `toUint32(rec.Fields["snapshot_id"])`. -/
def snapshotID (rec : Record) : ℕ := toUint32 rec.fields.snapshotId

/-- `toUint64(rec.Fields["order_id"])`. -/
def orderID (rec : Record) : ℕ := toUint64 rec.fields.orderId

/-- The key `apply` files a record under. -/
def key (rec : Record) : InstKey := ⟨rec.channelID, rec.instrumentID⟩

theorem perInstrumentSeq_lt (rec : Record) : rec.perInstrumentSeq < 2 ^ 32 := toUint32_lt _

/-- The record types that carry a book mutation. -/
def isDelta (rec : Record) : Bool :=
  rec.type = .orderAdd || rec.type = .orderCancel || rec.type = .orderExecute

end Record

end EdgeMulticast.MarketByOrder
