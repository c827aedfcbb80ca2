import EdgeMulticast.Uds.Record

/-!
# The lowering of the top of the book

`tob.rs` (`dz-publisher-lowering`): a quote of an adapter, lowered onto the one message of the
top-of-book feed that has two sides.
-/

namespace EdgeMulticast.Lowering

open EdgeMulticast.Lib
open EdgeMulticast.Codec
open EdgeMulticast.Uds (SideUpdate)

def QUOTE_BID_UPDATED : Byte := 0x01

def QUOTE_ASK_UPDATED : Byte := 0x02

def QUOTE_BID_GONE : Byte := 0x04

def QUOTE_ASK_GONE : Byte := 0x08

/-- One side of a quote, at the wire's exponents, with its flag bit. -/
structure LoweredSide where
  price : ℤ
  qty : ℤ
  sourceCount : UInt16
  flag : Byte
deriving DecidableEq

/-- The flag bits and the field names of one side. -/
structure Sides where
  updated : Byte
  gone : Byte
  priceField : String
  qtyField : String

def Sides.bid : Sides := ⟨QUOTE_BID_UPDATED, QUOTE_BID_GONE, "bid_price", "bid_qty"⟩

def Sides.ask : Sides := ⟨QUOTE_ASK_UPDATED, QUOTE_ASK_GONE, "ask_price", "ask_qty"⟩

/-- A side that is gone is written as zeros, and the flag says what they mean. -/
def lowerSide (inst : Instrument) (side : SideUpdate) (wire : Sides) :
    Except LoweringError LoweredSide :=
  match side with
  | .gone => .ok ⟨0, 0, 0, wire.gone⟩
  | .present px qty sourceCount => do
      let price ← priceFor inst px wire.priceField
      let qty ← qtyFor inst qty wire.qtyField
      return ⟨price, qty, sourceCount.getD 0, wire.updated⟩

def lowerQuote (sourceId : SourceId) (instruments : InstrumentTable) (instrument : InstrumentRef)
    (sourceTsNs : UInt64) (bid ask : SideUpdate) (venueUpdateId : Option UInt64) :
    Except LoweringError Quote := do
  let inst ← instruments.get instrument
  let bid ← lowerSide inst bid .bid
  let ask ← lowerSide inst ask .ask
  return {
    instrumentId := inst.instrumentId
    sourceId := sourceId.value
    updateFlags := bid.flag ||| ask.flag
    sourceTimestampNs := sourceTsNs
    bidPrice := Int64.ofInt bid.price
    bidQty := UInt64.ofNat bid.qty.toNat
    askPrice := Int64.ofInt ask.price
    askQty := UInt64.ofNat ask.qty.toNat
    bidSourceCount := bid.sourceCount
    askSourceCount := ask.sourceCount
    -- the low 32 bits of the venue's counter
    venueUpdateId := (venueUpdateId.getD 0).toUInt32 }

/-! ## What is lowered -/

variable {inst : Instrument} {side : SideUpdate} {wire : Sides} {s : LoweredSide}

/-- A side is lowered to zeros where it is gone, and to its number at the exponents otherwise. -/
theorem lowerSide_cases (h : lowerSide inst side wire = .ok s) :
    (side = .gone ∧ s = ⟨0, 0, 0, wire.gone⟩) ∨
      ∃ px qty count price qtyRaw, side = .present px qty count ∧
        priceFor inst px wire.priceField = .ok price ∧ qtyFor inst qty wire.qtyField = .ok qtyRaw ∧
        s = ⟨price, qtyRaw, count.getD 0, wire.updated⟩ := by
  cases side with
  | gone => exact .inl ⟨rfl, (Except.ok.inj h).symm⟩
  | present px qty count =>
      obtain ⟨price, hprice, h⟩ := bind_eq_ok.mp h
      obtain ⟨qtyRaw, hqty, h⟩ := bind_eq_ok.mp h
      exact .inr ⟨px, qty, count, price, qtyRaw, rfl, hprice, hqty, (Except.ok.inj h).symm⟩

theorem lowerQuote_eq_ok {sourceId : SourceId} {instruments : InstrumentTable} {h : InstrumentRef}
    {sourceTsNs : UInt64} {bid ask : SideUpdate} {venueUpdateId : Option UInt64} {q : Quote}
    (hget : instruments.get h = .ok inst)
    (hq : lowerQuote sourceId instruments h sourceTsNs bid ask venueUpdateId = .ok q) :
    ∃ b a, lowerSide inst bid .bid = .ok b ∧ lowerSide inst ask .ask = .ok a ∧
      q.instrumentId = inst.instrumentId ∧
      q.bidPrice = Int64.ofInt b.price ∧ q.bidQty = UInt64.ofNat b.qty.toNat ∧
      q.bidSourceCount = b.sourceCount ∧
      q.askPrice = Int64.ofInt a.price ∧ q.askQty = UInt64.ofNat a.qty.toNat ∧
      q.askSourceCount = a.sourceCount := by
  rw [lowerQuote] at hq
  obtain ⟨found, hfound, hq⟩ := bind_eq_ok.mp hq
  rw [hget] at hfound
  cases hfound
  obtain ⟨b, hb, hq⟩ := bind_eq_ok.mp hq
  obtain ⟨a, ha, hq⟩ := bind_eq_ok.mp hq
  cases hq
  exact ⟨b, a, hb, ha, rfl, rfl, rfl, rfl, rfl, rfl, rfl⟩

end EdgeMulticast.Lowering
