import EdgeMulticast.MarketByOrder.Record

/-!
# One instrument of the market-by-order book-builder

`instrument.go`: the resting orders, the state-machine position and the snapshot shadow of one
`(channel_id, instrument_id)`.  Every method that mutates the receiver returns the new
instrument.  `Pending` is optional because the source tells a nil map from an empty one.
-/

namespace EdgeMulticast.MarketByOrder

open Std (ExtTreeMap)

structure RestingOrder where
  orderID : ℕ
  side : ℕ
  flags : ℕ
  enterTS : ℕ
  price : ℤ
  quantity : ℕ
deriving DecidableEq, Repr

/-- One side of a book, keyed by Order ID. -/
abbrev Orders := ExtTreeMap ℕ RestingOrder

/-- The shadow built between a begin and an end. -/
structure PendingSnapshot where
  snapshotID : ℕ
  anchorSeq : ℕ
  totalOrders : ℕ
  lastInstrumentSeq : ℕ
  receivedOrders : ℕ
  bids : Orders
  asks : Orders

structure Instrument where
  id : ℕ
  symbol : String
  priceExponent : ℤ
  qtyExponent : ℤ
  status : InstrumentStatus
  bids : Orders
  asks : Orders
  lastAppliedMktdataSeq : ℕ
  lastAppliedInstrumentSeq : ℕ
  openSnapshot : Option PendingSnapshot
  /-- Out-of-order deltas, keyed by Per-Instrument Seq. -/
  pending : Option (ExtTreeMap ℕ Record)

namespace Instrument

def new (id : ℕ) (symbol : String) (priceExp qtyExp : ℤ) : Instrument where
  id := id
  symbol := symbol
  priceExponent := priceExp
  qtyExponent := qtyExp
  status := .awaitingSnapshot
  bids := ∅
  asks := ∅
  lastAppliedMktdataSeq := 0
  lastAppliedInstrumentSeq := 0
  openSnapshot := none
  pending := none

/-! ## Orders -/

def applyOrderAdd (i : Instrument) (orderID side flags enterTS : ℕ) (price : ℤ) (qty : ℕ) :
    Instrument :=
  let o : RestingOrder := ⟨orderID, side, flags, enterTS, price, qty⟩
  if side = 0 then { i with bids := i.bids.insert orderID o }
  else { i with asks := i.asks.insert orderID o }

/-- A cancel for an order that is not resting is dropped. -/
def applyOrderCancel (i : Instrument) (orderID : ℕ) : Instrument :=
  { i with bids := i.bids.erase orderID, asks := i.asks.erase orderID }

/-- Whether the full-fill bit of the execution flags is set. -/
def fullFill (execFlags : ℕ) : Bool := execFlags % 2 = 1

/-- One execution against an order of a side. -/
def applyExecToOrder (book : Orders) (o : RestingOrder) (execFlags execQty : ℕ) : Orders :=
  if fullFill execFlags then book.erase o.orderID
  else
    let quantity := if o.quantity ≤ execQty then 0 else o.quantity - execQty
    -- the order is held by pointer, so the map sees the new quantity
    let book := book.insert o.orderID { o with quantity := quantity }
    if quantity = 0 then book.erase o.orderID else book

/-- An execution against an order that is not resting is dropped. -/
def applyOrderExecute (i : Instrument) (orderID execFlags execQty : ℕ) : Instrument :=
  match i.bids[orderID]? with
  | some o => { i with bids := applyExecToOrder i.bids o execFlags execQty }
  | none =>
      match i.asks[orderID]? with
      | some o => { i with asks := applyExecToOrder i.asks o execFlags execQty }
      | none => i

/-! ## Snapshots -/

/-- Open a shadow.  Status and the live book are untouched. -/
def beginSnapshot (i : Instrument) (snapID anchorSeq totalOrders lastInstrSeq : ℕ) : Instrument :=
  let shadow : PendingSnapshot :=
    { snapshotID := snapID, anchorSeq := anchorSeq, totalOrders := totalOrders
      lastInstrumentSeq := lastInstrSeq, receivedOrders := 0, bids := ∅, asks := ∅ }
  { i with openSnapshot := some shadow }

end Instrument

/-- File one order into the shadow and count the record. -/
def PendingSnapshot.addOrder (p : PendingSnapshot) (o : RestingOrder) : PendingSnapshot :=
  if o.side = 0 then
    { p with bids := p.bids.insert o.orderID o
             receivedOrders := (p.receivedOrders + 1) % 2 ^ 32 }
  else
    { p with asks := p.asks.insert o.orderID o
             receivedOrders := (p.receivedOrders + 1) % 2 ^ 32 }

namespace Instrument

/-- The flag says whether the order was added. -/
def addSnapshotOrder (i : Instrument) (snapID orderID side flags enterTS : ℕ) (price : ℤ)
    (qty : ℕ) : Instrument × Bool :=
  match i.openSnapshot with
  | none => (i, false)
  | some p =>
      if p.snapshotID ≠ snapID then (i, false)
      else
        ({ i with openSnapshot := some (p.addOrder ⟨orderID, side, flags, enterTS, price, qty⟩) },
          true)

end Instrument

/-- Why a snapshot was not committed. -/
inductive SnapshotError where
  | mismatch | short | noOpenSnapshot
deriving DecidableEq, Repr

namespace Instrument

/-- The commit at the end of `EndSnapshot`.  `Pending` stays as it is. -/
def commitSnapshot (i : Instrument) (p : PendingSnapshot) : Instrument :=
  { i with bids := p.bids, asks := p.asks
           openSnapshot := none
           status := .ready
           lastAppliedMktdataSeq := p.anchorSeq
           lastAppliedInstrumentSeq := p.lastInstrumentSeq }

/-- Validate and commit the shadow.  On any failure only the shadow is discarded. -/
def endSnapshot (i : Instrument) (snapID anchorSeq : ℕ) : Instrument × Option SnapshotError :=
  match i.openSnapshot with
  | none => (i, some .noOpenSnapshot)
  | some p =>
      if p.snapshotID ≠ snapID ∨ p.anchorSeq ≠ anchorSeq then
        ({ i with openSnapshot := none }, some .mismatch)
      else if p.receivedOrders ≠ p.totalOrders then
        ({ i with openSnapshot := none }, some .short)
      else (i.commitSnapshot p, none)

/-- Discard the book and the shadow and await a snapshot. -/
def reset (i : Instrument) : Instrument :=
  { i with bids := ∅, asks := ∅
           openSnapshot := none
           pending := none
           status := .awaitingSnapshot
           lastAppliedMktdataSeq := 0
           lastAppliedInstrumentSeq := 0 }

end Instrument

end EdgeMulticast.MarketByOrder
