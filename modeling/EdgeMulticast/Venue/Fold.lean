import EdgeMulticast.Recorder.Book
import EdgeMulticast.Refdata.Definition
import EdgeMulticast.Uds.Record

/-!
# The venue's own book

`derive.rs` (`dz-recorder-venue`): the book that is derived from a venue's upstream, by the adapter
that its publisher runs.  `Fold` is both sinks of an adapter: the listings mint handles over the
exponents they state, and the events move the book that a handle names.

A top change writes a row.  The object and the feed that a row names are those of the call, and are
left out; the six columns of a top are the top.
-/

namespace EdgeMulticast.Venue

open Std (ExtTreeMap)
open EdgeMulticast.Lib
open EdgeMulticast.Lowering (ClearScope Desync InstrumentRef Scalar priceAt qtyAt)
open EdgeMulticast.Recorder (Top bookKey)
open EdgeMulticast.Refdata (InstrumentSpec)
open EdgeMulticast.Uds (Event SideUpdate)

/-- What rests at one price, with the count of a quote and without one for a level. -/
structure Resting where
  qtyRaw : ℕ
  sourceCount : Option ℕ
deriving DecidableEq, Repr

/-- One side of a book, keyed by raw price. -/
abbrev Levels := ExtTreeMap ℤ Resting

/-- One instrument that was offered, and the book that is held for it. -/
structure Instrument where
  symbol : List Byte
  priceExp : Int8
  qtyExp : Int8
  top : Top := {}
  bids : Levels := ∅
  asks : Levels := ∅
  /-- Whether anything has been applied. -/
  established : Bool := false
  /-- Whether the adapter has withdrawn this listing. -/
  delisted : Bool := false

structure VenueBookTop where
  recvTs : ℕ
  connection : List Byte
  upstreamSid : Option UInt64
  upstreamSeq : Option UInt64
  symbol : List Byte
  priceExp : Int8
  qtyExp : Int8
  top : Top
  bookKey : UInt64
  messageIndex : ℕ
  changeIndex : ℕ
deriving DecidableEq

/-! ## One instrument -/

/-- The side an update states at the exponents, or nothing when they cannot state it. -/
def sideOf (update : SideUpdate) (priceExp qtyExp : Int8) : Option Recorder.Side :=
  match update with
  | .gone => some {}
  | .present px qty sourceCount => do
      let priceRaw ← (priceAt px priceExp).toOption
      let qtyRaw ← (qtyAt qty qtyExp).toOption
      return ⟨some priceRaw, some qtyRaw.toNat,
        (sourceCount.map UInt16.toNat).filter fun count ↦ decide (count ≠ 0)⟩

/-- The side that an entry of a book's levels states. -/
def sideAt : Option (ℤ × Resting) → Recorder.Side
  | some (px, resting) => ⟨some px, some resting.qtyRaw, resting.sourceCount⟩
  | none => {}

/-- The one level that a quote states for a side, in place of the levels there were. -/
def seedSide (side : Recorder.Side) : Levels :=
  match side.priceRaw, side.qtyRaw with
  | some priceRaw, some qtyRaw => (∅ : Levels).insert priceRaw ⟨qtyRaw, side.sourceCount⟩
  | _, _ => ∅

/-- A level is absolute, and a quantity of zero removes it. -/
def applyLevel (levels : Levels) (px : ℤ) (qty : ℕ) : Levels :=
  if qty = 0 then levels.erase px else levels.insert px ⟨qty, none⟩

namespace Instrument

variable (held : Instrument)

/-- The top that the levels state, whichever event established them. -/
def topOfLevels : Top := ⟨sideAt held.bids.toList.getLast?, sideAt held.asks.toList.head?⟩

/-- The book that a quote states. -/
def quote (bid ask : Recorder.Side) : Instrument :=
  { held with bids := seedSide bid, asks := seedSide ask }

def level (side : Lowering.Side) (px : ℤ) (qty : ℕ) : Instrument :=
  match side with
  | .bid => { held with bids := applyLevel held.bids px qty }
  | .ask => { held with asks := applyLevel held.asks px qty }

/-- The levels a clear leaves, or nothing when its price cannot be stated. -/
def clear : ClearScope → Option Instrument
  | .bothSides => some { held with bids := ∅, asks := ∅ }
  | .entireSide .bid => some { held with bids := ∅ }
  | .entireSide .ask => some { held with asks := ∅ }
  -- outward from the price, inclusive
  | .fromPrice side px => do
      let bound ← (priceAt px held.priceExp).toOption
      return match side with
        | .bid => { held with bids := held.bids.filter fun price _ ↦ decide (bound < price) }
        | .ask => { held with asks := held.asks.filter fun price _ ↦ decide (price < bound) }

/-- The listing after it is withdrawn: its book is emptied, and its symbol and exponents stay. -/
def withdrawn : Instrument :=
  { held with bids := ∅, asks := ∅, top := {}, established := false, delisted := true }

end Instrument

/-! ## The fold -/

structure Fold where
  instruments : List Instrument := []
  /-- The listing a symbol resolves to. -/
  bySymbol : ExtTreeMap (List Byte) UInt32 := ∅
  rows : List VenueBookTop := []
  messageIndex : ℕ := 0
  /-- Top changes written for the record being read. -/
  changeIndex : ℕ := 0
  connection : List Byte := []
  recvTsNs : ℕ := 0
  /-- In force until the next upstream message. -/
  identity : Option (Option UInt64 × Option UInt64) := none
  /-- The payload that is being mapped. -/
  inPayload : Option ℕ := none
  messageCount : ℕ := 0
  eventCount : ℕ := 0
  unpricedCount : ℕ := 0
  unknownInstrumentCount : ℕ := 0
  desyncCount : ℕ := 0
  unattributedCount : ℕ := 0
  refusals : ExtTreeMap String ℕ := ∅
  refusedCount : ℕ := 0

namespace Fold

variable (f : Fold)

def beginMessage (index : ℕ) (connection : List Byte) (recvTsNs : ℕ) : Fold :=
  { f with messageIndex := index, changeIndex := 0, connection := connection
           recvTsNs := recvTsNs, identity := none, messageCount := f.messageCount + 1 }

def endMessage : Fold := { f with identity := none }

def refuse (reason : String) : Fold :=
  { f with refusedCount := f.refusedCount + 1
           refusals := f.refusals.insert reason ((f.refusals[reason]?).getD 0 + 1) }

/-- The row of a top change. -/
def row (held : Instrument) : VenueBookTop :=
  let identity := f.identity.getD (none, none)
  { recvTs := f.recvTsNs
    connection := f.connection
    upstreamSid := identity.1
    upstreamSeq := identity.2
    symbol := held.symbol
    priceExp := held.priceExp
    qtyExp := held.qtyExp
    top := held.top
    bookKey := bookKey held.top
    messageIndex := f.messageIndex
    changeIndex := f.changeIndex }

/-- Write a row if the top moved. -/
def settle (handle : ℕ) (was : Top) : Fold :=
  match f.instruments[handle]? with
  | none => f
  | some held =>
      if held.delisted then f
      else if held.top = was then f
      else if !held.established && decide (held.top = {}) then f
      else { f with rows := f.rows ++ [f.row held], changeIndex := f.changeIndex + 1 }

def listOn (spec : InstrumentSpec) : Fold × Option InstrumentRef :=
  match f.bySymbol[spec.symbol]? with
  | some handle => (f, some ⟨handle⟩)
  | none =>
      let handle := f.instruments.length
      if 2 ^ 32 ≤ handle then (f, none)
      else
        ({ f with
            instruments := f.instruments ++
              [{ symbol := spec.symbol, priceExp := spec.priceExponent, qtyExp := spec.qtyExponent }]
            bySymbol := f.bySymbol.insert spec.symbol (UInt32.ofNat handle) },
          some ⟨UInt32.ofNat handle⟩)

/-- The symbol stops resolving to the handle, unless it is another listing's by now. -/
def delist (h : InstrumentRef) : Fold :=
  match f.instruments[h.index.toNat]? with
  | none => f
  | some held =>
      let f := { f with instruments := f.instruments.set h.index.toNat held.withdrawn }
      if f.bySymbol[held.symbol]? = some h.index then
        { f with bySymbol := f.bySymbol.erase held.symbol }
      else f

def upstreamMessage : Fold := { f with identity := none }

def upstreamIdentity (sid seq : Option UInt64) : Fold := { f with identity := some (sid, seq) }

def payloadScope (recvTsNs : Option ℕ) : Fold := { f with inPayload := recvTsNs }

def desynchronised (_ : InstrumentRef) (_ : Desync) : Fold :=
  { f with desyncCount := f.desyncCount + 1 }

/-- The book of a handle after an event that moved its levels. -/
def moved (handle : ℕ) (was : Top) (held : Instrument) : Fold :=
  let held := { held with established := true, top := held.topOfLevels }
  { f with instruments := f.instruments.set handle held }.settle handle was

def unpriced : Fold := { f with unpricedCount := f.unpricedCount + 1 }

/-- The levels after an event, or nothing when a number of it cannot be stated. -/
def levelsAfter (held : Instrument) : Event → Option Instrument
  | .quote _ _ bid ask _ => do
      let bid ← sideOf bid held.priceExp held.qtyExp
      let ask ← sideOf ask held.priceExp held.qtyExp
      return held.quote bid ask
  | .level _ _ side px qty _ _ => do
      let px ← (priceAt px held.priceExp).toOption
      let qty ← (qtyAt qty held.qtyExp).toOption
      return held.level side px qty.toNat
  | .clear _ _ scope => held.clear scope
  | .trade .. => some held

/-- The handle of an event that moves a book. -/
def bookHandle : Event → Option InstrumentRef
  | .quote h .. => some h
  | .level h .. => some h
  | .clear h .. => some h
  | .trade .. => none

def event (e : Event) : Fold :=
  if f.inPayload.isNone then { f with unattributedCount := f.unattributedCount + 1 }
  else
    let f := { f with eventCount := f.eventCount + 1 }
    match bookHandle e with
    -- a trade moves no book
    | none => f
    | some h =>
        match f.instruments[h.index.toNat]? with
        | none => { f with unknownInstrumentCount := f.unknownInstrumentCount + 1 }
        | some held =>
            match levelsAfter held e with
            | none => f.unpriced
            | some held' => f.moved h.index.toNat held.top held'

/-! ## What the operations leave alone -/

/-- Settling writes the row of a top that moved, for a listing that stands, or does nothing. -/
theorem settle_cases (handle : ℕ) (was : Top) :
    f.settle handle was = f ∨
      ∃ held, f.instruments[handle]? = some held ∧ held.delisted = false ∧ held.top ≠ was ∧
        f.settle handle was =
          { f with rows := f.rows ++ [f.row held], changeIndex := f.changeIndex + 1 } := by
  rw [settle]
  split
  next => exact .inl rfl
  next held hheld =>
    split
    next => exact .inl rfl
    next hdelisted =>
      split
      next => exact .inl rfl
      next hwas =>
        split
        next => exact .inl rfl
        next => exact .inr ⟨held, hheld, Bool.eq_false_of_not_eq_true hdelisted, hwas, rfl⟩

@[simp] theorem settle_instruments (handle : ℕ) (was : Top) :
    (f.settle handle was).instruments = f.instruments := by
  rcases f.settle_cases handle was with h | ⟨held, _, _, _, h⟩ <;> rw [h]

@[simp] theorem settle_inPayload (handle : ℕ) (was : Top) :
    (f.settle handle was).inPayload = f.inPayload := by
  rcases f.settle_cases handle was with h | ⟨held, _, _, _, h⟩ <;> rw [h]

variable {f}

/-- An event of a payload that its instrument can state replaces the book of its handle. -/
theorem event_eq_moved {e : Event} {h : InstrumentRef} {held held' : Instrument}
    (hpayload : f.inPayload.isSome) (hhandle : bookHandle e = some h)
    (hheld : f.instruments[h.index.toNat]? = some held) (hlevels : levelsAfter held e = some held') :
    f.event e = { f with eventCount := f.eventCount + 1 }.moved h.index.toNat held.top held' := by
  have hopen : ¬f.inPayload.isNone = true := by
    rw [Option.isNone_eq_false_iff.mpr hpayload]
    exact Bool.false_ne_true
  rw [event, if_neg hopen]
  dsimp only
  rw [hhandle]
  dsimp only
  rw [hheld]
  dsimp only
  rw [hlevels]

@[simp] theorem moved_inPayload (handle : ℕ) (was : Top) (held : Instrument) :
    (f.moved handle was held).inPayload = f.inPayload := settle_inPayload ..

theorem getElem?_moved {handle : ℕ} {old : Instrument} (hold : f.instruments[handle]? = some old)
    (was : Top) (held : Instrument) :
    (f.moved handle was held).instruments[handle]? =
      some { held with established := true, top := held.topOfLevels } := by
  rw [moved, settle_instruments, List.getElem?_set_self (List.getElem?_eq_some_iff.mp hold).1]

end Fold

end EdgeMulticast.Venue
