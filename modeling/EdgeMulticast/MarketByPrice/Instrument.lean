import EdgeMulticast.Lib.FiniteMap
import EdgeMulticast.MarketByPrice.Record
import Mathlib.Data.Finset.Card

/-!
# One instrument of the market-by-price book-builder

`instrument.go`: the book, the state-machine position and the snapshot shadow of one
`(channel_id, instrument_id)`.  Every method that mutates the receiver returns the new
instrument; a method that returns an `error` returns `none` for `nil`.

`Pending` is optional because the source tells a nil map from an empty one, and
`LostInstrumentSeq` is a finite set: it is read by membership only, where nil and empty
agree.
-/

namespace EdgeMulticast.MarketByPrice

open Std

/-- One aggregated price level.  The quantity is absolute. -/
structure LevelState where
  qtyRaw : ℕ
  orderCount : ℕ
  flags : ℕ
deriving DecidableEq, Repr

/-- One side of a book, keyed by raw price. -/
abbrev Book := ExtTreeMap ℤ LevelState

/-- The shadow built between a begin and an end.  It is never the live book. -/
structure PendingSnapshot where
  snapshotID : ℕ
  anchorSeq : ℕ
  totalLevels : ℕ
  lastInstrumentSeq : ℕ
  depthBound : ℕ
  receivedLevels : ℕ
  bids : Book
  asks : Book

/-- The identity a begin establishes for the group of levels behind it. -/
structure SnapshotGroup where
  snapshotID : ℕ
  anchorSeq : ℕ
  totalLevels : ℕ
  lastInstrumentSeq : ℕ
  depthBound : ℕ
deriving DecidableEq, Repr

structure Instrument where
  id : ℕ
  symbol : String
  priceExponent : ℤ
  qtyExponent : ℤ
  status : InstrumentStatus
  bids : Book
  asks : Book
  /-- `none` is unknown, `some 0` a complete book, `some n` bounded at `n` levels per side. -/
  depthBound : Option ℕ
  lastAppliedMktdataSeq : ℕ
  lastAppliedInstrumentSeq : ℕ
  lastAppliedSendTS : Option ℕ
  requiredAnchorSeq : Option ℕ
  /-- The Per-Instrument Seq a recovery snapshot must cover, set on every demotion. -/
  requiredInstrumentSeq : Option ℕ
  openSnapshot : Option PendingSnapshot
  /-- Out-of-order deltas, keyed by Per-Instrument Seq. -/
  pending : Option (ExtTreeMap ℕ Record)
  /-- Per-Instrument Seqs consumed by a message that will never be applied. -/
  lostInstrumentSeq : Finset ℕ
  lastBegin : Option SnapshotGroup

namespace Instrument

def new (id : ℕ) (symbol : String) (priceExp qtyExp : ℤ) : Instrument where
  id := id
  symbol := symbol
  priceExponent := priceExp
  qtyExponent := qtyExp
  status := .awaitingSnapshot
  bids := ∅
  asks := ∅
  depthBound := none
  lastAppliedMktdataSeq := 0
  lastAppliedInstrumentSeq := 0
  lastAppliedSendTS := none
  requiredAnchorSeq := none
  requiredInstrumentSeq := none
  openSnapshot := none
  pending := none
  lostInstrumentSeq := ∅
  lastBegin := none

/-! ## The absolute-quantity rule -/

/-- The side a wire byte names: one is the asks, anything else the bids. -/
def side (i : Instrument) (s : ℕ) : Book := if s = 1 then i.asks else i.bids

def setSide (i : Instrument) (s : ℕ) (b : Book) : Instrument :=
  if s = 1 then { i with asks := b } else { i with bids := b }

inductive DivergenceKind where
  | newOnPresent | changeOnAbsent | deleteNonzeroQty | zeroQtyBadAction
deriving DecidableEq, Repr

/-- The disagreements between a level update and the book it finds.  The four conditions are
independent, so one message can break two of them. -/
def levelUpdateDivergence (present : Bool) (qtyRaw action : ℕ) : List DivergenceKind :=
  (if qtyRaw = 0 ∧ action ≠ 3 then [.zeroQtyBadAction] else []) ++
  (if qtyRaw ≠ 0 ∧ action = 3 then [.deleteNonzeroQty] else []) ++
  (if action = 1 ∧ present then [.newOnPresent] else []) ++
  (if action = 2 ∧ ¬present then [.changeOnAbsent] else [])

/-- One level update.  The action never gates the apply. -/
def applyLevelUpdate (i : Instrument) (sideByte : ℕ) (priceRaw : ℤ)
    (qtyRaw orderCount flags action : ℕ) : Instrument × List DivergenceKind :=
  let book := i.side sideByte
  let div := levelUpdateDivergence (decide (priceRaw ∈ book)) qtyRaw action
  if qtyRaw = 0 then
    (i.setSide sideByte (book.erase priceRaw), div)
  else
    (i.setSide sideByte (book.insert priceRaw ⟨qtyRaw, orderCount, flags⟩), div)

end Instrument

/-- Why a book-affecting message is malformed. -/
inductive MalformedError where
  | bookClearReserved | bookClearScopeSide
deriving DecidableEq, Repr

/-- The rule a book clear breaks, if any.  It reads the message alone, so a record can be
classified the moment it arrives. -/
def bookClearMalformed (clearSide scope : ℕ) : Option MalformedError :=
  if 2 < clearSide ∨ 1 < scope then some .bookClearReserved
  else if scope = 1 ∧ clearSide = 2 then some .bookClearScopeSide
  else none

namespace Instrument

/-- The levels of one side that a clear leaves: none under scope zero, and otherwise those
strictly inside the named price. -/
def clearBook (scope : ℕ) (fromPriceRaw : ℤ) (isBid : Bool) (book : Book) : Book :=
  if scope = 0 then ∅
  else book.filter fun p _ ↦
    !((isBid && decide (p ≤ fromPriceRaw)) || (!isBid && decide (fromPriceRaw ≤ p)))

def applyBookClear (i : Instrument) (clearSide scope : ℕ) (fromPriceRaw : ℤ) :
    Instrument × Option MalformedError :=
  match bookClearMalformed clearSide scope with
  | some err => (i, some err)
  | none =>
      let i := if clearSide = 0 ∨ clearSide = 2 then
        { i with bids := clearBook scope fromPriceRaw true i.bids } else i
      let i := if clearSide = 1 ∨ clearSide = 2 then
        { i with asks := clearBook scope fromPriceRaw false i.asks } else i
      (i, none)

/-! ## Lost sequence numbers -/

/-- The walk of `NextExpectedInstrumentSeq` past the lost numbers. -/
def skipLost (lost : Finset ℕ) : ℕ → ℕ → ℕ
  | 0, expected => expected
  | fuel + 1, expected =>
      if expected ∈ lost then skipLost lost fuel ((expected + 1) % 2 ^ 32) else expected

/-- The Per-Instrument Seq the instrument is waiting for.  Each round of the walk passes one
lost number, so as many rounds as there are numbers suffice. -/
def nextExpectedInstrumentSeq (i : Instrument) : ℕ :=
  skipLost i.lostInstrumentSeq i.lostInstrumentSeq.card
    ((i.lastAppliedInstrumentSeq + 1) % 2 ^ 32)

def markInstrumentSeqLost (i : Instrument) (seq : ℕ) : Instrument :=
  { i with lostInstrumentSeq := insert seq i.lostInstrumentSeq }

/-- Drop the lost numbers the tracker has moved past. -/
def pruneLostInstrumentSeq (i : Instrument) : Instrument :=
  { i with lostInstrumentSeq := i.lostInstrumentSeq.filter (i.lastAppliedInstrumentSeq < ·) }

/-- Recovery needs a snapshot captured at or after `instrSeq`.  The requirement never drops. -/
def requireSnapshotAtLeast (i : Instrument) (instrSeq : ℕ) : Instrument :=
  match i.requiredInstrumentSeq with
  | some r => if instrSeq ≤ r then i else { i with requiredInstrumentSeq := some instrSeq }
  | none => { i with requiredInstrumentSeq := some instrSeq }

/-! ## Snapshots -/

/-- Open a shadow.  Status and the live book are untouched. -/
def beginSnapshot (i : Instrument) (snapID anchorSeq totalLevels lastInstrSeq depthBound : ℕ) :
    Instrument :=
  let shadow : PendingSnapshot :=
    { snapshotID := snapID, anchorSeq := anchorSeq, totalLevels := totalLevels
      lastInstrumentSeq := lastInstrSeq, depthBound := depthBound, receivedLevels := 0
      bids := ∅, asks := ∅ }
  { i with openSnapshot := some shadow }

inductive SnapshotLevelResult where
  | added | noOpenShadow | mismatch
deriving DecidableEq, Repr

end Instrument

/-- File one level into the shadow and count the record. -/
def PendingSnapshot.addLevel (p : PendingSnapshot) (sideByte : ℕ) (priceRaw : ℤ)
    (l : LevelState) : PendingSnapshot :=
  if sideByte = 1 then
    { p with asks := p.asks.insert priceRaw l
             receivedLevels := (p.receivedLevels + 1) % 2 ^ 32 }
  else
    { p with bids := p.bids.insert priceRaw l
             receivedLevels := (p.receivedLevels + 1) % 2 ^ 32 }

namespace Instrument

def addSnapshotLevel (i : Instrument) (snapID sideByte : ℕ) (priceRaw : ℤ)
    (qtyRaw orderCount flags : ℕ) : Instrument × SnapshotLevelResult :=
  match i.openSnapshot with
  | none => (i, .noOpenShadow)
  | some p =>
      if p.snapshotID ≠ snapID then (i, .mismatch)
      else
        let p := p.addLevel sideByte priceRaw ⟨qtyRaw, orderCount, flags⟩
        ({ i with openSnapshot := some p }, .added)

end Instrument

/-- Why a snapshot was not committed or not accepted. -/
inductive SnapshotError where
  | mismatch | short | noOpenSnapshot | staleAnchor | staleInstrumentSeq
deriving DecidableEq, Repr

namespace Instrument

/-- The commit at the end of `EndSnapshot`: the shadow becomes the live book. -/
def commitSnapshot (i : Instrument) (p : PendingSnapshot) : Instrument :=
  let i := { i with bids := p.bids, asks := p.asks
                    lastAppliedMktdataSeq := p.anchorSeq
                    lastAppliedInstrumentSeq := p.lastInstrumentSeq }
  let i := i.pruneLostInstrumentSeq
  { i with depthBound := some p.depthBound
           requiredAnchorSeq := match i.requiredAnchorSeq with
             | some r => if r ≤ p.anchorSeq then none else some r
             | none => none
           requiredInstrumentSeq := none
           openSnapshot := none
           pending := none
           status := .ready }

/-- Validate and commit the shadow.  On any failure only the shadow is discarded. -/
def endSnapshot (i : Instrument) (snapID anchorSeq : ℕ) : Instrument × Option SnapshotError :=
  match i.openSnapshot with
  | none => (i, some .noOpenSnapshot)
  | some p =>
      if p.snapshotID ≠ snapID ∨ p.anchorSeq ≠ anchorSeq then
        ({ i with openSnapshot := none }, some .mismatch)
      else if p.receivedLevels ≠ p.totalLevels then
        ({ i with openSnapshot := none }, some .short)
      -- re-checked here: the requirement can be set while the shadow is already open
      else if ∃ r ∈ i.requiredInstrumentSeq, p.lastInstrumentSeq < r then
        ({ i with openSnapshot := none }, some .staleInstrumentSeq)
      else (i.commitSnapshot p, none)

/-- Whether a begin should be processed.  The discriminator is the Last Instrument Seq: the
anchor is a channel-wide sequence that other instruments advance. -/
def snapshotAcceptable (i : Instrument) (anchorSeq lastInstrSeq : ℕ) :
    Bool × Option SnapshotError :=
  if ∃ r ∈ i.requiredAnchorSeq, anchorSeq < r then (false, some .staleAnchor)
  else if ∃ r ∈ i.requiredInstrumentSeq, lastInstrSeq < r then (false, some .staleInstrumentSeq)
  else if i.status ≠ .ready then (true, none)
  else (decide (i.lastAppliedInstrumentSeq < lastInstrSeq), none)

/-! ## Crossed books and resets -/

/-- Whether the inside market is crossed.  A locked book is not. -/
def crossed (i : Instrument) : Bool :=
  match i.bids.keys.max?, i.asks.keys.min? with
  | some bestBid, some bestAsk => decide (bestAsk < bestBid)
  | _, _ => false

/-- Discard all level state and await a snapshot at the required anchor or later. -/
def reset (i : Instrument) (requiredAnchor : Option ℕ) : Instrument :=
  { i with bids := ∅, asks := ∅
           openSnapshot := none
           pending := none
           status := .awaitingSnapshot
           lastAppliedMktdataSeq := 0
           lastAppliedInstrumentSeq := 0
           lastAppliedSendTS := none
           lostInstrumentSeq := ∅
           depthBound := none
           requiredAnchorSeq := requiredAnchor
           requiredInstrumentSeq := none }

end Instrument

end EdgeMulticast.MarketByPrice
