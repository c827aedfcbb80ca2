import EdgeMulticast.Lib.Run
import EdgeMulticast.Lib.Slice
import EdgeMulticast.MarketByOrder.Instrument

/-!
# The shard of the market-by-order book-builder

`shard.go`: what one record does to a shard, the delta buffer with its replay, and the messages
of the inbox.

A delta buffer is a slice.  The replay ranges over it, and a gap found on the way appends to it
and sorts it, so the loop goes on over an array that is changed under it; `replayLoop` reads the
array as it is at each turn.

The snapshot contexts stamp persisted rows and are read by nothing else, so they are not part
of the state here, and neither are metrics and persistence.
-/

namespace EdgeMulticast.MarketByOrder

open Std (ExtTreeMap)
open EdgeMulticast.Lib

def maxBufferedDeltasPerInstrument : ℕ := 10000

def reorderWindow : ℕ := 16

structure BufferedDelta where
  mktdataSeq : ℕ
  record : Record
deriving DecidableEq, Repr

structure InstrumentDef where
  symbol : String
  priceExponent : ℤ
  qtyExponent : ℤ
deriving DecidableEq, Repr

inductive EventKind where
  | appliedDelta | appliedSnapshot | instrumentReset | perInstrumentGap
deriving DecidableEq, Repr

structure ChannelEvent where
  kind : EventKind
  instrumentID : ℕ := 0
  symbol : String := ""
  record : Record
deriving DecidableEq, Repr

/-- The snapshot group last opened on a channel, whose end has not arrived. -/
structure OpenGroup where
  inst : InstKey
  snapID : ℕ
deriving DecidableEq, Repr

/-- A disjoint subset of the instruments and all their state. -/
structure Shard where
  instruments : ExtTreeMap InstKey Instrument := ∅
  refdata : ExtTreeMap InstKey InstrumentDef := ∅
  deltaBuf : ExtTreeMap InstKey (Slice BufferedDelta) := ∅
  /-- By channel: an order record carries no instrument, and the group it belongs to does. -/
  openGroups : ExtTreeMap ℕ OpenGroup := ∅

/-- What the language leaves open in one call of `bufferDelta`: the order of ties in the sort,
and the capacity of a new array. -/
structure BufferChoice where
  ties : SortBy BufferedDelta.mktdataSeq
  grown : ℕ

instance : Inhabited BufferChoice := ⟨⟨default, 0⟩⟩

/-- The choices of one call, by the turn of the replay loop. -/
def Choices := ℕ → BufferChoice

instance : Inhabited Choices := ⟨fun _ ↦ default⟩

namespace Shard

def new : Shard := {}

def setInst (s : Shard) (k : InstKey) (i : Instrument) : Shard :=
  { s with instruments := s.instruments.insert k i }

/-- The delta buffer of an instrument; a missing key reads as the nil slice. -/
def buffered (s : Shard) (k : InstKey) : Slice BufferedDelta := (s.deltaBuf[k]?).getD Slice.nil

/-! ## Deltas -/

def bufferDelta (σ : BufferChoice) (s : Shard) (k : InstKey) (rec : Record) : Shard :=
  let buf := s.buffered k
  let buf := if maxBufferedDeltasPerInstrument ≤ buf.toList.length then buf.tail else buf
  let buf := buf.append σ.grown ⟨rec.sequenceNumber, rec⟩
  { s with deltaBuf := s.deltaBuf.insert k (buf.sort σ.ties) }

end Shard

namespace Instrument

/-- The book mutation of one record, and the trackers behind it. -/
def applyOne (i : Instrument) (rec : Record) : Instrument × ChannelEvent :=
  let f := rec.fields
  let i := match rec.type with
    | .orderAdd => i.applyOrderAdd rec.orderID (sideFromString f.side) (toUint8 f.orderFlags)
        f.enterTs (toInt64 f.priceRaw) (toUint64 f.qtyRaw)
    | .orderCancel => i.applyOrderCancel rec.orderID
    | .orderExecute =>
        i.applyOrderExecute rec.orderID (toUint8 f.execFlags) (toUint64 f.execQtyRaw)
    | _ => i
  let i := { i with lastAppliedMktdataSeq := rec.sequenceNumber
                    lastAppliedInstrumentSeq := rec.perInstrumentSeq }
  (i, ⟨.appliedDelta, i.id, i.symbol, rec⟩)

/-- Drain the contiguous run held in `Pending`.  A record is taken out in every round. -/
def drainPending : ℕ → Instrument → Instrument × List ChannelEvent
  | 0, i => (i, [])
  | fuel + 1, i =>
      match i.pending with
      | none => (i, [])
      | some held =>
          let next := (i.lastAppliedInstrumentSeq + 1) % 2 ^ 32
          match held[next]? with
          | none => (i, [])
          | some pr =>
              let held := held.erase next
              let (i, ev) := { i with pending := some held }.applyOne pr
              let i := if held.isEmpty then { i with pending := none } else i
              let (i, evs) := drainPending fuel i
              (i, ev :: evs)

/-- The number of records held in the reorder window. -/
def pendingSize (i : Instrument) : ℕ := (i.pending.getD ∅).size

/-- Hold a record that arrived ahead of the expected one. -/
def hold (i : Instrument) (rec : Record) : Instrument :=
  { i with pending := some ((i.pending.getD ∅).insert rec.perInstrumentSeq rec) }

end Instrument

namespace Shard

def applyDeltaToReady (σ : BufferChoice) (s : Shard) (k : InstKey) (i : Instrument)
    (rec : Record) : Shard × List ChannelEvent :=
  let piSeq := rec.perInstrumentSeq
  let expected := (i.lastAppliedInstrumentSeq + 1) % 2 ^ 32
  if piSeq < expected then (s, [])
  else if expected < piSeq then
    let i := i.hold rec
    if i.pendingSize ≤ reorderWindow ∧ piSeq - expected ≤ reorderWindow then
      (s.setInst k i, [])
    else
      let i := { i with status := .gap, pending := none }
      ((s.setInst k i).bufferDelta σ k rec, [⟨.perInstrumentGap, i.id, i.symbol, rec⟩])
  else
    let (i, ev) := i.applyOne rec
    let (i, evs) := i.drainPending i.pendingSize
    (s.setInst k i, ev :: evs)

def applyDelta (σ : BufferChoice) (s : Shard) (k : InstKey) (rec : Record) :
    Shard × List ChannelEvent :=
  match s.instruments[k]? with
  | none => (s.bufferDelta σ k rec, [])
  | some i =>
      if i.status = .ready then s.applyDeltaToReady σ k i rec
      else (s.bufferDelta σ k rec, [])

/-! ## Replay -/

/-- The loop of `replayBuffer` over the slice `h`, from turn `t` on.  `arr` is the array of the
loop as the turn before left it. -/
def replayLoop (σ : Choices) (k : InstKey) (h : Slice BufferedDelta) :
    ℕ → ℕ → List BufferedDelta → Shard → Shard
  | 0, _, _, s => s
  | turns + 1, t, arr, s =>
      let arr := Slice.ranged h (s.buffered k) arr
      match s.instruments[k]?, arr[h.off + t]? with
      | some i, some b =>
          if b.mktdataSeq ≤ i.lastAppliedMktdataSeq then replayLoop σ k h turns (t + 1) arr s
          else replayLoop σ k h turns (t + 1) arr (s.applyDeltaToReady (σ t) k i b.record).1
      | _, _ => s

def replayBuffer (σ : Choices) (s : Shard) (k : InstKey) : Shard :=
  let h := s.buffered k
  let s := replayLoop σ k h h.toList.length 0 h.array s
  { s with deltaBuf := s.deltaBuf.erase k }

/-! ## Records -/

variable (s : Shard) (k : InstKey) (rec : Record)

def applyInstrumentDefinition : Shard × List ChannelEvent :=
  let d : InstrumentDef := ⟨rec.fields.symbol, toInt8 rec.fields.priceExponent,
    toInt8 rec.fields.qtyExponent⟩
  let s := { s with refdata := s.refdata.insert k d }
  let i := match s.instruments[k]? with
    | some i =>
        { i with symbol := d.symbol, priceExponent := d.priceExponent
                 qtyExponent := d.qtyExponent }
    | none => Instrument.new k.id d.symbol d.priceExponent d.qtyExponent
  (s.setInst k i, [⟨.appliedDelta, k.id, d.symbol, rec⟩])

/-- The group is recorded whether or not a shadow opens: its orders still arrive. -/
def applySnapshotBegin : Shard :=
  let i := (s.instruments[k]?).getD (Instrument.new k.id "" 0 0)
  let s := s.setInst k i
  let s := { s with openGroups := s.openGroups.insert k.ch ⟨k, rec.snapshotID⟩ }
  if i.status = .ready then s
  else s.setInst k (i.beginSnapshot rec.snapshotID (toUint64 rec.fields.anchorSeq)
    (toUint32 rec.fields.totalOrders) (toUint32 rec.fields.lastInstrumentSeq))

/-- The order goes to the instrument the open group names. -/
def applySnapshotOrder : Shard :=
  match s.openGroups[rec.channelID]? with
  | none => s
  | some g =>
      if g.snapID ≠ rec.snapshotID then s
      else match s.instruments[g.inst]? with
        | none => s
        | some i =>
            if i.openSnapshot.isNone then s
            else s.setInst g.inst (i.addSnapshotOrder rec.snapshotID rec.orderID
              (sideFromString rec.fields.side) (toUint8 rec.fields.orderFlags) rec.fields.enterTs
              (toInt64 rec.fields.priceRaw) (toUint64 rec.fields.qtyRaw)).1

def applySnapshotEnd (σ : Choices) : Shard × List ChannelEvent :=
  -- the end closes the group it names, whatever the outcome below
  let s := if s.openGroups[k.ch]? = some ⟨k, rec.snapshotID⟩ then
    { s with openGroups := s.openGroups.erase k.ch } else s
  match s.instruments[k]? with
  | none => (s, [])
  | some i =>
      match i.openSnapshot with
      | none => (s, [])
      | some p =>
          -- a delayed end; the shadow is a later group's
          if rec.snapshotID < p.snapshotID then (s, [])
          else match i.endSnapshot rec.snapshotID (toUint64 rec.fields.anchorSeq) with
            | (i, some _) => (s.setInst k i, [])
            | (i, none) =>
                ((s.setInst k i).replayBuffer σ k, [⟨.appliedSnapshot, k.id, i.symbol, rec⟩])

/-- Keep the buffered deltas behind a reset, in a new array of the old length. -/
def filterBuffer (anchor : ℕ) (buf : Slice BufferedDelta) : Slice BufferedDelta :=
  let kept := buf.toList.filter fun b ↦ anchor < b.mktdataSeq
  Slice.ofList kept (buf.toList.length - kept.length) (buf.gen + 1)

def applyInstrumentReset : Shard × List ChannelEvent :=
  match s.instruments[k]? with
  | none => (s, [])
  | some i =>
      let s := s.setInst k i.reset
      let kept := filterBuffer (toUint64 rec.fields.newAnchorSeq) (s.buffered k)
      ({ s with deltaBuf := s.deltaBuf.insert k kept },
        [⟨.instrumentReset, k.id, i.symbol, rec⟩])

/-- `apply`: mutate book state for one record and return the resulting events. -/
def apply (σ : Choices) : Shard × List ChannelEvent :=
  let k := rec.key
  match rec.type with
  | .instrumentDefinition => s.applyInstrumentDefinition k rec
  | .snapshotBegin => (s.applySnapshotBegin k rec, [])
  | .snapshotOrder => (s.applySnapshotOrder rec, [])
  | .snapshotEnd => s.applySnapshotEnd k rec σ
  | .orderAdd | .orderCancel | .orderExecute => s.applyDelta (σ 0) k rec
  | .instrumentReset => s.applyInstrumentReset k rec
  | .trade => (s, [{ kind := .appliedDelta, record := rec }])
  | .other => (s, [])

/-! ## Resets and shadow clears -/

/-- Discard every instrument of one channel. -/
def resetChannel (ch : ℕ) : Shard :=
  { s with instruments := s.instruments.filter fun k _ ↦ decide (k.ch ≠ ch)
           refdata := s.refdata.filter fun k _ ↦ decide (k.ch ≠ ch)
           deltaBuf := s.deltaBuf.filter fun k _ ↦ decide (k.ch ≠ ch)
           openGroups := s.openGroups.erase ch }

/-- Abandon every snapshot group in flight after a socket drop. -/
def clearShadows : Shard :=
  { s with openGroups := ∅
           instruments := s.instruments.map fun _ i ↦ { i with openSnapshot := none } }

end Shard

/-! ## The inbox -/

inductive ShardMsg where
  | record (rec : Record)
  | reset (ch : ℕ)
  | fence
  | clearShadows
deriving DecidableEq, Repr

/-- A message of the inbox with the choices of its call. -/
abbrev Turn := Choices × ShardMsg

/-- One turn of `Run`. -/
def Shard.step (s : Shard) (a : Turn) : Shard :=
  match a.2 with
  | .record rec => (s.apply rec a.1).1
  | .reset ch => s.resetChannel ch
  | .fence => s
  | .clearShadows => s.clearShadows

/-! ## Records as the tests build them -/

def snapInstDefRec (k : InstKey) (symbol : String) : Record where
  type := .instrumentDefinition
  channelID := k.ch
  instrumentID := k.id
  fields := { symbol := symbol, priceExponent := -2, qtyExponent := -4 }

def snapshotBeginRec (k : InstKey) (snapID total anchor lastInstr : ℤ) : Record where
  type := .snapshotBegin
  channelID := k.ch
  instrumentID := k.id
  fields := { snapshotId := snapID, anchorSeq := anchor, totalOrders := total
              lastInstrumentSeq := lastInstr }

def snapshotOrderRec (ch : ℕ) (snapID orderID : ℤ) (side : SideName) (price qty : ℤ) : Record where
  type := .snapshotOrder
  channelID := ch
  fields := { snapshotId := snapID, orderId := orderID, side := side, priceRaw := price
              qtyRaw := qty }

def snapshotEndRec (k : InstKey) (snapID anchor : ℤ) : Record where
  type := .snapshotEnd
  channelID := k.ch
  instrumentID := k.id
  fields := { snapshotId := snapID, anchorSeq := anchor }

def orderAddRec (k : InstKey) (piSeq : ℤ) (mktSeq : ℕ) (price qty : ℤ) : Record where
  type := .orderAdd
  channelID := k.ch
  sequenceNumber := mktSeq
  instrumentID := k.id
  fields := { perInstrumentSeq := piSeq, orderId := piSeq, side := .bid, priceRaw := price
              qtyRaw := qty }

def instrumentResetRec (k : InstKey) (newAnchorSeq : ℤ) : Record where
  type := .instrumentReset
  channelID := k.ch
  instrumentID := k.id
  fields := { newAnchorSeq := newAnchorSeq }

end EdgeMulticast.MarketByOrder
