import EdgeMulticast.Lib.Run
import EdgeMulticast.MarketByPrice.Shard

/-!
# The shard of the market-by-price book-builder: dispatch

`dispatch.go`: what one record does to a shard, and the messages a shard takes besides
records.

The persistence of a record (`handle` after `apply`, the wire-level capture, the gauges) reads
the shard and never writes it, so it is not part of the state here.  What remains of `Run` is
the step function `Shard.step` on inbox messages.
-/

namespace EdgeMulticast.MarketByPrice

open Std EdgeMulticast.Lib

namespace Record

/-- The key `apply` files a record under. -/
def key (rec : Record) : InstKey := ⟨rec.channelID, rec.instrumentID⟩

/-- The group identity a begin carries. -/
def snapshotGroup (rec : Record) : SnapshotGroup where
  snapshotID := toUint32 rec.fields.snapshotId
  anchorSeq := toUint64 rec.fields.anchorSeq
  totalLevels := toUint32 rec.fields.totalLevels
  lastInstrumentSeq := toUint32 rec.fields.lastInstrumentSeq
  depthBound := toUint32 rec.fields.depthBound

/-- The definition a record carries.  It starts without a strike. -/
def definition (rec : Record) : InstrumentDef where
  symbol := rec.fields.symbol
  priceExponent := toInt8 rec.fields.priceExponent
  qtyExponent := toInt8 rec.fields.qtyExponent
  manifestSeq := toUint16 rec.fields.manifestSeq
  sourceID := toUint16 rec.fields.sourceId
  strike := none

def strikeInterval (rec : Record) : StrikeInterval where
  exponent := toInt8 rec.fields.strikeExponent
  boundFlags := toUint8 rec.fields.boundFlags
  lowerBoundRaw := toInt64 rec.fields.lowerBoundRaw
  upperBoundRaw := toInt64 rec.fields.upperBoundRaw
  fixingTime := rec.fields.fixingTime

end Record

/-! ## What a record does to its own instrument -/

namespace Instrument

/-- The part of a definition an instrument repeats. -/
def describe (i : Instrument) (d : InstrumentDef) : Instrument :=
  { i with symbol := d.symbol, priceExponent := d.priceExponent, qtyExponent := d.qtyExponent }

/-- A begin records its group whether or not a shadow opens: declining is the steady state. -/
def snapshotBegin (i : Instrument) (rec : Record) : Instrument :=
  let g := rec.snapshotGroup
  let i := { i with lastBegin := some g }
  match i.snapshotAcceptable g.anchorSeq g.lastInstrumentSeq with
  | (_, some _) => i
  | (false, none) => i
  | (true, none) =>
      i.beginSnapshot g.snapshotID g.anchorSeq g.totalLevels g.lastInstrumentSeq g.depthBound

def snapshotLevel (i : Instrument) (rec : Record) : Instrument × SnapshotLevelResult :=
  let f := rec.fields
  i.addSnapshotLevel (toUint32 f.snapshotId) (sideFromString f.side) (toInt64 f.priceRaw)
    (toUint64 f.qtyRaw) (orderCountFrom f) (toUint8 f.levelFlags)

/-- The end of a group: the commit also stamps the record's send time. -/
def snapshotEnd (i : Instrument) (rec : Record) : Instrument × Option SnapshotError :=
  match i.endSnapshot (toUint32 rec.fields.snapshotId) (toUint64 rec.fields.anchorSeq) with
  | (i, some err) => (i, some err)
  | (i, none) => ({ i with lastAppliedSendTS := some rec.sendTime }, none)

end Instrument

namespace Shard

variable (σ : Choices) (s : Shard) (k : InstKey) (rec : Record)

/-! ## Crossed books -/

/-- Record whether the inside market of an instrument is crossed. -/
def evaluateCrossed (i : Instrument) : Shard :=
  if i.crossed then { s with crossed := insert k s.crossed }
  else { s with crossed := s.crossed.erase k }

/-- Whether an event asserts a book change. -/
def isApplied (e : ChannelEvent) : Bool := e.kind = .appliedDelta || e.kind = .appliedSnapshot

/-- After a book change: evaluate at once, or mark the instrument for the next boundary. -/
def noteConsistencyPoint (evs : List ChannelEvent) : Shard :=
  if evs.any isApplied then
    match s.instruments[k]? with
    | none => s
    | some i =>
        if s.sawBatchBoundary then { s with touched := insert k s.touched }
        else s.evaluateCrossed k i
  else s

/-! ## Records -/

def applyInstrumentDefinition : Shard × List ChannelEvent :=
  let d := rec.definition
  let s := { s with refdata := s.refdata.insert k d }
  let i := match s.instruments[k]? with
    | none => Instrument.new k.id d.symbol d.priceExponent d.qtyExponent
    | some i => i.describe d
  (s.setInst k i, [⟨.instrumentDefinition, k.id, d.symbol, rec⟩])

def applyStrikeInterval : Shard :=
  match s.refdata[k]? with
  | none => s
  | some d => { s with refdata := s.refdata.insert k { d with strike := some rec.strikeInterval } }

def applySnapshotBegin : Shard :=
  let (s, i) := s.instrumentFor k
  s.setInst k (i.snapshotBegin rec)

def applySnapshotLevel : Shard :=
  match s.instruments[k]? with
  | none => s
  | some i => s.setInst k (i.snapshotLevel rec).1

def applySnapshotEnd : Shard × List ChannelEvent :=
  match s.instruments[k]? with
  | none => (s, [])
  | some i =>
      -- the begin was declined or discarded; never demote
      if i.openSnapshot.isNone then (s, [])
      else match i.snapshotEnd rec with
        | (i, some _) => (s.setInst k i, [])
        | (i, none) =>
            let (s, replayed) := (s.setInst k i).replayBuffer σ k
            let evs := ⟨.appliedSnapshot, k.id, i.symbol, rec⟩ :: replayed
            (s.noteConsistencyPoint k evs, evs)

/-- Keep the buffered deltas a reset does not supersede. -/
def filterBuffer (anchor : ℕ) (buf : List BufferedDelta) : List BufferedDelta :=
  buf.filter fun b ↦ anchor < b.mktdataSeq

def applyInstrumentReset : Shard × List ChannelEvent :=
  let (s, i) := s.instrumentFor k
  let anchor := toUint64 rec.fields.newAnchorSeq
  let s := s.setInst k (i.reset (some anchor))
  let kept := filterBuffer anchor (s.buffered k)
  let s := { s with bufferedN := s.bufferedN - ((s.buffered k).length - kept.length : ℤ) }
  let s := if kept.isEmpty then { s with deltaBuf := s.deltaBuf.erase k }
    else { s with deltaBuf := s.deltaBuf.insert k kept }
  ({ s with crossed := s.crossed.erase k, touched := s.touched.erase k },
    [⟨.instrumentReset, k.id, i.symbol, rec⟩])

/-- A boundary evaluates every instrument touched since the previous one.  The evaluations do
not depend on each other, so the order of the visit is left out. -/
def applyBatchBoundary : Shard × List ChannelEvent :=
  let isCrossed := fun k ↦ (s.instruments[k]?).any Instrument.crossed
  let isKnown := fun k ↦ (s.instruments[k]?).isSome
  ({ s with sawBatchBoundary := true
            crossed := s.crossed.filter (fun k ↦ ¬(k ∈ s.touched ∧ isKnown k)) ∪
              s.touched.filter (fun k ↦ isCrossed k)
            touched := ∅ },
    [{ kind := .batchBoundary, record := rec }])

/-- `apply`: mutate book state for one record and return the resulting events. -/
def apply : Shard × List ChannelEvent :=
  let k := rec.key
  match rec.type with
  | .instrumentDefinition => s.applyInstrumentDefinition k rec
  | .strikeInterval => (s.applyStrikeInterval k rec, [])
  | .snapshotBegin => (s.applySnapshotBegin k rec, [])
  | .snapshotLevel => (s.applySnapshotLevel k rec, [])
  | .snapshotEnd => s.applySnapshotEnd σ k rec
  | .levelUpdate | .bookClear =>
      let (s, evs) := s.applyDelta σ k rec
      (s.noteConsistencyPoint k evs, evs)
  | .instrumentReset => s.applyInstrumentReset k rec
  | .batchBoundary => s.applyBatchBoundary rec
  | .trade | .liquidation =>
      (s, [{ kind := .trade, instrumentID := rec.instrumentID, record := rec }])
  | .heartbeat | .manifestSummary | .endOfSession | .other => (s, [])

/-! ## Prunes, resets and shadow clears -/

/-- Drop an instrument and all its state. -/
def dropInstrument : Shard :=
  let s := s.takeBuffer k
  { s with refdata := s.refdata.erase k, instruments := s.instruments.erase k
           crossed := s.crossed.erase k, touched := s.touched.erase k }

/-- The definitions a prune to `newSeq` removes: those older than the generation before. -/
def staleKeys (newSeq : ℕ) : List InstKey :=
  s.refdata.keys.filter fun k ↦ (s.refdata[k]?).any fun d ↦ d.manifestSeq < newSeq - 1

/-- Drop the instruments that have fallen out of the manifest. -/
def pruneManifest (newSeq : ℕ) : Shard :=
  if newSeq ≤ 1 then s else (s.staleKeys newSeq).foldl dropInstrument s

/-- Discard every instrument of one channel. -/
def resetChannel (ch : ℕ) : Shard :=
  let s := (s.deltaBuf.keys.filter fun k ↦ k.ch = ch).foldl takeBuffer s
  { s with instruments := s.instruments.filter fun k _ ↦ decide (k.ch ≠ ch)
           refdata := s.refdata.filter fun k _ ↦ decide (k.ch ≠ ch)
           crossed := s.crossed.filter fun k ↦ k.ch ≠ ch
           touched := s.touched.filter fun k ↦ k.ch ≠ ch
           sawBatchBoundary := false }

/-- Discard every shadow after a socket drop.  Status and the live book are untouched. -/
def clearShadows : Shard :=
  { s with instruments := s.instruments.map fun _ i ↦ { i with openSnapshot := none } }

/-- Whether rows for a symbol are written.  With a filter active an empty symbol is not. -/
def persists (symbol : String) : Bool :=
  match s.symbols with
  | none => true
  | some symbols => symbols.contains symbol

end Shard

/-! ## The inbox -/

inductive ShardMsg where
  | record (rec : Record)
  | reset (ch : ℕ)
  | fence
  | manifestPrune (seq : ℕ)
  | clearShadows
deriving DecidableEq, Repr

/-- One turn of `Run`: the message taken from the inbox, with the visiting orders of the loops
it drives. -/
def Shard.step (s : Shard) (a : Choices × ShardMsg) : Shard :=
  match a.2 with
  | .record rec => (s.apply a.1 rec).1
  | .reset ch => s.resetChannel ch
  | .fence => s
  | .manifestPrune seq => s.pruneManifest seq
  | .clearShadows => s.clearShadows

/-! ## Records as the tests build them -/

def instDefRec (k : InstKey) (symbol : String) (manifestSeq : ℤ) : Record where
  type := .instrumentDefinition
  channelID := k.ch
  port := .refdata
  instrumentID := k.id
  fields := { symbol := symbol, sourceId := 77, priceExponent := -2, qtyExponent := -8
              manifestSeq := manifestSeq }

def snapBeginRec (k : InstKey) (snapID total lastInstr anchor : ℤ) : Record where
  type := .snapshotBegin
  channelID := k.ch
  port := .snapshot
  instrumentID := k.id
  fields := { snapshotId := snapID, anchorSeq := anchor, totalLevels := total
              lastInstrumentSeq := lastInstr }

/-- What the shard receives: the coordinator has stamped the instrument. -/
def snapLevelRec (k : InstKey) (snapID : ℤ) (side : SideName) (priceRaw qtyRaw : ℤ) : Record where
  type := .snapshotLevel
  channelID := k.ch
  port := .snapshot
  instrumentID := k.id
  fields := { snapshotId := snapID, side := side, priceRaw := priceRaw, qtyRaw := qtyRaw
              orderCount := some 2 }

def snapEndRec (k : InstKey) (snapID anchor : ℤ) : Record where
  type := .snapshotEnd
  channelID := k.ch
  port := .snapshot
  instrumentID := k.id
  fields := { snapshotId := snapID, anchorSeq := anchor }

def levelUpdateRec (k : InstKey) (mktSeq : ℕ) (piSeq : ℤ) (side : SideName)
    (priceRaw qtyRaw : ℤ) : Record where
  type := .levelUpdate
  channelID := k.ch
  sequenceNumber := mktSeq
  instrumentID := k.id
  fields := { side := side, action := .new, perInstrumentSeq := piSeq, priceRaw := priceRaw
              qtyRaw := qtyRaw, orderCount := some 1 }

end EdgeMulticast.MarketByPrice
