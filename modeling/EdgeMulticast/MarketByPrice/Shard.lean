import EdgeMulticast.Lib.SortedInsert
import EdgeMulticast.MarketByPrice.Instrument

/-!
# The shard of the market-by-price book-builder: sequencing and buffering

`shard.go`: the classification of a delta against its instrument's sequence, the reorder
window, the delta buffer with its budget, and the replay of the buffer after a commit.

The source holds instruments by pointer.  Here an instrument is read from the shard's map,
changed, and written back before anything that could read the map again, so a buffer
eviction that hits the instrument being worked on sees what it would see in the source.

A `range` over a Go map visits the keys in an order the language leaves open.  Two of them
decide something: which of several largest buffers is evicted, and in which order a demotion
moves the reorder window into the buffer.  A `Choices` supplies the order of every such loop
of one call.
-/

namespace EdgeMulticast.MarketByPrice

open Std EdgeMulticast.Lib

/-- `maxBufferedDeltasPerShard`. -/
def maxBufferedDeltasPerShard : ℤ := 200000

/-- How far ahead of the last applied delta one may arrive and still be reordering. -/
def reorderWindow : ℕ := 16

structure BufferedDelta where
  mktdataSeq : ℕ
  record : Record
deriving DecidableEq, Repr

/-- The strike of one instrument as an interval. -/
structure StrikeInterval where
  exponent : ℤ
  boundFlags : ℕ
  lowerBoundRaw : ℤ
  upperBoundRaw : ℤ
  fixingTime : Option ℕ
deriving DecidableEq, Repr

structure InstrumentDef where
  symbol : String
  priceExponent : ℤ
  qtyExponent : ℤ
  manifestSeq : ℕ
  sourceID : ℕ
  strike : Option StrikeInterval
deriving DecidableEq, Repr

/-- The zero value a lookup of a missing definition answers. -/
instance : Inhabited InstrumentDef := ⟨⟨"", 0, 0, 0, 0, none⟩⟩

/-- Only the two applied kinds assert that book state changed. -/
inductive EventKind where
  | appliedDelta | appliedSnapshot
  | instrumentReset | instrumentDefinition | batchBoundary | trade
  | perInstrumentGap | malformedDelta
deriving DecidableEq, Repr

structure ChannelEvent where
  kind : EventKind
  instrumentID : ℕ := 0
  symbol : String := ""
  record : Record
deriving DecidableEq, Repr

/-- A disjoint subset of the instruments and all their state.  `overflows` is the overflow
counter of the metrics. -/
structure Shard where
  instruments : ExtTreeMap InstKey Instrument := ∅
  refdata : ExtTreeMap InstKey InstrumentDef := ∅
  deltaBuf : ExtTreeMap InstKey (List BufferedDelta) := ∅
  bufferedN : ℤ := 0
  maxBuffered : ℤ := maxBufferedDeltasPerShard
  overflows : ℕ := 0
  sawBatchBoundary : Bool := false
  touched : Finset InstKey := ∅
  crossed : Finset InstKey := ∅
  symbols : Option (List String) := none

/-- The visiting orders one point of a call draws on. -/
structure MapOrder where
  buffers : RangeOrder InstKey
  pending : RangeOrder ℕ

instance : Inhabited MapOrder := ⟨⟨default, default⟩⟩

/-- The visiting orders of one call, by the path that leads to the loop inside it. -/
def Choices := List ℕ → MapOrder

namespace Choices

instance : Inhabited Choices := ⟨fun _ ↦ default⟩

def here (σ : Choices) : MapOrder := σ []

def sub (σ : Choices) (n : ℕ) : Choices := fun path ↦ σ (n :: path)

end Choices

namespace Shard

/-- `NewShard`, with the two fields that are set from outside. -/
def new (maxBuffered : ℤ) (symbols : Option (List String)) : Shard :=
  { maxBuffered := maxBuffered, symbols := symbols }

def setInst (s : Shard) (k : InstKey) (i : Instrument) : Shard :=
  { s with instruments := s.instruments.insert k i }

/-- The buffered deltas of one instrument; a missing key reads as the empty slice. -/
def buffered (s : Shard) (k : InstKey) : List BufferedDelta := (s.deltaBuf[k]?).getD []

/-- The instrument under a key, created from its definition when there is none. -/
def instrumentFor (s : Shard) (k : InstKey) : Shard × Instrument :=
  match s.instruments[k]? with
  | some i => (s, i)
  | none =>
      let d := (s.refdata[k]?).getD default
      let i := Instrument.new k.id d.symbol d.priceExponent d.qtyExponent
      (s.setInst k i, i)

/-! ## The delta buffer -/

/-- The key and the length of the first largest buffer in the visiting order. -/
def largestBuffer (s : Shard) (ks : List InstKey) : InstKey × ℤ :=
  ks.foldl (fun best k ↦
    if best.2 < (s.buffered k).length then (k, (s.buffered k).length) else best) (default, -1)

/-- The highest Per-Instrument Seq among buffered deltas, not below `floor`. -/
def highestSeq (floor : ℕ) (buf : List BufferedDelta) : ℕ :=
  buf.foldl (fun r b ↦ if r < b.record.perInstrumentSeq then b.record.perInstrumentSeq else r)
    floor

/-- What an eviction does to its victim. -/
def evictInstrument (i : Instrument) (buf : List BufferedDelta) : Instrument :=
  let i := { i with status := .gap, pending := none }
  i.requireSnapshotAtLeast (highestSeq ((i.lastAppliedInstrumentSeq + 1) % 2 ^ 32) buf)

/-- Drop the buffer of the instrument that holds the most and mark it gap. -/
def evictLargestBuffer (σ : MapOrder) (s : Shard) : Shard :=
  let (victim, best) := s.largestBuffer (σ.buffers.visit s.deltaBuf.keys)
  if best ≤ 0 then s
  else
    let (s, i) := s.instrumentFor victim
    let s := s.setInst victim (evictInstrument i (s.buffered victim))
    { s with bufferedN := s.bufferedN - best
             deltaBuf := s.deltaBuf.erase victim
             overflows := s.overflows + 1 }

/-- Put a delta in its place.  Deltas arrive in mktdata order, so the append is the rule. -/
def insertDelta (buf : List BufferedDelta) (d : BufferedDelta) : List BufferedDelta :=
  if ∃ b ∈ buf.getLast?, d.mktdataSeq < b.mktdataSeq then
    splice buf (insertionPoint BufferedDelta.mktdataSeq buf d) d
  else buf ++ [d]

def bufferDelta (σ : MapOrder) (s : Shard) (k : InstKey) (rec : Record) : Shard :=
  let d : BufferedDelta := ⟨rec.sequenceNumber, rec⟩
  let s := { s with deltaBuf := s.deltaBuf.insert k (insertDelta (s.buffered k) d)
                    bufferedN := s.bufferedN + 1 }
  if s.maxBuffered < s.bufferedN then s.evictLargestBuffer σ else s

def bufferAll : Choices → Shard → InstKey → List Record → Shard
  | _, s, _, [] => s
  | σ, s, k, rec :: recs => bufferAll (σ.sub 1) (s.bufferDelta (σ.sub 0).here k rec) k recs

end Shard

/-! ## Classification -/

/-- The rule a book-affecting record breaks, if any. -/
def malformedRecord (rec : Record) : Option MalformedError :=
  if rec.type ≠ .bookClear then none
  else bookClearMalformed (clearSideFromString rec.fields.clearSide)
    (scopeFromString rec.fields.scope)

namespace Instrument

/-- The trackers after a record was applied. -/
def advance (i : Instrument) (rec : Record) : Instrument :=
  let i := { i with lastAppliedMktdataSeq := rec.sequenceNumber
                    lastAppliedInstrumentSeq := rec.perInstrumentSeq }
  { i.pruneLostInstrumentSeq with lastAppliedSendTS := some rec.sendTime }

/-- The book mutation of one classified, sequenced record. -/
def applyOne (i : Instrument) (rec : Record) :
    Instrument × ChannelEvent × Option MalformedError :=
  let f := rec.fields
  let applied : ChannelEvent := ⟨.appliedDelta, i.id, i.symbol, rec⟩
  match rec.type with
  | .levelUpdate =>
      let (i, _) := i.applyLevelUpdate (sideFromString f.side) (toInt64 f.priceRaw)
        (toUint64 f.qtyRaw) (orderCountFrom f) (toUint8 f.levelFlags) (actionFromString f.action)
      (i.advance rec, applied, none)
  | .bookClear =>
      match i.applyBookClear (clearSideFromString f.clearSide) (scopeFromString f.scope)
        (toInt64 f.fromPriceRaw) with
      -- the trackers stay: nothing was applied
      | (i, some err) => (i, ⟨.malformedDelta, i.id, i.symbol, rec⟩, some err)
      | (i, none) => (i.advance rec, applied, none)
  | _ => (i.advance rec, applied, none)

/-- Drain the contiguous run held in `Pending`.  A record is taken out in every round. -/
def drainPending : ℕ → Instrument → Instrument × List ChannelEvent × Option Record
  | 0, i => (i, [], none)
  | fuel + 1, i =>
      match i.pending with
      | none => (i, [], none)
      | some held =>
          let next := i.nextExpectedInstrumentSeq
          match held[next]? with
          | none => (i, [], none)
          | some pr =>
              let held := held.erase next
              match { i with pending := some held }.applyOne pr with
              | (i, ev, some _) => (i, [ev], some pr)
              | (i, ev, none) =>
                  let i := if held.isEmpty then { i with pending := none } else i
                  let (i, evs, lost) := drainPending fuel i
                  (i, ev :: evs, lost)

/-- The number of records held in the reorder window. -/
def pendingSize (i : Instrument) : ℕ := (i.pending.getD ∅).size

/-- Hold a record that arrived ahead of the expected one. -/
def hold (i : Instrument) (rec : Record) : Instrument :=
  { i with pending := some ((i.pending.getD ∅).insert rec.perInstrumentSeq rec) }

/-- The Per-Instrument Seq a snapshot must cover after a gap at `piSeq`: everything before the
one record that will replay, and every held record, which is about to be dropped. -/
def gapRequirement (i : Instrument) (piSeq : ℕ) : ℕ :=
  (i.pending.getD ∅).keys.foldl
    (fun required seq ↦ if seq ≠ piSeq ∧ required < seq then seq else required) (piSeq - 1)

/-- The demotion on a per-instrument gap at `piSeq`. -/
def declareGap (i : Instrument) (piSeq : ℕ) : Instrument :=
  { i with status := .gap, pending := none }.requireSnapshotAtLeast (i.gapRequirement piSeq)

/-- The demotion on a malformed record that consumed `lost`. -/
def demote (i : Instrument) (lost : ℕ) : Instrument :=
  { (({ i with status := .gap }.markInstrumentSeqLost lost).requireSnapshotAtLeast lost) with
    pending := none }

end Instrument

namespace Shard

/-- The records of a reorder window in a visiting order. -/
def heldRecords (σ : MapOrder) (i : Instrument) : List Record :=
  let held := i.pending.getD ∅
  (σ.pending.visit held.keys).filterMap (held[·]?)

/-- Mark an instrument gap because a record that would have changed its book was malformed.
The reorder window moves to the buffer; the malformed record itself does not. -/
def demoteMalformed (σ : Choices) (s : Shard) (k : InstKey) (i : Instrument) (rec : Record) :
    Shard :=
  bufferAll (σ.sub 0) (s.setInst k (i.demote rec.perInstrumentSeq)) k (heldRecords σ.here i)

/-- Apply a contiguous record and drain what it frees. -/
def applyContiguous (σ : Choices) (s : Shard) (k : InstKey) (i : Instrument) (rec : Record) :
    Shard × List ChannelEvent :=
  match i.applyOne rec with
  | (i, ev, some _) => (s.demoteMalformed σ k i rec, [ev])
  | (i, ev, none) =>
      match i.drainPending i.pendingSize with
      | (i, evs, some pr) => (s.demoteMalformed σ k i pr, ev :: evs)
      | (i, evs, none) => (s.setInst k i, ev :: evs)

def applyDeltaToReady (σ : Choices) (s : Shard) (k : InstKey) (i : Instrument) (rec : Record) :
    Shard × List ChannelEvent :=
  let piSeq := rec.perInstrumentSeq
  let expected := i.nextExpectedInstrumentSeq
  if piSeq < expected then (s, [])
  -- classified on receipt: a malformed record is a known loss on either side of `expected`
  else if (malformedRecord rec).isSome then
    (s.demoteMalformed σ k i rec, [⟨.malformedDelta, i.id, i.symbol, rec⟩])
  else if expected < piSeq then
    let i := i.hold rec
    if i.pendingSize ≤ reorderWindow ∧ piSeq - expected ≤ reorderWindow then
      (s.setInst k i, [])
    else
      ((s.setInst k (i.declareGap piSeq)).bufferDelta σ.here k rec,
        [⟨.perInstrumentGap, i.id, i.symbol, rec⟩])
  else s.applyContiguous σ k i rec

/-- Classify one delta against its instrument's sequence. -/
def applyDelta (σ : Choices) (s : Shard) (k : InstKey) (rec : Record) :
    Shard × List ChannelEvent :=
  match s.instruments[k]? with
  | none => (s.bufferDelta σ.here k rec, [])
  | some i =>
      if i.status ≠ .ready then (s.bufferDelta σ.here k rec, [])
      else s.applyDeltaToReady σ k i rec

/-! ## Replay -/

/-- The loop of `replayBuffer`.  The status is read anew every round: a hole found on the way
demotes the instrument, and the rest goes back to the buffer. -/
def replayLoop : Choices → Shard → InstKey → List BufferedDelta → Shard × List ChannelEvent
  | _, s, _, [] => (s, [])
  | σ, s, k, b :: bs =>
      match s.instruments[k]? with
      | none => (s, [])
      | some i =>
          if b.mktdataSeq ≤ i.lastAppliedMktdataSeq then replayLoop (σ.sub 1) s k bs
          else if i.status ≠ .ready then
            replayLoop (σ.sub 1) (s.bufferDelta (σ.sub 0).here k b.record) k bs
          else
            let (s, evs) := s.applyDeltaToReady (σ.sub 0) k i b.record
            let (s, evs') := replayLoop (σ.sub 1) s k bs
            (s, evs ++ evs')

/-- Take the buffer of one instrument out of the shard. -/
def takeBuffer (s : Shard) (k : InstKey) : Shard :=
  { s with bufferedN := s.bufferedN - (s.buffered k).length, deltaBuf := s.deltaBuf.erase k }

def replayBuffer (σ : Choices) (s : Shard) (k : InstKey) : Shard × List ChannelEvent :=
  replayLoop σ (s.takeBuffer k) k (s.buffered k)

end Shard

end EdgeMulticast.MarketByPrice
