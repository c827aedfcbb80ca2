import EdgeMulticast.MarketByPrice.Runs

/-!
# The coordinator of the market-by-price book-builder

`coordinator.go`: the single reader that owns the state of the channels and routes every record
to one shard, to all of them, or to none.

A call of the source sends on the inboxes of the shards and, at a barrier or a fence, waits for
every shard to answer.  Here it answers the messages it sends, in their order.  A shard sees
its own inbox and nothing else, so where the shards stand after any schedule of their
goroutines is a question about prefixes of inboxes (`Coordinator.inbox`), and where they stand
when all of them are drained is the run of the `System` (`run_shards`).

The rows and the counters a record also writes, and the way out of a wait at a shutdown, are
left out.
-/

namespace EdgeMulticast.MarketByPrice

open Std (ExtTreeMap)
open EdgeMulticast.Lib

/-- Parity bookkeeping for the refdata manifest. -/
structure ManifestState where
  seq : ℕ := 0
  valid : Bool := false
  instrumentCount : ℕ := 0
deriving DecidableEq, Repr

/-- The group that is open on the snapshot port of a channel. -/
structure OpenGroup where
  instrumentID : ℕ
  snapshotID : ℕ
  shard : ℕ
deriving DecidableEq, Repr

/-- The definition the record before this one was, if it was one. -/
structure DefinitionRef where
  channelID : ℕ
  port : Port
  seq : ℕ
  msgIndex : ℕ
  instrumentID : ℕ
  sourceID : ℕ
deriving DecidableEq, Repr

/-- Whether a strike's message directly follows the definition in the same datagram, for the
same instrument. -/
def DefinitionRef.pairs (d : DefinitionRef) (rec : Record) : Bool :=
  d.channelID = rec.channelID && d.port = rec.port && d.seq = rec.sequenceNumber &&
    rec.messageIndex = d.msgIndex + 1 && d.instrumentID = rec.instrumentID

/-- What the record keeps for a strike behind it. -/
def Record.definitionRef (rec : Record) : DefinitionRef where
  channelID := rec.channelID
  port := rec.port
  seq := rec.sequenceNumber
  msgIndex := rec.messageIndex
  instrumentID := rec.instrumentID
  sourceID := toUint16 rec.fields.sourceId

/-- Messages and the shards they are sent to. -/
abbrev Sends := List (ℕ × ShardMsg)

/-- The channel-scoped state, for `n` shards. -/
structure Coordinator where
  n : ℕ
  resetCount : ExtTreeMap ℕ ℕ := ∅
  manifest : ManifestState := {}
  openGroup : ExtTreeMap ℕ OpenGroup := ∅
  prevDefinition : Option DefinitionRef := none

namespace Coordinator

variable (c : Coordinator)

def shardFor (instrumentID : ℕ) : ℕ := instrumentID % c.n

def routeInstrument (rec : Record) : Sends := [(c.shardFor rec.instrumentID, .record rec)]

/-- One message to every shard. -/
def broadcast (msg : ShardMsg) : Sends := (List.range c.n).map fun idx ↦ (idx, msg)

/-- Record the manifest and, when its sequence rises, have every shard prune. -/
def applyManifest (rec : Record) : Coordinator × Sends :=
  let newSeq := toUint16 rec.fields.manifestSeq
  let prev := c.manifest.seq
  let manifest : ManifestState :=
    { seq := newSeq, valid := toUint8 rec.fields.valid ≠ 0
      instrumentCount := toUint32 rec.fields.instrumentCount }
  if manifest.valid = false ∨ newSeq ≤ prev then ({ c with manifest := manifest }, [])
  else ({ c with manifest := manifest }, c.broadcast (.manifestPrune newSeq))

/-- The classification of a record, given the definition that the record before it was. -/
def classify (prevDefinition : Option DefinitionRef) (rec : Record) : Coordinator × Sends :=
  match rec.type with
  | .levelUpdate | .bookClear | .instrumentReset | .trade | .liquidation =>
      (c, c.routeInstrument rec)
  | .instrumentDefinition =>
      ({ c with prevDefinition := some rec.definitionRef }, c.routeInstrument rec)
  | .strikeInterval =>
      match prevDefinition with
      | none => (c, [])
      | some d =>
          if !d.pairs rec then (c, [])
          else if d.sourceID ≠ toUint16 rec.fields.sourceId then (c, [])
          else (c, c.routeInstrument rec)
  | .snapshotBegin =>
      let idx := c.shardFor rec.instrumentID
      let g : OpenGroup := ⟨rec.instrumentID, toUint32 rec.fields.snapshotId, idx⟩
      ({ c with openGroup := c.openGroup.insert rec.channelID g }, [(idx, .record rec)])
  | .snapshotLevel =>
      match c.openGroup[rec.channelID]? with
      | none => (c, [])
      | some g =>
          if g.snapshotID ≠ toUint32 rec.fields.snapshotId then (c, [])
          -- the wire names no instrument: the open group does
          else (c, [(g.shard, .record { rec with instrumentID := g.instrumentID })])
  | .snapshotEnd =>
      ({ c with openGroup := c.openGroup.erase rec.channelID }, c.routeInstrument rec)
  | .batchBoundary => (c, c.broadcast (.record rec))
  | .manifestSummary => c.applyManifest rec
  | .endOfSession => (c, c.broadcast .fence)
  | .heartbeat | .other => (c, [])

/-- What the barrier of a channel's reset leaves, behind the acknowledgements. -/
def resetBarrier (rec : Record) : Coordinator :=
  { c with openGroup := c.openGroup.erase rec.channelID
           manifest := {}
           resetCount := c.resetCount.insert rec.channelID rec.resetCount }

/-- Whether a record's Reset Count is another than the channel's. -/
def resets (rec : Record) : Bool := (c.resetCount[rec.channelID]?).any fun prev ↦ rec.resetCount ≠ prev

/-- The Reset Count of a channel is learned from its first record. -/
def learn (rec : Record) : Coordinator :=
  match c.resetCount[rec.channelID]? with
  | some _ => c
  | none => { c with resetCount := c.resetCount.insert rec.channelID rec.resetCount }

/-- `Dispatch`.  At a change of the Reset Count the barrier comes first, and then the record as
the first of its era: no definition is before it. -/
def dispatch (rec : Record) : Coordinator × Sends :=
  let prevDefinition := c.prevDefinition
  let c := { c with prevDefinition := none }
  if c.resets rec then
    let (c', sends) := (c.resetBarrier rec).classify none rec
    (c', c.broadcast (.reset rec.channelID) ++ sends)
  else (c.learn rec).classify prevDefinition rec

/-- `OnDisconnect`. -/
def onDisconnect : Coordinator × Sends :=
  ({ c with openGroup := ∅, prevDefinition := none }, c.broadcast .clearShadows)

end Coordinator

/-- What the read loop hands to the coordinator. -/
inductive Input where
  | record (rec : Record)
  | disconnect
deriving DecidableEq, Repr

def Coordinator.take (c : Coordinator) : Input → Coordinator × Sends
  | .record rec => c.dispatch rec
  | .disconnect => c.onDisconnect

/-- An input, with the visiting orders it is met with in every shard. -/
abbrev Arrival := (ℕ → Choices) × Input

namespace Coordinator

/-- The part of what is sent that one shard receives. -/
def pick (σ : ℕ → Choices) (idx : ℕ) (sends : Sends) : List Turn :=
  sends.filterMap fun m ↦ if m.1 = idx then some (σ idx, m.2) else none

theorem mem_pick {σ : ℕ → Choices} {idx : ℕ} {sends : Sends} {a : Turn}
    (h : a ∈ pick σ idx sends) : (idx, a.2) ∈ sends := by
  obtain ⟨⟨i, msg⟩, hm, ha⟩ := List.mem_filterMap.mp h
  by_cases hi : i = idx
  · rw [if_pos hi] at ha
    obtain rfl := Option.some.inj ha
    exact hi ▸ hm
  · rw [if_neg hi] at ha
    exact absurd ha (by simp)

/-- What one input puts in the inbox of a shard. -/
def sentTo (c : Coordinator) (idx : ℕ) (a : Arrival) : List Turn :=
  pick a.1 idx (c.take a.2).2

/-- Everything a run puts in the inbox of a shard. -/
def inbox (idx : ℕ) : Coordinator → List Arrival → List Turn
  | _, [] => []
  | c, a :: as => c.sentTo idx a ++ inbox idx (c.take a.2).1 as

end Coordinator

/-! ## The coordinator and its shards -/

structure System where
  coordinator : Coordinator
  shards : ℕ → Shard

namespace System

/-- A system as the book-builder starts it. -/
def new (n : ℕ) (maxBuffered : ℤ) (symbols : Option (List String)) : System where
  coordinator := { n := n }
  shards _ := Shard.new maxBuffered symbols

/-- A shard takes a message from its inbox. -/
def deliver (σ : ℕ → Choices) (shards : ℕ → Shard) (m : ℕ × ShardMsg) : ℕ → Shard :=
  Function.update shards m.1 ((shards m.1).step (σ m.1, m.2))

/-- An input is taken and every message it sends is delivered. -/
def step (sys : System) (a : Arrival) : System where
  coordinator := (sys.coordinator.take a.2).1
  shards := (sys.coordinator.take a.2).2.foldl (deliver a.1) sys.shards

/-- A shard takes the messages sent to it. -/
theorem foldl_deliver (σ : ℕ → Choices) (sends : Sends) (shards : ℕ → Shard) (idx : ℕ) :
    sends.foldl (deliver σ) shards idx =
      run Shard.step (shards idx) (Coordinator.pick σ idx sends) := by
  induction sends generalizing shards with
  | nil => rfl
  | cons m sends ih =>
      rw [List.foldl_cons, ih, Coordinator.pick, Coordinator.pick, List.filterMap_cons, deliver]
      by_cases hidx : m.1 = idx
      · subst hidx
        rw [Function.update_self, if_pos rfl, run_cons]
      · rw [Function.update_of_ne (Ne.symm hidx), if_neg hidx]

theorem step_shards (sys : System) (a : Arrival) (idx : ℕ) :
    (sys.step a).shards idx = run Shard.step (sys.shards idx) (sys.coordinator.sentTo idx a) :=
  foldl_deliver ..

/-- **The inboxes say where the shards stand.**  However the goroutines are scheduled, a shard
that has drained its inbox is where the system is. -/
theorem run_shards (sys : System) (as : List Arrival) (idx : ℕ) :
    (run step sys as).shards idx =
      run Shard.step (sys.shards idx) (sys.coordinator.inbox idx as) := by
  induction as generalizing sys with
  | nil => rfl
  | cons a as ih => rw [run_cons, ih, step_shards, Coordinator.inbox, run_append]; rfl

end System

end EdgeMulticast.MarketByPrice
