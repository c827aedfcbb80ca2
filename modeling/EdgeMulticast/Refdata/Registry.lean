import EdgeMulticast.Lib.FiniteMap
import EdgeMulticast.Refdata.Record

/-!
# The registry

`registry.rs`, `policy.rs` and `store.rs` (`dz-publisher-refdata`): the one thing in a process that
admits instruments.  A registry is what it has given identifiers to (`Identities`), what it publishes
now (`Publication`) and how it is configured.

A store answers each write as its contract allows, in the order in which the answers are listed.
Counts, the last refusal and the names kept for reports are left out, and the clock's readings are
arguments.
-/

namespace EdgeMulticast.Refdata

open EdgeMulticast.Lib
open EdgeMulticast.Codec
open EdgeMulticast.Lowering (Instrument InstrumentRef InstrumentTable SourceId)
open Std (ExtTreeMap)

/-! ## Where the record lives -/

inductive StateError where
  | alreadyHeld | claim | read | write | notReplaced
deriving DecidableEq, Repr

/-- What becomes of a record that is replaced.  When it is not known, it is the one or the other. -/
inductive Replacement where
  | replaced
  | notReplaced
  | unknown (replaced : Bool)
deriving DecidableEq, Repr

structure Store where
  record : Option (List Byte) := none
  /-- Why the directory cannot be claimed, or the record not be read. -/
  claims : Option StateError := none
  loads : Option StateError := none
  /-- What each append does: it lands, or it fails with so many of its bytes in the record. -/
  appends : List (Option ℕ) := []
  replaces : List Replacement := []
  /-- Where a truncation that fails leaves the end of the record. -/
  truncates : Option ℕ := none
deriving DecidableEq

namespace Store

def append (s : Store) (bytes : List Byte) : Except StateError Unit × Store :=
  let landed (n : ℕ) : Store :=
    { s with record := some (s.record.getD [] ++ bytes.take n), appends := s.appends.tail }
  match s.appends.head?.join with
  | none => (.ok (), landed bytes.length)
  | some kept => (.error .write, landed kept)

def store (s : Store) (record : List Byte) : Except StateError Unit × Store :=
  let next : Store := { s with replaces := s.replaces.tail }
  match s.replaces.head?.getD .replaced with
  | .replaced => (.ok (), { next with record := some record })
  | .notReplaced => (.error .notReplaced, next)
  | .unknown true => (.error .write, { next with record := some record })
  | .unknown false => (.error .write, next)

def truncate (s : Store) (len : ℕ) : Except StateError Unit × Store :=
  match s.truncates with
  | none => (.ok (), { s with record := s.record.map (List.take len) })
  | some kept => (.error .write, { s with record := s.record.map (List.take (max len kept)) })

end Store

/-! ## How it is configured -/

inductive Phase where
  | seeding | established | shuttingDown
deriving DecidableEq, Repr

structure SelectionPolicy where
  bootstrapTopN : ℕ
  maxPublished : ℕ
deriving DecidableEq, Repr

def SelectionPolicy.limit (p : SelectionPolicy) : Phase → ℕ
  | .seeding => p.bootstrapTopN
  | .established => p.maxPublished
  | .shuttingDown => 0

/-- A length of time, in seconds and the nanoseconds behind them. -/
structure Duration where
  secs : ℕ
  nanos : ℕ
deriving DecidableEq, Repr

structure ShardConfig where
  name : String
  channelId : Byte
deriving DecidableEq, Repr

structure RegistryConfig where
  sourceId : SourceId
  shards : List ShardConfig
  selection : SelectionPolicy
  schedule : CycleSchedule
  forgetDelistedAfter : Option Duration := none
  idAllocation : IdAllocation := .sequential
  identity : Identity := .symbol
  venueKeys : VenueKeys := .symbol
deriving DecidableEq

def COMPACTION_FLOOR : ℕ := 1024

/-! ## The state -/

/-- One minted Instrument ID. -/
structure Minted where
  instrumentId : ℕ
  symbol : SymbolKey
  /-- Whether the record holds it as published. -/
  recordedPublished : Bool
  /-- The second it was last published, where it is not. -/
  lastPublishedS : ℕ
deriving DecidableEq

/-- Every Instrument ID, and the record of them. -/
structure Identities where
  store : Store
  minted : ExtTreeMap RecallKey Minted := ∅
  nextId : ℕ
  baseWritten : Bool
  baseEntries : ℕ
  appended : ℕ
  compactionAt : ℕ
  /-- What holds each identifier, where identifiers are derived. -/
  inUse : ExtTreeMap ℕ RecallKey := ∅
  fault : Option StateError := none

/-- What is published. -/
structure Publication where
  handles : ExtTreeMap RecallKey InstrumentRef := ∅
  slots : List (Option Published) := []
  slotKeys : List (Option RecallKey) := []
  published : ℕ := 0
  instruments : InstrumentTable := {}
  sets : List PublishedSet
  polling : Bool := false
  phase : Phase := .seeding

structure Registry extends Identities, Publication where
  config : RegistryConfig

/-- The second a horizon is measured at. -/
def nowS (unixNs : ℕ) : ℕ := unixNs / 1000000000

/-- The second an instrument is recorded as last published at: rounded up. -/
def stampS (unixNs : ℕ) : ℕ := (unixNs + 999999999) / 1000000000

/-- The Manifest Seq behind another: one more, and 1 behind the last. -/
def nextManifestSeq (seq : UInt16) : UInt16 := if seq = 65535 then 1 else seq + 1

def PublishedSet.advance (set : PublishedSet) : PublishedSet :=
  { set with manifestSeq := nextManifestSeq set.manifestSeq }

/-- Slots up to an index. -/
def resizeTo {α : Type} (index : ℕ) (slots : List (Option α)) : List (Option α) :=
  slots ++ List.replicate (index + 1 - slots.length) none

/-- A slot is held from here on. -/
def putSlot {α : Type} (slots : List (Option α)) (index : ℕ) (a : α) : List (Option α) :=
  (resizeTo index slots).set index (some a)

/-! ## The published set -/

namespace Publication

variable (p : Publication)

def slot (instrument : InstrumentRef) : Option Published := slotAt p.slots instrument.index.toNat

def setSlot (instrument : InstrumentRef) (entry : Published) : Publication :=
  { p with slots := p.slots.set instrument.index.toNat (some entry) }

def modifySet (shard : ℕ) (f : PublishedSet → PublishedSet) : Publication :=
  { p with sets := p.sets.modify shard f }

def setChanged (shard : ℕ) : Publication :=
  if p.polling then p.modifySet shard fun set ↦ { set with changed := true }
  else p.modifySet shard PublishedSet.advance

/-- Advance every shard that the poll changed. -/
def endPoll : Publication :=
  { p with
    polling := false
    sets := p.sets.map fun set ↦ if set.changed then { set with changed := false }.advance else set }

/-- Publish what was composed. -/
def publish (key : RecallKey) (shard : ℕ) (composed : Composition) : InstrumentRef × Publication :=
  let (handle, instruments) := p.instruments.admitInstrument composed.instrument
  let index := handle.index.toNat
  let published := { p with
    instruments
    slotKeys := putSlot p.slotKeys index key
    slots := putSlot p.slots index { shard, definition := composed.definition }
    handles := p.handles.insert key handle
    published := p.published + 1 }
  (handle, (published.modifySet shard fun set ↦ { set with published := set.published + 1 }).setChanged
    shard)

/-- An instrument that is published is offered again. -/
def reoffer (sourceId : SourceId) (handle : InstrumentRef) (shard : ℕ) (spec : InstrumentSpec) :
    Publication :=
  match p.slot handle with
  | none => p
  | some entry =>
      if entry.shard ≠ shard then p
      else match compose spec entry.definition.instrumentId sourceId with
        | .error _ => p
        | .ok composed =>
            if p.instruments.get handle ≠ .ok composed.instrument then p
            else if sameDefinition entry.definition composed.definition then p
            else (p.setSlot handle { entry with definition := composed.definition }).setChanged shard

/-- What a published instrument is recalled by. -/
def keyAt (instrument : InstrumentRef) : RecallKey :=
  (slotAt p.slotKeys instrument.index.toNat).getD []

/-- Withdraw a published instrument. -/
def withdraw (instrument : InstrumentRef) : Publication :=
  match p.slot instrument with
  | none => p
  | some entry =>
      ({ p with
        slots := p.slots.set instrument.index.toNat none
        slotKeys := p.slotKeys.set instrument.index.toNat none
        handles := p.handles.erase (p.keyAt instrument)
        instruments := p.instruments.withdraw instrument
        published := p.published - 1 : Publication }.modifySet entry.shard fun set ↦ { set with
          published := set.published - 1
          strikesPending := set.strikesPending - if entry.strike.any isPending then 1 else 0 }).setChanged
            entry.shard

/-- Hold a strike for an instrument whose entry was `entry` until now. -/
def replaceStrike (instrument : InstrumentRef) (entry : Published) (strike : StrikeInterval) :
    Publication :=
  (p.setSlot instrument { entry with strike := some strike }).modifySet entry.shard fun set ↦ { set with
    strikesPending := set.strikesPending - (if entry.strike.any isPending then 1 else 0) +
      if isPending strike then 1 else 0
    strikesChanged :=
      if entry.defined && instrument ∉ set.strikesChanged then set.strikesChanged ++ [instrument]
      else set.strikesChanged }

def restateStrike (sourceId : SourceId) (instrument : InstrumentRef) (entry : Published)
    (stated : Strike) : Except Refusal Unit × Publication :=
  let instrumentId := entry.definition.instrumentId
  match composeStrike stated instrumentId sourceId with
  | .error refusal =>
      -- before the first definition, a strike that cannot be carried is a pending one
      if entry.strike = none ∧ !entry.defined then
        (.error refusal, p.replaceStrike instrument entry
          (pendingInterval instrumentId sourceId.value 0))
      else (.error refusal, p)
  | .ok composed =>
      match entry.strike with
      | some current =>
          if sameInterval current composed then
            if current.fixingTimeNs = 0 ∧ composed.fixingTimeNs ≠ 0 then
              (.ok (), p.setSlot instrument { entry with
                strike := some { current with fixingTimeNs := composed.fixingTimeNs } })
            else (.ok (), p)
          else if !isPending current && isPending composed then (.error .strikeUnfixed, p)
          else (.ok (), p.replaceStrike instrument entry composed)
      | none =>
          if entry.defined then (.error .strikePresence, p)
          else (.ok (), p.replaceStrike instrument entry composed)

/-- State the strike of a published instrument. -/
def stateStrike (sourceId : SourceId) (instrument : InstrumentRef) (stated : Strike) :
    Except Refusal Unit × Publication :=
  match p.slot instrument with
  | none => (.ok (), p)
  | some entry => p.restateStrike sourceId instrument entry stated

/-- The definitions that a shard's tick owes. -/
def definitionTick (shard : ℕ) (monotonicNs : ℕ) : List PublishedDefinition × Publication :=
  match p.sets[shard]? with
  | none => ([], p)
  | some set =>
      let (out, set, slots) := set.tick shard monotonicNs p.slots
      (out, { p with sets := p.sets.set shard set, slots })

/-- What a shard owes ahead of the cycle, because strikes changed. -/
def strikeChanges (schedule : CycleSchedule) (shard : ℕ) : List PublishedDefinition × Publication :=
  match p.sets[shard]? with
  | none => ([], p)
  | some set =>
      -- a handle that has been withdrawn owes nothing
      let waiting := set.strikesChanged.filterMap fun handle ↦
        (p.slot handle).map fun entry ↦ (handle, entry)
      let fitting := schedule.fittingBehind MANIFEST_SIZE
        (waiting.map fun (_, entry) ↦ wireSize entry.strike.isSome)
      ((waiting.take fitting).map fun (_, entry) ↦ entry.handedOut set.manifestSeq,
        p.modifySet shard fun set ↦
          { set with strikesChanged := (waiting.drop fitting).map Prod.fst })

end Publication

namespace Registry

variable (r : Registry)

def keyed : Bool := r.config.identity = .venueKey

def shardIndex (shard : String) : Option ℕ := r.config.shards.findIdx? (·.name = shard)

/-! ## The record -/

/-- Every entry that is not published, and was last published the horizon ago. -/
def forgettable (nowS : ℕ) : List RecallKey :=
  match r.config.forgetDelistedAfter with
  | none => []
  | some horizon =>
      let horizonS := horizon.secs + if 0 < horizon.nanos then 1 else 0
      (r.minted.toList.filter fun (key, minted) ↦
        !r.handles.contains key &&
          min (minted.lastPublishedS + horizonS) U64_MAX ≤ nowS).map Prod.fst

/-- Whether a base holds an entry as published. -/
def writtenPublished (key : RecallKey) (minted : Minted) : Bool :=
  r.handles.contains key || r.phase = .seeding && minted.recordedPublished

def fieldOf (key : RecallKey) (symbol : SymbolKey) : Option (List Byte) :=
  if r.keyed then venueKeyField key symbol else none

/-- What a base holds for an entry. -/
def entryOf (key : RecallKey) (minted : Minted) : Entry where
  instrumentId := minted.instrumentId
  symbol := minted.symbol
  venueKey := r.fieldOf key minted.symbol
  delistedAt := if r.writtenPublished key minted then none else some minted.lastPublishedS

/-- A mint that is a directory's first write. -/
structure Minting where
  instrumentId : ℕ
  key : RecallKey
  symbol : SymbolKey
  nextId : ℕ

/-- The base of every entry but the forgotten ones, and of the first mint. -/
def baseRecord (minting : Option Minting) (forgetting : List RecallKey) : StateRecord where
  sourceId := r.config.sourceId.value.toNat
  nextId := (minting.map Minting.nextId).getD r.nextId
  entries :=
    ((r.minted.filter fun key _ ↦ key ∉ forgetting).toList.map fun (key, m) ↦ r.entryOf key m) ++
      (minting.map fun m ↦
        { instrumentId := m.instrumentId, symbol := m.symbol,
          venueKey := r.fieldOf m.key m.symbol, delistedAt := none : Entry }).toList
  allocation := r.config.idAllocation
  keyed := if r.keyed then some r.config.venueKeys else none

def writeBase (minting : Option Minting) (forgetting : List RecallKey) :
    Except StateError Unit × Registry :=
  let record := r.baseRecord minting forgetting
  match r.store.store record.encode with
  | (.error e, store) => (.error e, { r with store })
  | (.ok (), store) => (.ok (), { r with
      store
      minted := (r.minted.filter fun key _ ↦ key ∉ forgetting).map fun key m ↦
        { m with recordedPublished := r.writtenPublished key m }
      baseEntries := record.entries.length
      compactionAt := max record.entries.length COMPACTION_FLOOR
      baseWritten := true
      appended := 0 })

/-- The line that mints or restates an identifier. -/
def lineOf (instrumentId : ℕ) (key : RecallKey) (symbol : SymbolKey) : List Byte :=
  if r.keyed then encodeKeyedLine instrumentId symbol (venueKeyField key symbol)
  else encodeLine instrumentId symbol

/-- One appended line, or the first base of a directory. -/
def writeDown (m : Minting) : Except StateError Unit × Registry :=
  if r.baseWritten then
    match r.store.append (r.lineOf m.instrumentId m.key m.symbol) with
    | (.ok (), store) => (.ok (), { r with store, appended := r.appended + 1 })
    | (.error e, store) => (.error e, { r with store })
  else r.writeBase (some m) []

/-- Write down an identifier that an admission relies on. -/
def persist (m : Minting) : Except Refusal Unit × Registry :=
  match r.writeDown m with
  | (.ok (), r) => (.ok (), r)
  | (.error e, r) => (.error .unpersistable, { r with fault := some e })

def compactionDue : Bool := r.compactionAt ≤ r.appended

/-- Fold the appended lines into a new base where they are due, and say whether it was written. -/
def compact (opening : Bool) (nowS : ℕ) : Except StateError Bool × Registry :=
  let forgetting := if opening || r.compactionDue then r.forgettable nowS else []
  if !r.compactionDue && forgetting = [] then (.ok false, r)
  else match r.writeBase none forgetting with
    | (.ok (), r) => (.ok true, r)
    | (.error .notReplaced, r) =>
        -- every entry is still in the record: tried again a threshold of lines later
        (.ok false, { r with compactionAt := r.appended + max r.baseEntries COMPACTION_FLOOR })
    | (.error e, r) => (.error e, r)

/-- Compact behind an admission.  Its line is durable, so a base that fails faults what follows and
not the admission. -/
def settle (nowS : ℕ) : Registry :=
  match r.compact false nowS with
  | (.ok _, r) => r
  | (.error e, r) => { r with fault := some e }

/-! ## Admission -/

/-- The identifier an instrument would get, and whether it is derived. -/
def resolveId (key : RecallKey) (symbol : SymbolKey) : ℕ :=
  match r.minted[key]?, r.config.idAllocation with
  | some minted, _ => minted.instrumentId
  | none, .sequential => r.nextId
  | none, .derived => deriveInstrumentId symbol
  | none, .derivedKey => deriveInstrumentIdFromKey key

/-- The next identifier behind a mint. -/
def nextAfterMint : Except Refusal ℕ :=
  match r.config.idAllocation with
  | .sequential =>
      if r.nextId + 1 ≤ U32_MAX then .ok (r.nextId + 1) else .error .idSpaceExhausted
  | .derived | .derivedKey => .ok r.nextId

/-- Write down what an admission relies on: a mint, or a relisting that the record holds as
delisted. -/
def identify (instrumentId : ℕ) (key : RecallKey) (symbol : SymbolKey) :
    Except Refusal Unit × Registry :=
  match r.minted[key]? with
  | none =>
      match r.nextAfterMint with
      | .error refusal => (.error refusal, r)
      | .ok nextId =>
          match r.persist ⟨instrumentId, key, symbol, nextId⟩ with
          | (.error refusal, r) => (.error refusal, r)
          | (.ok (), r) => (.ok (), { r with
              minted := r.minted.insert key ⟨instrumentId, symbol, true, 0⟩
              inUse := if r.config.idAllocation.isDerived then r.inUse.insert instrumentId key
                else r.inUse
              nextId })
  | some minted =>
      if minted.recordedPublished then (.ok (), r)
      else match r.persist ⟨instrumentId, key, minted.symbol, r.nextId⟩ with
        | (.error refusal, r) => (.error refusal, r)
        | (.ok (), r) => (.ok (), { r with
            minted := r.minted.modify key fun m ↦ { m with recordedPublished := true } })

/-- Whether a derived identifier is not to be had. -/
def unavailable (key : RecallKey) (instrumentId : ℕ) : Bool :=
  r.minted[key]?.isNone && r.config.idAllocation.isDerived &&
    (instrumentId = 0 || instrumentId < r.nextId || r.inUse.contains instrumentId)

/-- Admit an instrument that is not published. -/
def admitInstrument (key : RecallKey) (symbol : SymbolKey) (shard : ℕ) (spec : InstrumentSpec)
    (unixNs : ℕ) : Except Refusal InstrumentRef × Registry :=
  if r.phase = .shuttingDown then (.error .shuttingDown, r)
  else if r.fault.isSome then (.error .unpersistable, r)
  else if r.config.selection.limit r.phase ≤ r.published then (.error .capped, r)
  else
    let instrumentId := r.resolveId key symbol
    let derived := r.minted[key]?.isNone && r.config.idAllocation.isDerived
    if instrumentId = 0 ∧ !derived then (.error .idSpaceExhausted, r)
    else match compose spec (UInt32.ofNat instrumentId) r.config.sourceId with
      | .error refusal => (.error refusal, r)
      | .ok composed =>
          if r.unavailable key instrumentId then (.error .idUnavailable, r)
          else match r.identify instrumentId key symbol with
            | (.error refusal, r) => (.error refusal, r)
            | (.ok (), r) =>
                let (handle, publication) := r.toPublication.publish key shard composed
                (.ok handle, { r with toPublication := publication }.settle (nowS unixNs))

/-- The venue key that an offer is recalled by. -/
def venueKey (spec : InstrumentSpec) : Except Refusal RecallKey :=
  if r.config.venueKeys = .symbol ∧ spec.venueKey.any (· ≠ spec.symbol) then
    .error .venueKeyNotDeclared
  else
    let key := spec.venueKey.getD spec.symbol
    if isVenueKey key then .ok key else .error .badVenueKey

/-- What an offer is recalled by. -/
def recallKey (spec : InstrumentSpec) : Except Refusal RecallKey :=
  match r.config.identity with
  | .symbol => .ok (symbolField spec.symbol).1.toList
  | .venueKey => r.venueKey spec

/-- Offer an instrument on a shard. -/
def offer (shard : String) (spec : InstrumentSpec) (unixNs : ℕ) :
    Except Refusal InstrumentRef × Registry :=
  match r.shardIndex shard with
  | none => (.error .unknownShard, r)
  | some index =>
      match r.recallKey spec with
      | .error refusal => (.error refusal, r)
      | .ok key =>
          match r.handles[key]? with
          | some handle => (.ok handle, { r with
              toPublication := r.toPublication.reoffer r.config.sourceId handle index spec })
          | none => r.admitInstrument key (symbolField spec.symbol).1 index spec unixNs

/-- Withdraw a published instrument.  Its entry stays, with the second it was last published. -/
def withdraw (instrument : InstrumentRef) (unixNs : ℕ) : Registry :=
  match r.slot instrument with
  | none => r
  | some _ => { r with
      toPublication := r.toPublication.withdraw instrument
      minted := r.minted.modify (r.keyAt instrument) fun m ↦
        { m with lastPublishedS := stampS unixNs } }

def stateStrike (instrument : InstrumentRef) (stated : Strike) : Except Refusal Unit × Registry :=
  let (result, publication) := r.toPublication.stateStrike r.config.sourceId instrument stated
  (result, { r with toPublication := publication })

/-! ## What goes out -/

def definitionTick (shard : String) (monotonicNs : ℕ) : List PublishedDefinition × Registry :=
  match r.shardIndex shard with
  | none => ([], r)
  | some index =>
      let (out, publication) := r.toPublication.definitionTick index monotonicNs
      (out, { r with toPublication := publication })

def strikeChanges (shard : String) : List PublishedDefinition × Registry :=
  match r.shardIndex shard with
  | none => ([], r)
  | some index =>
      let (out, publication) := r.toPublication.strikeChanges r.config.schedule index
      (out, { r with toPublication := publication })

/-! ## Polls -/

end Registry

/-- What an adapter does with the sink that a poll hands it. -/
inductive SinkCall where
  | list (shard : String) (spec : InstrumentSpec) (unixNs : ℕ)
  | delist (instrument : InstrumentRef) (unixNs : ℕ)
  | strike (instrument : InstrumentRef) (stated : Strike)

namespace Registry

variable (r : Registry)

def sinkCall : SinkCall → Registry
  | .list shard spec unixNs => (r.offer shard spec unixNs).2
  | .delist instrument unixNs => r.withdraw instrument unixNs
  | .strike instrument stated => (r.stateStrike instrument stated).2

/-- A poll in progress, so far. -/
def polled (drain : List SinkCall) : Registry := drain.foldl sinkCall { r with polling := true }

/-- Run one listings poll. -/
def poll (drain : List SinkCall) : Registry :=
  let drained := r.polled drain
  { drained with toPublication := drained.toPublication.endPoll }

def seedingComplete : Registry :=
  { r with phase := if r.phase = .seeding then .established else r.phase }

def beginShutdown : Registry := { r with phase := .shuttingDown }

end Registry

/-- What a process calls on its registry.  A call of the sink outside a poll is one of its own. -/
inductive RegistryCall where
  | poll (drain : List SinkCall)
  | sink (call : SinkCall)
  | definitionTick (shard : String) (monotonicNs : ℕ)
  | strikeChanges (shard : String)
  | seedingComplete
  | beginShutdown

namespace Registry

variable (r : Registry)

def call : RegistryCall → Registry
  | .poll drain => r.poll drain
  | .sink c => r.sinkCall c
  | .definitionTick shard monotonicNs => (r.definitionTick shard monotonicNs).2
  | .strikeChanges shard => (r.strikeChanges shard).2
  | .seedingComplete => r.seedingComplete
  | .beginShutdown => r.beginShutdown

def publishedOn (shard : String) : Option ℕ :=
  (r.shardIndex shard).bind fun index ↦ r.sets[index]?.map PublishedSet.published

def manifestSeq (shard : String) : Option UInt16 :=
  (r.shardIndex shard).bind fun index ↦ r.sets[index]?.map PublishedSet.manifestSeq

def strikesPendingOn (shard : String) : Option ℕ :=
  (r.shardIndex shard).bind fun index ↦ r.sets[index]?.map PublishedSet.strikesPending

end Registry

/-! ## Opening -/

inductive RefdataError where
  | stateHeldByAnotherWriter
  | state (error : StateError)
  | corruptState (error : RecordError)
  | noShardConfigured
  | shardConfiguredTwice (shard : String)
  | stateBelongsToAnotherSource (persisted configured : ℕ)
  | forgettingUnderDerivedIds
  | stateIsDerived
  | venueKeysWithoutVenueKey
  | derivedKeyWithoutVenueKey
  | derivedWithStatedVenueKeys
  | derivationChanged (persisted configured : IdAllocation)
  | stateIsKeyed
  | venueKeysChanged (persisted configured : VenueKeys)
  | unresolvedVenueKeys (entries : List (ℕ × SymbolKey))
deriving DecidableEq

/-- The first name that a list holds twice, at its second place. -/
def twice (names : List String) : Option String :=
  (names.zipIdx.find? fun (name, i) ↦ name ∈ names.take i).map Prod.fst

/-- A configuration that cannot be served is refused before the directory is claimed. -/
def RegistryConfig.check (config : RegistryConfig) : Except RefdataError Unit :=
  if config.shards = [] then .error .noShardConfigured
  else match twice (config.shards.map ShardConfig.name) with
    | some shard => .error (.shardConfiguredTwice shard)
    | none =>
        if config.venueKeys = .stated ∧ config.identity = .symbol then
          .error .venueKeysWithoutVenueKey
        else if config.idAllocation = .derivedKey ∧ config.identity = .symbol then
          .error .derivedKeyWithoutVenueKey
        else if config.idAllocation = .derived ∧ config.venueKeys = .stated then
          .error .derivedWithStatedVenueKeys
        else if config.idAllocation.isDerived ∧ config.forgetDelistedAfter.isSome then
          .error .forgettingUnderDerivedIds
        else .ok ()

/-- Whether a record is one that this configuration continues. -/
def StateRecord.check (record : StateRecord) (config : RegistryConfig) : Except RefdataError Unit :=
  if record.sourceId ≠ config.sourceId.value.toNat then
    .error (.stateBelongsToAnotherSource record.sourceId config.sourceId.value.toNat)
  else if record.allocation.isDerived ∧ config.idAllocation = .sequential then
    .error .stateIsDerived
  else if record.allocation.isDerived ∧ config.idAllocation.isDerived ∧
      record.allocation ≠ config.idAllocation then
    .error (.derivationChanged record.allocation config.idAllocation)
  else match record.keyed, config.identity with
    | some _, .symbol => .error .stateIsKeyed
    | some persisted, .venueKey =>
        if persisted ≠ config.venueKeys then
          .error (.venueKeysChanged persisted config.venueKeys)
        else .ok ()
    | none, .venueKey =>
        let unresolved := record.entries.filter fun e ↦
          config.venueKeys = .stated || !symbolIsWhole e.symbol
        if unresolved ≠ [] then
          .error (.unresolvedVenueKeys (unresolved.map fun e ↦ (e.instrumentId, e.symbol)))
        else .ok ()
    | none, .symbol => .ok ()

/-- What an entry is recalled by. -/
def Entry.recallKey (keyed : Bool) (e : Entry) : RecallKey :=
  if keyed then e.key else e.symbol.toList

namespace Registry

/-- A registry that has read a record. -/
def ofRecord (config : RegistryConfig) (store : Store) (loaded : Option Loaded)
    (openedS : ℕ) : Registry :=
  let record := (loaded.map Loaded.record).getD (.empty config.sourceId.value.toNat)
  let keyed : Bool := config.identity = .venueKey
  let base := (loaded.map Loaded.base).getD 0
  { config
    store
    minted := record.entries.foldl (fun minted e ↦ minted.insert (e.recallKey keyed)
      ⟨e.instrumentId, e.symbol, e.delistedAt.isNone, e.delistedAt.getD openedS⟩) ∅
    nextId := record.nextId
    baseWritten := loaded.isSome
    baseEntries := base
    appended := (loaded.map Loaded.appended).getD 0
    compactionAt := max base COMPACTION_FLOOR
    inUse := if config.idAllocation.isDerived then
      record.entries.foldl (fun inUse e ↦ inUse.insert e.instrumentId (e.recallKey keyed)) ∅
      else ∅
    sets := config.shards.map fun _ ↦ { pacer := { schedule := config.schedule } } }

/-- Rewrite a record that has to be, or is owed to be; else cut a torn line off. -/
def recover (r : Registry) (loaded : Loaded) (nowS : ℕ) : Except StateError Unit × Registry :=
  let rewritten : Except StateError Bool × Registry :=
    if loaded.needsRewrite r.config.identity ∨ loaded.record.allocation ≠ r.config.idAllocation then
      match r.writeBase none (r.forgettable nowS) with
      | (.error e, r) => (.error e, r)
      | (.ok (), r) => (.ok true, r)
    else r.compact true nowS
  match rewritten with
  | (.error e, r) => (.error e, r)
  | (.ok rewritten, r) =>
      if !rewritten && loaded.torn then
        match r.store.truncate loaded.complete with
        | (.error e, store) => (.error e, { r with store })
        | (.ok (), store) => (.ok (), { r with store })
      else (.ok (), r)

/-- Claim the directory, read its record, and be ready to admit.  The clock is read twice. -/
def «open» (config : RegistryConfig) (store : Store) (openedNs rewriteNs : ℕ) :
    Except RefdataError Registry × Store :=
  match config.check with
  | .error e => (.error e, store)
  | .ok () =>
      match store.claims with
      | some .alreadyHeld => (.error .stateHeldByAnotherWriter, store)
      | some e => (.error (.state e), store)
      | none =>
          match store.loads with
          | some e => (.error (.state e), store)
          | none =>
              match store.record.map StateRecord.load with
              | some (.error e) => (.error (.corruptState e), store)
              | some (.ok loaded) =>
                  match loaded.record.check config with
                  | .error e => (.error e, store)
                  | .ok () =>
                      match (ofRecord config store (some loaded) (stampS openedNs)).recover loaded
                        (nowS rewriteNs) with
                      | (.error e, r) => (.error (.state e), r.store)
                      | (.ok (), r) => (.ok r, r.store)
              | none => (.ok (ofRecord config store none (stampS openedNs)), store)

end Registry

/-!
## What stating a strike does

One spec lemma for the ways through `Publication.restateStrike`.
-/

open EdgeMulticast.Lowering (InstrumentRef SourceId)

namespace Publication

inductive StrikeSpec (p : Publication) (sourceId : SourceId) (instrument : InstrumentRef)
    (entry : Published) (stated : Strike) : Except Refusal Unit → Publication → Prop
  | refused (refusal : Refusal) : StrikeSpec p sourceId instrument entry stated (.error refusal) p
  | pended (refusal : Refusal)
      (composes : composeStrike stated entry.definition.instrumentId sourceId = .error refusal)
      (absent : entry.strike = none) (undefined : entry.defined = false) :
      StrikeSpec p sourceId instrument entry stated (.error refusal) (p.replaceStrike instrument entry
        (pendingInterval entry.definition.instrumentId sourceId.value 0))
  | stands (current composed : StrikeInterval)
      (composes : composeStrike stated entry.definition.instrumentId sourceId = .ok composed)
      (strike : entry.strike = some current) (same : sameInterval current composed)
      (timed : current.fixingTimeNs = 0 → composed.fixingTimeNs = 0) :
      StrikeSpec p sourceId instrument entry stated (.ok ()) p
  | timed (current composed : StrikeInterval)
      (composes : composeStrike stated entry.definition.instrumentId sourceId = .ok composed)
      (strike : entry.strike = some current) (same : sameInterval current composed)
      (untimed : current.fixingTimeNs = 0) :
      StrikeSpec p sourceId instrument entry stated (.ok ()) (p.setSlot instrument { entry with
        strike := some { current with fixingTimeNs := composed.fixingTimeNs } })
  | replaced (composed : StrikeInterval)
      (composes : composeStrike stated entry.definition.instrumentId sourceId = .ok composed)
      (presence : entry.strike = none → entry.defined = false)
      (differs : ∀ current, entry.strike = some current → sameInterval current composed = false)
      (fixes : ∀ current, entry.strike = some current →
        isPending current = false → isPending composed = false) :
      StrikeSpec p sourceId instrument entry stated (.ok ()) (p.replaceStrike instrument entry composed)

variable {p : Publication} {sourceId : SourceId} {instrument : InstrumentRef} {entry : Published}
  {stated : Strike}

theorem restateStrike_spec : StrikeSpec p sourceId instrument entry stated
    (p.restateStrike sourceId instrument entry stated).1
    (p.restateStrike sourceId instrument entry stated).2 := by
  rw [restateStrike]
  split
  next refusal hcomposes =>
      split
      next habsent => exact .pended refusal hcomposes habsent.1 (by simpa only [Bool.not_eq_true'] using habsent.2)
      next => exact .refused refusal
  next composed hcomposes =>
      split
      next current hcurrent =>
          split
          next hsame =>
              split
              next htime => exact .timed current composed hcomposes hcurrent hsame htime.1
              next htime =>
                  refine .stands current composed hcomposes hcurrent hsame fun hunset ↦ ?_
                  exact Decidable.not_not.mp fun hset ↦ htime ⟨hunset, hset⟩
          next hdiffers =>
              split
              next => exact .refused _
              next hfixes =>
                  rw [Bool.and_eq_true, Bool.not_eq_true', not_and, Bool.not_eq_true] at hfixes
                  refine .replaced composed hcomposes (fun hnone ↦ ?_) (fun found hfound ↦ ?_)
                    fun found hfound hfixed ↦ ?_
                  · cases hcurrent.symm.trans hnone
                  · obtain rfl := Option.some.inj (hcurrent.symm.trans hfound)
                    exact Bool.eq_false_iff.mpr hdiffers
                  · obtain rfl := Option.some.inj (hcurrent.symm.trans hfound)
                    exact hfixes hfixed
      next hnone =>
          split
          next => exact .refused _
          next hundefined =>
              refine .replaced composed hcomposes (fun _ ↦ Bool.eq_false_iff.mpr hundefined)
                (fun found hfound ↦ ?_) fun found hfound ↦ ?_
              · cases hnone.symm.trans hfound
              · cases hnone.symm.trans hfound

/-- A statement leaves what is published, holds a strike for it, or takes its fixing time. -/
theorem stateStrike_cases (p : Publication) (sourceId : SourceId) (instrument : InstrumentRef)
    (stated : Strike) : (p.stateStrike sourceId instrument stated).2 = p ∨
      ∃ entry, p.slot instrument = some entry ∧
        ((∃ strike, (p.stateStrike sourceId instrument stated).2 =
            p.replaceStrike instrument entry strike) ∨
          ∃ current fixingTimeNs, entry.strike = some current ∧
            (p.stateStrike sourceId instrument stated).2 = p.setSlot instrument { entry with
              strike := some { current with fixingTimeNs } }) := by
  rw [stateStrike]
  split
  next => exact .inl rfl
  next entry hslot =>
      have hspec : StrikeSpec p sourceId instrument entry stated _ _ := restateStrike_spec
      generalize (p.restateStrike sourceId instrument entry stated).1 = result at hspec
      generalize (p.restateStrike sourceId instrument entry stated).2 = p' at hspec ⊢
      cases hspec with
      | refused refusal => exact .inl rfl
      | pended refusal composes absent undefined =>
          exact .inr ⟨entry, hslot, .inl ⟨_, rfl⟩⟩
      | stands current composed composes strike same timed => exact .inl rfl
      | timed current composed composes strike same untimed =>
          exact .inr ⟨entry, hslot, .inr ⟨current, _, strike, rfl⟩⟩
      | replaced composed composes presence differs fixes =>
          exact .inr ⟨entry, hslot, .inl ⟨composed, rfl⟩⟩

end Publication

end EdgeMulticast.Refdata
