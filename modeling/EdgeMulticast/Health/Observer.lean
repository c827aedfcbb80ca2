import EdgeMulticast.Codec.Core
import EdgeMulticast.Loss.Sequence
import EdgeMulticast.Recorder.Wire

/-!
# The instance map of the health tier

`observer.rs` of `dz-recorder-health`: a datagram of a channel instance that is not held asks for a
slot in a bounded map (`makeRoom`), which may evict an instance that has been quiet.  An instance that
the operator declared is not evicted for one that is not.

An arrival that nobody declared is refused without a look at the map while the earliest sighting of
the instances it may displace, as of the last look, is too recent.

The map is visited in an order that the language leaves unspecified.  The label values and the
counters that nothing reads are left out.
-/

namespace EdgeMulticast.Health

open EdgeMulticast.Codec (DatagramHeader PortRole)
open EdgeMulticast.Lib
open EdgeMulticast.Loss (SequenceTracker)
open EdgeMulticast.Recorder (ChannelInstance)
open Std

/-- What one feed was declared to carry, and the bounds of its map. -/
structure Config where
  portRoles : List PortRole
  declaredSources : List ℕ
  /-- None declared is not a declaration that there are none. -/
  declaredChannels : List ℕ
  maxInstances : ℕ
  minEvictAgeNs : ℕ
  maxInstances_pos : 0 < maxInstances

/-- What is held of a channel instance. -/
structure InstanceState where
  sequence : SequenceTracker
  role : PortRole
  lastSeenNs : ℕ
  declaredSource : Bool

/-- The labels of the series of an instance. -/
structure Series where
  role : PortRole
  channelId : ℕ
  source : ℕ
deriving DecidableEq

/-- A captured datagram. -/
structure Datagram where
  role : PortRole
  source : ℕ
  dstPort : ℕ
  recvTsNs : ℕ
  payload : List Byte

/-- The state behind a datagram: the stamps of different sockets are in no order. -/
def InstanceState.seen (state : InstanceState) (header : DatagramHeader) (dg : Datagram) :
    InstanceState :=
  { state with
    sequence := (state.sequence.observe header.sequenceNumber.toNat header.resetCount.toNat).1
    lastSeenNs := dg.recvTsNs }

structure HealthObserver where
  instances : ExtTreeMap ChannelInstance InstanceState := ∅
  /-- The earliest sighting among the undeclared instances, as of the last scan. -/
  earliestUndeclaredLastSeenNs : ℕ := 0
  /-- The gauges that outlive an instance. -/
  eraOrdinal : Series → ℕ := fun _ ↦ 0
  unexpectedRole : ℕ := 0
  unreadable : ℕ := 0
  instancesOpened : ℕ := 0
  instancesRefused : ℕ := 0
  instancesEvicted : ℕ := 0
  declaredEvicted : ℕ := 0

namespace HealthObserver

variable (cfg : Config)

/-- Whether an operator declared the instance: its source, and its channel if any is declared. -/
def isDeclared (source channelId : ℕ) : Bool :=
  source ∈ cfg.declaredSources ∧ (cfg.declaredChannels = [] ∨ channelId ∈ cfg.declaredChannels)

def oldEnough (nowNs : ℕ) (state : InstanceState) : Bool :=
  cfg.minEvictAgeNs ≤ nowNs - state.lastSeenNs

/-- The instance to displace. -/
def victim (σ : RangeOrder ChannelInstance) (o : HealthObserver) (nowNs : ℕ)
    (arrivalIsDeclared : Bool) : Option ChannelInstance :=
  let oldest := fun keep ↦ oldest σ InstanceState.lastSeenNs keep o.instances
  if arrivalIsDeclared then
    -- a stranger of any age goes first
    (oldest fun state ↦ !state.declaredSource).or
      (oldest fun state ↦ state.declaredSource && oldEnough cfg nowNs state)
  else oldest fun state ↦ !state.declaredSource && oldEnough cfg nowNs state

/-- Remove an instance; a stranger's series go with it. -/
def evict (o : HealthObserver) (key : ChannelInstance) : HealthObserver :=
  match o.instances[key]? with
  | none => o
  | some state => { o with
      instances := o.instances.erase key
      instancesEvicted := o.instancesEvicted + 1
      declaredEvicted := o.declaredEvicted + if state.declaredSource then 1 else 0
      eraOrdinal :=
        if state.declaredSource then o.eraOrdinal
        else Function.update o.eraOrdinal ⟨state.role, key.channelId, key.source⟩ 0 }

/-- The floor made exact by a scan. -/
def rescan (σ : RangeOrder ChannelInstance) (o : HealthObserver) (nowNs : ℕ) : HealthObserver :=
  { o with
    earliestUndeclaredLastSeenNs :=
      (earliest σ InstanceState.lastSeenNs (fun state ↦ !state.declaredSource) o.instances).getD
        nowNs }

/-- Free a slot in the map; whether there is room now. -/
def makeRoom (σ : RangeOrder ChannelInstance) (o : HealthObserver) (nowNs : ℕ)
    (arrivalIsDeclared : Bool) : Bool × HealthObserver :=
  if o.instances.size < cfg.maxInstances then (true, o)
  else if !arrivalIsDeclared && nowNs - o.earliestUndeclaredLastSeenNs < cfg.minEvictAgeNs then
    (false, o)
  else
    match victim cfg σ o nowNs arrivalIsDeclared with
    | none => (false, o.rescan σ nowNs)
    | some key => (true, (o.rescan σ nowNs).evict key)

/-- Hold an instance that was not held. -/
def «open» (o : HealthObserver) (key : ChannelInstance) (dg : Datagram) : HealthObserver :=
  { o with
    instances := o.instances.insert key {
      sequence := .resumingFromEra (o.eraOrdinal ⟨dg.role, key.channelId, key.source⟩)
      role := dg.role
      lastSeenNs := dg.recvTsNs
      declaredSource := isDeclared cfg key.source key.channelId }
    instancesOpened := o.instancesOpened + 1 }

/-- Take note of a datagram of an instance that is held. -/
def note (o : HealthObserver) (key : ChannelInstance) (header : DatagramHeader) (dg : Datagram) :
    HealthObserver :=
  match o.instances[key]? with
  | none => o
  | some state =>
      let state := state.seen header dg
      { o with
        instances := o.instances.insert key state
        eraOrdinal := Function.update o.eraOrdinal ⟨state.role, key.channelId, key.source⟩
          state.sequence.eraOrdinal }

/-- Take in a datagram of an instance. -/
def takeIn (σ : RangeOrder ChannelInstance) (o : HealthObserver) (key : ChannelInstance)
    (header : DatagramHeader) (dg : Datagram) : HealthObserver :=
  if key ∈ o.instances then o.note key header dg
  else
    let (room, o) := makeRoom cfg σ o dg.recvTsNs (isDeclared cfg key.source key.channelId)
    if room then (o.open cfg key dg).note key header dg
    else { o with instancesRefused := o.instancesRefused + 1 }

/-- The channel instance of a datagram. -/
def keyOf (dg : Datagram) (header : DatagramHeader) : ChannelInstance :=
  ⟨dg.source, header.channelId.toNat, dg.dstPort⟩

def onDatagram (σ : RangeOrder ChannelInstance) (o : HealthObserver) (dg : Datagram) :
    HealthObserver :=
  if dg.role ∉ cfg.portRoles then { o with unexpectedRole := o.unexpectedRole + 1 }
  else
    match DatagramHeader.peek dg.payload with
    | .error _ => { o with unreadable := o.unreadable + 1 }
    | .ok header => takeIn cfg σ o (keyOf dg header) header dg

end HealthObserver

end EdgeMulticast.Health
