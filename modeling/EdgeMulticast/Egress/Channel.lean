import EdgeMulticast.Codec.Walk

/-!
# Composing datagrams for one port role

`ChannelEgress` has a datagram under construction for each Channel ID, the sequence series of the
channel instances, and the sink that finished datagrams are handed to.  A message that does not
fit sends the open datagram first and is tried once more; a number is taken when a datagram is
opened and spent when it is handed to the sink, whether or not the sink takes it.

A sink is its answers: what it says of a datagram, after those that it was handed before.
-/

namespace EdgeMulticast.Egress

open EdgeMulticast.Lib
open EdgeMulticast.Codec

/-- What a sequence space is keyed on. -/
structure ChannelInstance where
  source : UInt32
  channelId : Byte
  dstPort : UInt16
deriving DecidableEq, Repr

/-- Where one transmitter sends from and to. -/
structure EgressEndpoint where
  portRole : PortRole
  source : UInt32
  dstPort : UInt16
deriving DecidableEq, Repr

/-- The channel instance under which an endpoint serves a Channel ID. -/
def EgressEndpoint.inst (e : EgressEndpoint) (channelId : Byte) : ChannelInstance :=
  ⟨e.source, channelId, e.dstPort⟩

/-- Why a message did not reach the wire. -/
inductive EgressError (E : Type) where
  | refused (source : EncodeError)
  | notRegistered (inst : ChannelInstance)
  | sink (source : E)

/-- What a sink says of a datagram, after those that it was handed before. -/
abbrev DatagramSink (E : Type) := List (List Byte) → List Byte → Except E Unit

/-! ## The sequencer -/

/-- The sequence series of every channel instance, in one era. -/
structure Sequencer where
  era : Byte
  instances : ChannelInstance → Option ChannelSequence

namespace Sequencer

def new (era : Byte) : Sequencer := ⟨era, fun _ ↦ none⟩

/-- Begin a series, unless there is one. -/
def register (s : Sequencer) (inst : ChannelInstance) : Bool × Sequencer :=
  match s.instances inst with
  | some _ => (false, s)
  | none =>
      (true, { s with
        instances := Function.update s.instances inst (some (.new inst.channelId s.era)) })

/-- What the next datagram of an instance is stamped with. -/
def current (s : Sequencer) (inst : ChannelInstance) : Option ChannelSequence := s.instances inst

/-- Spend the number of an instance. -/
def advance (s : Sequencer) (inst : ChannelInstance) : Sequencer :=
  match s.instances inst with
  | some sequence =>
      { s with instances := Function.update s.instances inst (some sequence.advance) }
  | none => s

end Sequencer

/-! ## The composer -/

/-- One port role's send path, and what its sink was handed. -/
structure ChannelEgress (F : Feed) where
  endpoint : EgressEndpoint
  sequencer : Sequencer
  mtu : UInt16
  «open» : Byte → Option (DatagramBuilder F)
  handed : List (List Byte)

/-- What packing does to the datagram under construction. -/
abbrev Packing (F : Feed) := DatagramBuilder F → Except EncodeError Unit × DatagramBuilder F

/-- A refusal that finishing the datagram may cure. -/
def isFull : EncodeError → Bool
  | .datagramFull .. | .messageCountExhausted .. => true
  | _ => false

namespace ChannelEgress

variable {F : Feed} {E : Type}

def new (endpoint : EgressEndpoint) (era : Byte) (mtu : UInt16) : ChannelEgress F where
  endpoint := endpoint
  sequencer := .new era
  mtu := mtu
  «open» _ := none
  handed := []

def register (e : ChannelEgress F) (channelId : Byte) : ChannelEgress F :=
  { e with sequencer := (e.sequencer.register (e.endpoint.inst channelId)).2 }

/-- Put a datagram under construction in its place. -/
def setOpen (e : ChannelEgress F) (channelId : Byte) (b : DatagramBuilder F) : ChannelEgress F :=
  { e with «open» := Function.update e.open channelId (some b) }

/-- The datagram under construction for a Channel ID, started if there is none. -/
def openFor (e : ChannelEgress F) (channelId : Byte) : Except (EgressError E) (DatagramBuilder F) :=
  match e.sequencer.current (e.endpoint.inst channelId) with
  | none => .error (.notRegistered (e.endpoint.inst channelId))
  | some sequence => .ok ((e.open channelId).getD (.new sequence e.endpoint.portRole e.mtu))

/-- Hand a datagram to the sink. -/
def send (e : ChannelEgress F) (sink : DatagramSink E) (datagram : List Byte) :
    Except E Unit × ChannelEgress F :=
  (sink e.handed datagram, { e with handed := e.handed ++ [datagram] })

def flush (e : ChannelEgress F) (sink : DatagramSink E) (channelId : Byte)
    (sendTimestampNs : UInt64) : Except (EgressError E) Unit × ChannelEgress F :=
  match e.open channelId with
  | none => (.ok (), e)
  | some b =>
      let e := { e with «open» := Function.update e.open channelId none }
      match b.finish sendTimestampNs with
      | none => (.ok (), e)
      | some datagram =>
          let e := { e with sequencer := e.sequencer.advance (e.endpoint.inst channelId) }
          let (answer, e) := e.send sink datagram
          (answer.mapError .sink, e)

/-- Flush the Channel IDs of a list, which are the keys of the open map in whatever order it gives
them; all are attempted, and the first failure is returned. -/
def flushAll (e : ChannelEgress F) (sink : DatagramSink E) (sendTimestampNs : UInt64) :
    List Byte → Except (EgressError E) Unit × ChannelEgress F
  | [] => (.ok (), e)
  | channelId :: channelIds =>
      let (first, e) := e.flush sink channelId sendTimestampNs
      let (rest, e) := e.flushAll sink sendTimestampNs channelIds
      (first >>= fun _ ↦ rest, e)

/-- Pack into the datagram of a Channel ID, and if that is full, into the next one. -/
def pack (e : ChannelEgress F) (sink : DatagramSink E) (channelId : Byte) (packing : Packing F)
    (sendTimestampNs : UInt64) : Except (EgressError E) Unit × ChannelEgress F :=
  match e.openFor channelId with
  | .error notRegistered => (.error notRegistered, e)
  | .ok b =>
      match packing b with
      | (.ok (), b) => (.ok (), e.setOpen channelId b)
      | (.error refused, b) =>
          let e := e.setOpen channelId b
          if !isFull refused then (.error (.refused refused), e)
          else
            match e.flush sink channelId sendTimestampNs with
            | (.error unsent, e) => (.error unsent, e)
            | (.ok (), e) =>
                match e.openFor channelId with
                | .error notRegistered => (.error notRegistered, e)
                | .ok b =>
                    let (answer, b) := packing b
                    (answer.mapError .refused, e.setOpen channelId b)

def push (e : ChannelEgress F) (sink : DatagramSink E) (channelId : Byte) (message : AppMessage)
    (sendTimestampNs : UInt64) : Except (EgressError E) Unit × ChannelEgress F :=
  e.pack sink channelId (·.push message) sendTimestampNs

def pushPair (e : ChannelEgress F) (sink : DatagramSink E) (channelId : Byte)
    (first second : AppMessage) (sendTimestampNs : UInt64) :
    Except (EgressError E) Unit × ChannelEgress F :=
  e.pack sink channelId (·.pushPair first second) sendTimestampNs

end ChannelEgress

/-! ## Calls -/

/-- A call of the composer. -/
inductive Call where
  | register (channelId : Byte)
  | push (channelId : Byte) (message : AppMessage) (sendTimestampNs : UInt64)
  | pushPair (channelId : Byte) (first second : AppMessage) (sendTimestampNs : UInt64)
  | flush (channelId : Byte) (sendTimestampNs : UInt64)
  | flushAll (channelIds : List Byte) (sendTimestampNs : UInt64)

namespace ChannelEgress

variable {F : Feed} {E : Type}

/-- What a call answers, and what it leaves. -/
def call (sink : DatagramSink E) (e : ChannelEgress F) :
    Call → Except (EgressError E) Unit × ChannelEgress F
  | .register channelId => (.ok (), e.register channelId)
  | .push channelId message ts => e.push sink channelId message ts
  | .pushPair channelId first second ts => e.pushPair sink channelId first second ts
  | .flush channelId ts => e.flush sink channelId ts
  | .flushAll channelIds ts => e.flushAll sink ts channelIds

/-- The state after a sequence of calls. -/
def after (sink : DatagramSink E) (e : ChannelEgress F) (calls : List Call) : ChannelEgress F :=
  calls.foldl (fun e c ↦ (e.call sink c).2) e

end ChannelEgress

/-- What a call brings to a Channel ID when it succeeds: one message, or a pair. -/
def Call.brings (channelId : Byte) : Call → List (List AppMessage)
  | .push c message _ => if c = channelId then [[message]] else []
  | .pushPair c first second _ => if c = channelId then [[first, second]] else []
  | _ => []

/-- What a call adds to what a Channel ID has accepted, by its answer. -/
def Call.gains {ε : Type} (c : Call) (channelId : Byte) : Except ε Unit → List (List AppMessage)
  | .ok () => c.brings channelId
  | .error _ => []

/-- The messages and pairs of a Channel ID whose push returned Ok, in push order. -/
def accepted {F : Feed} {E : Type} (sink : DatagramSink E) (channelId : Byte) :
    ChannelEgress F → List Call → List (List AppMessage)
  | _, [] => []
  | e, c :: cs =>
      c.gains channelId (e.call sink c).1 ++ accepted sink channelId (e.call sink c).2 cs

end EdgeMulticast.Egress
