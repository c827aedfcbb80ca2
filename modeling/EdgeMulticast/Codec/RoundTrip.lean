import EdgeMulticast.Codec.Depth
import EdgeMulticast.Codec.Refdata
import Mathlib.Data.List.Forall2

/-!
# A datagram and its messages, there and back

Whatever is tried on a builder, message by message or pair by pair, the finished datagram decodes
to exactly the messages that were accepted, each by the decoder of its own type.

`Message` is the messages of the codec crates and `Attempt` is what a caller does with a builder;
`pack` runs the attempts and keeps what was accepted, and `Packed.attempt` is the step of the
invariant.
-/

namespace EdgeMulticast.Codec

open EdgeMulticast.Lib

/-- A message of the codec crates. -/
inductive Message where
  | heartbeat (m : Heartbeat)
  | endOfSession (m : EndOfSession)
  | instrumentDefinition (m : InstrumentDefinition)
  | manifestSummary (m : ManifestSummary)
  | strikeInterval (m : StrikeInterval)
  | quote (m : Quote)
  | trade (m : Trade)
  | levelUpdate (m : LevelUpdate)
  | bookClear (m : BookClear)
  | instrumentReset (m : InstrumentReset)
  | snapshotBegin (m : SnapshotBegin)
  | snapshotLevel (m : SnapshotLevel)
  | snapshotEnd (m : SnapshotEnd)
deriving DecidableEq

namespace Message

/-- The message as the builder sees it. -/
def app : Message → AppMessage
  | .heartbeat m => m.app
  | .endOfSession m => m.app
  | .instrumentDefinition m => m.app
  | .manifestSummary m => m.app
  | .strikeInterval m => m.app
  | .quote m => m.app
  | .trade m => m.app
  | .levelUpdate m => m.app
  | .bookClear m => m.app
  | .instrumentReset m => m.app
  | .snapshotBegin m => m.app
  | .snapshotLevel m => m.app
  | .snapshotEnd m => m.app

/-- Decode bytes by the decoder of a message's type. -/
def decodeAs (schemaVersion : Byte) (buf : List Byte) : Message → Except DecodeError Message
  | .heartbeat _ => .heartbeat <$> Heartbeat.decode buf
  | .endOfSession _ => .endOfSession <$> EndOfSession.decode buf
  | .instrumentDefinition _ =>
      .instrumentDefinition <$> InstrumentDefinition.decode buf schemaVersion
  | .manifestSummary _ => .manifestSummary <$> ManifestSummary.decode buf
  | .strikeInterval _ => .strikeInterval <$> StrikeInterval.decode buf
  | .quote _ => .quote <$> Quote.decode buf
  | .trade _ => .trade <$> Trade.decode buf
  | .levelUpdate _ => .levelUpdate <$> LevelUpdate.decode buf
  | .bookClear _ => .bookClear <$> BookClear.decode buf
  | .instrumentReset _ => .instrumentReset <$> InstrumentReset.decode buf
  | .snapshotBegin _ => .snapshotBegin <$> SnapshotBegin.decode buf
  | .snapshotLevel _ => .snapshotLevel <$> SnapshotLevel.decode buf
  | .snapshotEnd _ => .snapshotEnd <$> SnapshotEnd.decode buf

/-- The message with the Channel ID of the datagram, where it carries one. -/
def withChannelId (channelId : Byte) : Message → Message
  | .heartbeat m => .heartbeat { m with channelId := channelId }
  | .manifestSummary m => .manifestSummary { m with channelId := channelId }
  | m => m

/-- A message that may be sent is decoded from its frame by the decoder of its type. -/
theorem decodeAs_frame {m : Message} (h : m.app.validate = .ok ()) (flags : UInt16) (c : Byte) :
    m.decodeAs SCHEMA_VERSION (m.app.frame flags c) = .ok (m.withChannelId c) := by
  cases m with
  | heartbeat m => exact congrArg (Message.heartbeat <$> ·) (m.decode_frame flags c)
  | endOfSession m => exact congrArg (Message.endOfSession <$> ·) (m.decode_frame flags c)
  | instrumentDefinition m =>
      exact congrArg (Message.instrumentDefinition <$> ·) (m.decode_frame flags c)
  | manifestSummary m => exact congrArg (Message.manifestSummary <$> ·) (m.decode_frame flags c)
  | strikeInterval m => exact congrArg (Message.strikeInterval <$> ·) (m.decode_frame flags c)
  | quote m => exact congrArg (Message.quote <$> ·) (m.decode_frame flags c)
  | trade m => exact congrArg (Message.trade <$> ·) (m.decode_frame flags c)
  | levelUpdate m => exact congrArg (Message.levelUpdate <$> ·) (m.decode_frame flags c)
  | bookClear m => exact congrArg (Message.bookClear <$> ·) (BookClear.decode_frame h flags c)
  | instrumentReset m => exact congrArg (Message.instrumentReset <$> ·) (m.decode_frame flags c)
  | snapshotBegin m => exact congrArg (Message.snapshotBegin <$> ·) (m.decode_frame flags c)
  | snapshotLevel m => exact congrArg (Message.snapshotLevel <$> ·) (m.decode_frame flags c)
  | snapshotEnd m => exact congrArg (Message.snapshotEnd <$> ·) (m.decode_frame flags c)

end Message

/-! ## Attempts on a builder -/

/-- What is tried on a builder. -/
inductive Attempt where
  | push (m : Message)
  | pushPair (first second : Message)

/-- What an attempt brings in when it is accepted. -/
def Attempt.messages : Attempt → List Message
  | .push m => [m]
  | .pushPair first second => [first, second]

namespace DatagramBuilder

variable {F : Feed}

def attempt (b : DatagramBuilder F) : Attempt → Except EncodeError Unit × DatagramBuilder F
  | .push m => b.push m.app
  | .pushPair first second => b.pushPair first.app second.app

/-- Try one thing after the other; the builder, and what was accepted. -/
def pack (b : DatagramBuilder F) : List Attempt → DatagramBuilder F × List Message
  | [] => (b, [])
  | a :: as =>
      match b.attempt a with
      | (.error _, b) => b.pack as
      | (.ok (), b) => ((b.pack as).1, a.messages ++ (b.pack as).2)

/-- A builder of a sequence, a port role and an mtu that holds these messages, all of which may be
sent. -/
structure Holds (sequence : ChannelSequence) (portRole : PortRole) (mtu : UInt16)
    (b : DatagramBuilder F) (ms : List Message) : Prop where
  packs : b.Packs (ms.map Message.app)
  sendable : ∀ m ∈ ms, F.carries m.app.TYPE_ID ∧ m.app.validate = .ok ()
  portRole : b.portRole = portRole
  channelId : b.channelId = sequence.channelId
  sequenceNumber : b.sequenceNumber = sequence.sequenceNumber
  resetCount : b.resetCount = sequence.resetCount
  capacity : b.capacity = clamp mtu

variable {sequence : ChannelSequence} {portRole : PortRole} {mtu : UInt16}
  {b b' : DatagramBuilder F} {ms : List Message}

theorem holds_new :
    Holds sequence portRole mtu (new sequence portRole mtu : DatagramBuilder F) [] :=
  ⟨packs_new sequence portRole mtu, by simp, rfl, rfl, rfl, rfl, rfl⟩

theorem Holds.append {m : Message} (h : Holds sequence portRole mtu b ms) (hm : b.Accepts m.app) :
    Holds sequence portRole mtu (b.append m.app b.flags) (ms ++ [m]) where
  packs := by simpa using h.packs.append hm
  sendable := by
    intro x hx
    rcases List.mem_append.mp hx with hx | hx
    · exact h.sendable x hx
    · exact List.mem_singleton.mp hx ▸ ⟨hm.carried, hm.valid⟩
  portRole := h.portRole
  channelId := h.channelId
  sequenceNumber := h.sequenceNumber
  resetCount := h.resetCount
  capacity := h.capacity

/-- A refused attempt leaves the builder as it was. -/
theorem attempt_refused {a : Attempt} {refused : EncodeError}
    (h : b.attempt a = (.error refused, b')) : b' = b := by
  cases a with
  | push m =>
      rcases b.push_eq m.app with ⟨heq, -⟩ | ⟨_, heq, -⟩
      · cases heq.symm.trans h
      · exact (Prod.mk.inj (heq.symm.trans h)).2.symm
  | pushPair first second =>
      rcases b.pushPair_eq first.app second.app with ⟨heq, -⟩ | ⟨_, heq⟩
      · cases heq.symm.trans h
      · exact (Prod.mk.inj (heq.symm.trans h)).2.symm

theorem Holds.attempt {a : Attempt} (h : Holds sequence portRole mtu b ms)
    (ha : b.attempt a = (.ok (), b')) : Holds sequence portRole mtu b' (ms ++ a.messages) := by
  cases a with
  | push m =>
      rcases b.push_eq m.app with ⟨heq, hm⟩ | ⟨_, heq, -⟩
      · obtain rfl := (Prod.mk.inj (heq.symm.trans ha)).2
        exact h.append hm
      · cases heq.symm.trans ha
  | pushPair first second =>
      rcases b.pushPair_eq first.app second.app with ⟨heq, hfirst, hsecond⟩ | ⟨_, heq⟩
      · obtain rfl := (Prod.mk.inj (heq.symm.trans ha)).2
        have := (h.append hfirst).append hsecond
        rwa [List.append_assoc] at this
      · cases heq.symm.trans ha

theorem Holds.pack (h : Holds sequence portRole mtu b ms) (as : List Attempt) :
    Holds sequence portRole mtu (b.pack as).1 (ms ++ (b.pack as).2) := by
  induction as generalizing b ms with
  | nil => simpa [DatagramBuilder.pack] using h
  | cons a as ih =>
      rcases ha : b.attempt a with ⟨refused | _, b'⟩
      · obtain rfl := attempt_refused ha
        simpa only [DatagramBuilder.pack, ha] using ih h
      · simpa only [DatagramBuilder.pack, ha, List.append_assoc] using ih (h.attempt ha)

end DatagramBuilder

/-- The round trip of a datagram. -/
theorem datagram_roundTrip (F : Feed) (sequence : ChannelSequence) (portRole : PortRole)
    (mtu : UInt16) (sendTimestampNs : UInt64) (attempts : List Attempt) :
    let packed := (DatagramBuilder.new sequence portRole mtu : DatagramBuilder F).pack attempts
    (packed.1.finish sendTimestampNs = none ↔ packed.2 = []) ∧
    (∀ bytes, packed.1.finish sendTimestampNs = some bytes →
      bytes.length ≤ max 24 (min mtu.toNat 1232) ∧
      ∃ d, Datagram.decode bytes F.MAGIC = .ok d ∧
        d.header = {
          magic := F.MAGIC
          schemaVersion := SCHEMA_VERSION
          channelId := sequence.channelId
          sequenceNumber := sequence.sequenceNumber
          sendTimestampNs := sendTimestampNs
          msgCount := UInt8.ofNat packed.2.length
          resetCount := sequence.resetCount
          datagramLen := UInt16.ofNat bytes.length } ∧
        List.Forall₂ (fun m r ↦ r.typeId = m.app.TYPE_ID ∧
          r.flags = (if portRole = .snapshot then FLAG_SNAPSHOT else 0) ∧
          m.decodeAs d.header.schemaVersion r.bytes = .ok (m.withChannelId sequence.channelId))
          packed.2 d.iter) ∧
    ∀ (a : Attempt) (refused : EncodeError) (b : DatagramBuilder F),
      packed.1.attempt a = (.error refused, b) → b = packed.1 := by
  intro packed
  have h : DatagramBuilder.Holds sequence portRole mtu packed.1 packed.2 :=
    (DatagramBuilder.holds_new (F := F)).pack attempts
  refine ⟨?_, ?_, fun a refused b ↦ DatagramBuilder.attempt_refused⟩
  · rw [h.packs.finish_eq_none_iff, List.map_eq_nil_iff]
  · intro bytes hb
    obtain ⟨hlen, -, -⟩ := h.packs.finish_eq_some sendTimestampNs hb
    refine ⟨?_, _, h.packs.decode_finish hb, ?_, ?_⟩
    · rw [hlen]
      exact h.packs.room.trans h.capacity.le
    · have hcount : packed.1.msgCount = UInt8.ofNat packed.2.length := by
        rw [← List.length_map (f := Message.app), ← h.packs.count, UInt8.ofNat_toNat]
      simp only [DatagramBuilder.header, h.channelId, h.sequenceNumber, h.resetCount, hcount, hlen]
    · rw [h.packs.iter_finish, List.map_map, List.forall₂_map_right_iff]
      refine List.forall₂_same.mpr fun m hm ↦ ⟨rfl, ?_, ?_⟩
      · rw [← h.portRole]
        rfl
      · rw [← h.channelId]
        exact Message.decodeAs_frame (h.sendable m hm).2 _ _

end EdgeMulticast.Codec
