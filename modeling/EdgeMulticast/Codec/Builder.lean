import EdgeMulticast.Codec.Core
import EdgeMulticast.Lib.Framer

/-!
# Packing messages into one datagram

`DatagramBuilder` appends messages behind 24 bytes that `finish` fills in.  A refused message
leaves it as it was, and so does a refused pair, of which the first half has been appended
already.

`Packs b ms` is the invariant: the bytes of the builder are the header's place and the frames of
the messages `ms`, the count is theirs, and nothing is past the capacity.  `Accepts` says when a
message is appended; `push_eq` and `pushPair_eq` are the two specifications the rest of the
development uses.
-/

namespace EdgeMulticast.Codec

open EdgeMulticast.Lib

/-- A datagram under construction. -/
structure DatagramBuilder (F : Feed) where
  buf : List Byte
  portRole : PortRole
  channelId : Byte
  sequenceNumber : UInt64
  resetCount : Byte
  capacity : ℕ
  msgCount : Byte
deriving DecidableEq

namespace DatagramBuilder

variable {F : Feed}

/-- `mtu`, at least the header and at most the mandated cap. -/
def clamp (mtu : UInt16) : ℕ := max DATAGRAM_HEADER_SIZE (min mtu.toNat MAX_DATAGRAM_SIZE)

def new (sequence : ChannelSequence) (portRole : PortRole) (mtu : UInt16) : DatagramBuilder F where
  buf := List.replicate DATAGRAM_HEADER_SIZE 0
  portRole := portRole
  channelId := sequence.channelId
  sequenceNumber := sequence.sequenceNumber
  resetCount := sequence.resetCount
  capacity := clamp mtu
  msgCount := 0

/-- Bytes still available for messages. -/
def remaining (b : DatagramBuilder F) : ℕ := b.capacity - b.buf.length

/-- The flags of every message, which follow from the port role. -/
def flags (b : DatagramBuilder F) : UInt16 := if b.portRole = .snapshot then FLAG_SNAPSHOT else 0

/-- The builder behind one more message. -/
def append (b : DatagramBuilder F) (m : AppMessage) (flags : UInt16) : DatagramBuilder F :=
  { b with buf := b.buf ++ m.frame flags b.channelId, msgCount := b.msgCount + 1 }

def pushWithFlags (b : DatagramBuilder F) (m : AppMessage) (flags : UInt16) :
    Except EncodeError Unit × DatagramBuilder F :=
  if b.portRole ∉ m.PORT_ROLES then (.error (.wrongPortRole m.typeName b.portRole.asStr), b)
  else if b.msgCount = UInt8.ofNat U8_MAX then (.error (.messageCountExhausted U8_MAX), b)
  else if b.remaining < m.SIZE then
    (.error (.datagramFull (b.buf.length + m.SIZE) b.capacity), b)
  else (.ok (), b.append m flags)

/-- Append a message. -/
def push (b : DatagramBuilder F) (m : AppMessage) : Except EncodeError Unit × DatagramBuilder F :=
  if !F.carries m.TYPE_ID then (.error (.notCarriedByFeed F.NAME m.TYPE_ID), b)
  else
    match m.validate with
    | .error refused => (.error refused, b)
    | .ok () => b.pushWithFlags m b.flags

/-- Append two messages that must share a datagram, or neither. -/
def pushPair (b : DatagramBuilder F) (first second : AppMessage) :
    Except EncodeError Unit × DatagramBuilder F :=
  let (len, msgCount) := (b.buf.length, b.msgCount)
  match b.push first with
  | (.error refused, b) => (.error refused, b)
  | (.ok (), b) =>
      match b.push second with
      | (.error refused, b) => (.error refused, { b with buf := b.buf.take len, msgCount := msgCount })
      | (.ok (), b) => (.ok (), b)

/-- The header that `finish` writes over the first 24 bytes. -/
def headerFields (b : DatagramBuilder F) (sendTimestampNs : UInt64) : List Field := [
  ⟨0, le16 F.MAGIC⟩,
  ⟨2, [SCHEMA_VERSION]⟩,
  ⟨3, [b.channelId]⟩,
  ⟨4, le64 b.sequenceNumber⟩,
  ⟨12, le64 sendTimestampNs⟩,
  ⟨20, [b.msgCount]⟩,
  ⟨21, [b.resetCount]⟩,
  ⟨22, le16 (UInt16.ofNat b.buf.length)⟩]

/-- Stamp the header and return the datagram, if there is a message in it. -/
def finish (b : DatagramBuilder F) (sendTimestampNs : UInt64) : Option (List Byte) :=
  if b.msgCount = 0 then none else some (putAll b.buf (b.headerFields sendTimestampNs))

/-! ## When a message is appended -/

/-- A message that this builder takes. -/
structure Accepts (b : DatagramBuilder F) (m : AppMessage) : Prop where
  carried : F.carries m.TYPE_ID
  valid : m.validate = .ok ()
  role : b.portRole ∈ m.PORT_ROLES
  count : b.msgCount ≠ UInt8.ofNat U8_MAX
  room : m.SIZE ≤ b.remaining

/-- A push appends the message or leaves the builder alone, and appends exactly what is
accepted. -/
theorem push_eq (b : DatagramBuilder F) (m : AppMessage) :
    (b.push m = (.ok (), b.append m b.flags) ∧ b.Accepts m) ∨
      ∃ refused, b.push m = (.error refused, b) ∧ ¬ b.Accepts m := by
  unfold push
  split
  · rename_i hcarried
    exact .inr ⟨_, rfl, fun h ↦ by simp [h.carried] at hcarried⟩
  · rename_i hcarried
    split
    · rename_i refused hvalid
      exact .inr ⟨refused, rfl, fun h ↦ by simp [h.valid] at hvalid⟩
    · rename_i hvalid
      unfold pushWithFlags
      split
      · rename_i hrole
        exact .inr ⟨_, rfl, fun h ↦ hrole h.role⟩
      · rename_i hrole
        split
        · rename_i hcount
          exact .inr ⟨_, rfl, fun h ↦ h.count hcount⟩
        · rename_i hcount
          split
          · rename_i hroom
            exact .inr ⟨_, rfl, fun h ↦ Nat.not_le.mpr hroom h.room⟩
          · rename_i hroom
            exact .inl ⟨rfl, by simpa using hcarried, hvalid, not_not.mp hrole, hcount,
              Nat.not_lt.mp hroom⟩

theorem push_ok {b : DatagramBuilder F} {m : AppMessage} (h : b.Accepts m) :
    b.push m = (.ok (), b.append m b.flags) := by
  rcases b.push_eq m with ⟨hpush, -⟩ | ⟨_, -, hnot⟩
  · exact hpush
  · exact absurd h hnot

/-- A pair is appended whole or leaves the builder alone. -/
theorem pushPair_eq (b : DatagramBuilder F) (first second : AppMessage) :
    (b.pushPair first second = (.ok (), (b.append first b.flags).append second b.flags) ∧
        b.Accepts first ∧ (b.append first b.flags).Accepts second) ∨
      ∃ refused, b.pushPair first second = (.error refused, b) := by
  unfold pushPair
  rcases b.push_eq first with ⟨hfirst, hacc⟩ | ⟨refused, hfirst, -⟩
  · rcases (b.append first b.flags).push_eq second with ⟨hsecond, hacc'⟩ | ⟨refused, hsecond, -⟩
    · exact .inl ⟨by simp only [hfirst, hsecond]; rfl, hacc, hacc'⟩
    · refine .inr ⟨refused, ?_⟩
      simp only [hfirst, hsecond]
      simp only [append, List.take_left]
  · exact .inr ⟨refused, by simp only [hfirst]⟩

/-! ## What a builder holds -/

/-- A builder that holds these messages, in order. -/
structure Packs (b : DatagramBuilder F) (ms : List AppMessage) : Prop where
  buf : b.buf = List.replicate DATAGRAM_HEADER_SIZE 0 ++
    (ms.map (·.frame b.flags b.channelId)).flatten
  count : b.msgCount.toNat = ms.length
  room : b.buf.length ≤ b.capacity
  cap : b.capacity ≤ MAX_DATAGRAM_SIZE

theorem clamp_le (mtu : UInt16) : clamp mtu ≤ MAX_DATAGRAM_SIZE :=
  max_le (by decide) (min_le_right _ _)

theorem packs_new (sequence : ChannelSequence) (portRole : PortRole) (mtu : UInt16) :
    (new sequence portRole mtu : DatagramBuilder F).Packs [] where
  buf := by simp [new]
  count := rfl
  room := by
    rw [new, List.length_replicate]
    exact le_max_left _ _
  cap := clamp_le mtu

theorem Packs.append {b : DatagramBuilder F} {ms : List AppMessage} {m : AppMessage}
    (h : b.Packs ms) (hm : b.Accepts m) : (b.append m b.flags).Packs (ms ++ [m]) where
  buf := by
    rw [List.map_append, List.flatten_append, List.map_singleton, List.flatten_singleton,
      ← List.append_assoc]
    exact congrArg (· ++ m.frame b.flags b.channelId) h.buf
  count := by
    have hne : b.msgCount.toNat ≠ 255 := fun heq ↦ hm.count (UInt8.toNat_inj.mp heq)
    have hlt := b.msgCount.toNat_lt
    have hcount : (b.msgCount + 1).toNat = b.msgCount.toNat + 1 := by
      rw [UInt8.toNat_add]
      exact Nat.mod_eq_of_lt (by simp only [UInt8.reduceToNat]; omega)
    rw [List.length_append, List.length_singleton, ← h.count]
    exact hcount
  room := by
    have hroom := hm.room
    have hle := h.room
    simp only [DatagramBuilder.append, List.length_append, AppMessage.length_frame]
    unfold remaining at hroom
    omega
  cap := h.cap

/-! ## The finished datagram -/

section

variable {b : DatagramBuilder F} {ms : List AppMessage} (ts : UInt64)

theorem Packs.finish_eq_none_iff (h : b.Packs ms) : b.finish ts = none ↔ ms = [] := by
  have hzero : b.msgCount = 0 ↔ ms = [] := by
    rw [← UInt8.toNat_inj, h.count]
    exact List.length_eq_zero_iff
  rw [finish, ← hzero]
  split
  next hcount => simp [hcount]
  next hcount => simp [hcount]

theorem headerFields_packed : Packed 0 (b.headerFields ts) DATAGRAM_HEADER_SIZE := by
  simp [headerFields, Packed, Field.stop, DATAGRAM_HEADER_SIZE]

/-- A finished datagram has the header's fields in their places and the frames behind them. -/
theorem Packs.finish_eq_some {bytes : List Byte} (h : b.Packs ms) (hb : b.finish ts = some bytes) :
    bytes.length = b.buf.length ∧ ReadsAs bytes (b.headerFields ts) ∧
      bytes.drop DATAGRAM_HEADER_SIZE = (ms.map (·.frame b.flags b.channelId)).flatten := by
  have hlen : DATAGRAM_HEADER_SIZE ≤ b.buf.length := by
    rw [h.buf, List.length_append, List.length_replicate]
    exact Nat.le_add_right _ _
  have hinside : ∀ f ∈ b.headerFields ts, f.stop ≤ DATAGRAM_HEADER_SIZE :=
    fun f hf ↦ ((headerFields_packed ts).inside f hf).2
  have hfits : ∀ f ∈ b.headerFields ts, f.stop ≤ b.buf.length :=
    fun f hf ↦ (hinside f hf).trans hlen
  rw [finish] at hb
  split at hb
  · cases hb
  · obtain rfl := Option.some.inj hb
    refine ⟨length_putAll hfits, readsAs_putAll hfits (headerFields_packed ts).pairwise, ?_⟩
    rw [drop_putAll hinside hlen, h.buf, List.drop_left' (List.length_replicate ..)]

end

end DatagramBuilder

end EdgeMulticast.Codec
