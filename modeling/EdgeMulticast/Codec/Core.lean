import EdgeMulticast.Lib.Bytes

/-!
# What every message of the feed family shares

The constants of the wire, the ways encoding and decoding fail, the port roles, a feed with the
table of the message types it carries, and the 24-byte header of a datagram.  `AppMessage` is a
message as the builder of a datagram sees it: its type, its size, where it may travel, and the
bytes it writes.
-/

namespace EdgeMulticast.Codec

open EdgeMulticast.Lib

/-! ## Constants -/

def SCHEMA_VERSION : Byte := 3

def SCHEMA_VERSION_V1 : Byte := 1

def SUPPORTED_SCHEMA_VERSIONS : List Byte := [SCHEMA_VERSION, SCHEMA_VERSION_V1]

abbrev DATAGRAM_HEADER_SIZE : ℕ := 24

abbrev MSG_HEADER_SIZE : ℕ := 4

abbrev MAX_DATAGRAM_SIZE : ℕ := 1232

def FLAG_SNAPSHOT : UInt16 := 1

/-- The largest count a byte holds. -/
abbrev U8_MAX : ℕ := 255

/-! ## Errors -/

inductive EncodeError where
  | datagramFull (attempted capacity : ℕ)
  | messageCountExhausted (max : ℕ)
  | wrongPortRole (message role : String)
  | notCarriedByFeed (feed : String) (typeId : Byte)
  | malformedMessage (message what : String)
deriving DecidableEq, Repr

inductive DecodeError where
  | shortBuffer (need got : ℕ)
  | unsupportedSchema (version : Byte)
  | lengthMismatch (typeId declared : Byte) (expected : ℕ)
  | badTypeId (typeId : Byte)
  | emptyDatagram
  | declaredLengthOutOfRange (declared min max : ℕ)
  | magicMismatch (expected found : UInt16)
  | messageTooShort (offset : ℕ) (declared : Byte)
  | messageHeaderTruncated (offset remaining : ℕ)
  | messageOverrunsDatagram (offset : ℕ) (declared : Byte) (remaining : ℕ)
  | messageCountMismatch (declared : Byte) (found : ℕ)
  | malformedBody (typeId : Byte) (what : String)
deriving DecidableEq, Repr

/-! ## Ports, feeds and channels -/

inductive PortRole where
  | mktdata | refdata | snapshot
deriving DecidableEq, Repr

/-- The token used on the wire and in configuration. -/
def PortRole.asStr : PortRole → String
  | .mktdata => "mktdata"
  | .refdata => "refdata"
  | .snapshot => "snapshot"

/-- A feed of the family: its delimiter, its name, and the message types it carries. -/
structure Feed where
  MAGIC : UInt16
  NAME : String
  CARRIES : List Byte

def Feed.carries (F : Feed) (typeId : Byte) : Bool := F.CARRIES.contains typeId

/-- The sequencing state of one channel instance. -/
structure ChannelSequence where
  channelId : Byte
  sequenceNumber : UInt64
  resetCount : Byte
deriving DecidableEq, Repr

namespace ChannelSequence

def new (channelId resetCount : Byte) : ChannelSequence := ⟨channelId, 0, resetCount⟩

/-- The number of the next datagram, which wraps. -/
def advance (s : ChannelSequence) : ChannelSequence :=
  { s with sequenceNumber := s.sequenceNumber + 1 }

end ChannelSequence

/-! ## Messages -/

/-- A message as the builder sees it.  What `encode_into` and `stamp_channel_id` do to the bytes
they are given is the list of their writes, in order. -/
structure AppMessage where
  /-- `type_name` of the message's type. -/
  typeName : String
  TYPE_ID : Byte
  /-- The size on the wire, with the message header. -/
  SIZE : ℕ
  PORT_ROLES : List PortRole
  validate : Except EncodeError Unit
  encodeInto : List Field
  stampChannelId : Byte → List Field
  /-- The size includes the message header. -/
  header_le : MSG_HEADER_SIZE ≤ SIZE := by decide
  /-- The size fits the Length byte. -/
  size_le : SIZE ≤ U8_MAX := by decide
  /-- A message writes within its own size. -/
  encode_inside : ∀ f ∈ encodeInto, f.stop ≤ SIZE
  /-- The stamp goes into the body. -/
  stamp_inside : ∀ c, ∀ f ∈ stampChannelId c, MSG_HEADER_SIZE ≤ f.pos ∧ f.stop ≤ SIZE

namespace AppMessage

/-- What the builder writes over the header of a message: the flags, the type and the length. -/
def wireHeader (m : AppMessage) (flags : UInt16) : List Field :=
  [⟨2, le16 flags⟩, ⟨0, [m.TYPE_ID]⟩, ⟨1, [UInt8.ofNat m.SIZE]⟩]

/-- The bytes of a message in a datagram: its own, then the header, which the builder owns,
then the Channel ID. -/
def frame (m : AppMessage) (flags : UInt16) (channelId : Byte) : List Byte :=
  let dst := putAll (List.replicate m.SIZE 0) m.encodeInto
  let dst := putAll dst (m.wireHeader flags)
  putAll dst (m.stampChannelId channelId)

variable (m : AppMessage) (flags : UInt16) (c : Byte)

theorem wireHeader_inside : ∀ f ∈ m.wireHeader flags, f.stop ≤ MSG_HEADER_SIZE := by
  simp [wireHeader, Field.stop, MSG_HEADER_SIZE]

theorem length_encoded : (putAll (List.replicate m.SIZE 0) m.encodeInto).length = m.SIZE := by
  rw [length_putAll fun f hf ↦ by simpa using m.encode_inside f hf, List.length_replicate]

theorem length_headed : (putAll (putAll (List.replicate m.SIZE 0) m.encodeInto)
    (m.wireHeader flags)).length = m.SIZE := by
  rw [length_putAll, length_encoded]
  intro f hf
  rw [length_encoded]
  exact (m.wireHeader_inside flags f hf).trans m.header_le

@[simp] theorem length_frame : (m.frame flags c).length = m.SIZE := by
  rw [frame, length_putAll, length_headed]
  intro f hf
  rw [length_headed]
  exact (m.stamp_inside c f hf).2

theorem readsAs_wireHeader : ReadsAs (m.frame flags c) (m.wireHeader flags) := by
  refine ReadsAs.putAll (readsAs_putAll ?_ ?_) ?_ ?_
  · intro f hf
    rw [length_encoded]
    exact (m.wireHeader_inside flags f hf).trans m.header_le
  · simp [wireHeader, Field.Apart, Field.stop]
  · intro f hf
    rw [length_headed]
    exact (m.stamp_inside c f hf).2
  · intro f hf g hg
    exact .inl ((m.wireHeader_inside flags f hf).trans (m.stamp_inside c g hg).1)

end AppMessage

/-! ## The datagram header -/

/-- The decoded datagram header. -/
structure DatagramHeader where
  magic : UInt16
  schemaVersion : Byte
  channelId : Byte
  sequenceNumber : UInt64
  sendTimestampNs : UInt64
  msgCount : Byte
  resetCount : Byte
  datagramLen : UInt16
deriving DecidableEq, Repr

namespace DatagramHeader

/-- Read the header and judge nothing but that it is there. -/
def peek (buf : List Byte) : Except DecodeError DatagramHeader :=
  if buf.length < DATAGRAM_HEADER_SIZE then .error (.shortBuffer DATAGRAM_HEADER_SIZE buf.length)
  else .ok {
    magic := u16At buf 0
    schemaVersion := byteAt buf 2
    channelId := byteAt buf 3
    sequenceNumber := u64At buf 4
    sendTimestampNs := u64At buf 12
    msgCount := byteAt buf 20
    resetCount := byteAt buf 21
    datagramLen := u16At buf 22 }

/-- Decode a header from the front of a buffer.  Magic and Message Count are not judged. -/
def decode (buf : List Byte) : Except DecodeError DatagramHeader :=
  if buf.length < DATAGRAM_HEADER_SIZE then .error (.shortBuffer DATAGRAM_HEADER_SIZE buf.length)
  else
    let schemaVersion := byteAt buf 2
    if !SUPPORTED_SCHEMA_VERSIONS.contains schemaVersion then
      .error (.unsupportedSchema schemaVersion)
    else
      let datagramLen := (u16At buf 22).toNat
      if ¬ (DATAGRAM_HEADER_SIZE ≤ datagramLen ∧ datagramLen ≤ MAX_DATAGRAM_SIZE) then
        .error (.declaredLengthOutOfRange datagramLen DATAGRAM_HEADER_SIZE MAX_DATAGRAM_SIZE)
      else if buf.length < datagramLen then .error (.shortBuffer datagramLen buf.length)
      else .ok {
        magic := u16At buf 0
        schemaVersion := schemaVersion
        channelId := byteAt buf 3
        sequenceNumber := u64At buf 4
        sendTimestampNs := u64At buf 12
        msgCount := byteAt buf 20
        resetCount := byteAt buf 21
        datagramLen := u16At buf 22 }

def schemaIsSupported (h : DatagramHeader) : Bool :=
  SUPPORTED_SCHEMA_VERSIONS.contains h.schemaVersion

def declaredLenIsInRange (h : DatagramHeader) : Bool :=
  DATAGRAM_HEADER_SIZE ≤ h.datagramLen.toNat && h.datagramLen.toNat ≤ MAX_DATAGRAM_SIZE

/-- `decode` is `peek` with the two judgements, and the bytes that the header declares. -/
theorem decode_eq_ok_iff {buf : List Byte} {h : DatagramHeader} :
    decode buf = .ok h ↔ peek buf = .ok h ∧ h.schemaIsSupported ∧ h.declaredLenIsInRange ∧
      h.datagramLen.toNat ≤ buf.length := by
  unfold decode peek
  by_cases hlen : buf.length < DATAGRAM_HEADER_SIZE
  · simp [if_pos hlen]
  · rw [if_neg hlen, if_neg hlen, Except.ok.injEq]
    dsimp only
    constructor
    · intro hdec
      split at hdec
      · cases hdec
      · rename_i hschema
        split at hdec
        · cases hdec
        · rename_i hrange
          split at hdec
          · cases hdec
          · rename_i hshort
            obtain rfl := Except.ok.inj hdec
            refine ⟨rfl, by simpa [schemaIsSupported] using hschema, ?_, by simpa using hshort⟩
            simpa [declaredLenIsInRange] using hrange
    · rintro ⟨rfl, hschema, hrange, hshort⟩
      simp only [schemaIsSupported, declaredLenIsInRange, Bool.and_eq_true, decide_eq_true_eq]
        at hschema hrange hshort
      rw [if_neg (by simpa using hschema), if_neg (by simpa using hrange),
        if_neg (Nat.not_lt.mpr hshort)]

end DatagramHeader

end EdgeMulticast.Codec
