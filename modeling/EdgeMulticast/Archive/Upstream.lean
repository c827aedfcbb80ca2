import EdgeMulticast.Lib.Except
import EdgeMulticast.Lib.ShortReads
import EdgeMulticast.Lib.Text
import Mathlib.Data.List.Nodup

/-!
# Upstream objects

The second archive shape of `dz-recorder-archive`: a venue's own upstream messages, length-delimited.
An object begins with a header that declares the connections whose messages it may carry, and every
message stands behind the index of its connection, its receive stamp and its length.

`UpstreamSegmentWriter` appends messages; `UpstreamObjectReader` hands them out one at a time, and
tells an object that ends where a record ends from one that was cut.
-/

namespace EdgeMulticast.Archive

open EdgeMulticast.Lib

/-- The bytes `DZUPSTRM`. -/
def UPSTREAM_MAGIC : List Byte := [0x44, 0x5A, 0x55, 0x50, 0x53, 0x54, 0x52, 0x4D]

def UPSTREAM_FORMAT_VERSION : UInt16 := 1

/-- The largest message the format admits. -/
def MAX_UPSTREAM_MESSAGE_BYTES : UInt32 := (8 : UInt32) <<< (20 : UInt32)

/-- The most connections one object may declare. -/
def MAX_UPSTREAM_CONNECTIONS : UInt16 := 256

/-- The index of the connection, the receive stamp and the length. -/
def RECORD_HEADER_LEN : ℕ := 2 + 8 + 4

/-! ## Connections -/

/-- How a receive stamp was obtained. -/
inductive RecvTsKind where
  | kernelSoftware
  | applicationFallback
deriving DecidableEq, Repr

/-- `RecvTsKind` as an object encodes it. -/
inductive RecvTsKindLabel where
  | kernelSoftware
  | applicationFallback
deriving DecidableEq, Repr

namespace RecvTsKindLabel

def kind : RecvTsKindLabel → RecvTsKind
  | .kernelSoftware => .kernelSoftware
  | .applicationFallback => .applicationFallback

def asByte : RecvTsKindLabel → Byte
  | .kernelSoftware => 0
  | .applicationFallback => 1

def fromByte (byte : Byte) : Option RecvTsKindLabel :=
  if byte = 0 then some .kernelSoftware
  else if byte = 1 then some .applicationFallback
  else none

theorem fromByte_eq_some {byte : Byte} {label : RecvTsKindLabel} :
    fromByte byte = some label ↔ byte = label.asByte := by
  constructor
  · intro h
    unfold fromByte at h
    split at h
    next hbyte =>
        cases h
        exact hbyte
    next =>
        split at h
        next hbyte =>
            cases h
            exact hbyte
        next => cases h
  · rintro rfl
    cases label <;> rfl

end RecvTsKindLabel

/-- One upstream connection, as the object header declares it. -/
structure UpstreamConnection where
  name : List Byte
  recvTsKind : RecvTsKindLabel
  /-- A name is a text. -/
  utf8 : isUtf8 name = true
deriving DecidableEq

/-- The first pair of entries that share a name, as `(first, second)`. -/
def firstDuplicateName (connections : List UpstreamConnection) : Option (ℕ × ℕ) :=
  connections.zipIdx.findSome? fun (entry, second) ↦
    ((connections.take second).findIdx? fun earlier ↦ earlier.name = entry.name).map (·, second)

theorem firstDuplicateName_eq_none {connections : List UpstreamConnection} :
    firstDuplicateName connections = none ↔ (connections.map (·.name)).Nodup := by
  rw [firstDuplicateName, List.findSome?_eq_none_iff]
  constructor
  · intro h
    rw [List.nodup_iff_getElem?_ne_getElem?]
    intro i j hij hj heq
    rw [List.length_map] at hj
    have hsecond := h (connections[j], j) (List.mem_zipIdx_iff_getElem?.mpr (by simp))
    rw [Option.map_eq_none_iff, List.findIdx?_eq_none_iff] at hsecond
    have hfirst : connections[i] ∈ connections.take j :=
      List.mem_take_iff_getElem.mpr ⟨i, by omega, rfl⟩
    have hne := hsecond _ hfirst
    simp only [decide_eq_false_iff_not] at hne
    apply hne
    simpa [List.getElem?_eq_getElem, hij.trans hj, hj] using heq
  · rintro h ⟨entry, second⟩ hentry
    rw [List.mem_zipIdx_iff_getElem?] at hentry
    rw [Option.map_eq_none_iff, List.findIdx?_eq_none_iff]
    intro earlier hearlier
    obtain ⟨first, hlt, rfl⟩ := List.mem_take_iff_getElem.mp hearlier
    obtain ⟨hsecond, hget⟩ := List.getElem?_eq_some_iff.mp hentry
    dsimp only at hsecond hget
    simp only [decide_eq_false_iff_not]
    intro heq
    rw [List.nodup_iff_getElem?_ne_getElem?] at h
    refine h first second (by omega) (by rwa [List.length_map]) ?_
    rw [List.getElem?_map, List.getElem?_map, List.getElem?_eq_getElem (by omega), hentry,
      Option.map_some, Option.map_some, heq]

/-! ## The writer -/

/-- What is written to: how it answers the next writes, and the bytes it holds.  A write takes every
byte, or fails having taken some of them. -/
structure Output where
  plan : List (Option ℕ)
  written : List Byte

/-- `write_all` for one run of bytes after the other, up to the first that fails. -/
def Output.writeAll (o : Output) : List (List Byte) → Bool × Output
  | [] => (true, o)
  | bytes :: more =>
      match o.plan with
      | [] => { o with written := o.written ++ bytes }.writeAll more
      | none :: plan => { o with plan, written := o.written ++ bytes }.writeAll more
      | some taken :: plan => (false, { o with plan, written := o.written ++ bytes.take taken })

/-- What `SinkError::Encode` says. -/
inductive Unencodable where
  | tooManyConnections (count : ℕ)
  | duplicateName (name : List Byte) (first second : ℕ)
  | nameTooLong (name : List Byte)
  | undeclared (connection : UInt16) (declared : ℕ)
  | messageTooLarge (len : ℕ)
deriving DecidableEq, Repr

inductive SinkError where
  | io
  | encode (refusal : Unencodable)
deriving DecidableEq, Repr

/-- An open segment. -/
structure UpstreamSegmentWriter where
  inner : Output
  connections : List UpstreamConnection
  bytesWritten : UInt64
  messageCount : UInt64
  startNs : Option UInt64
  endNs : Option UInt64

/-- The declarations of the header, unless a name is longer than a `u16` can state. -/
def declarations : List UpstreamConnection → Except SinkError (List Byte)
  | [] => pure []
  | connection :: connections => do
      if connection.name.length < 2 ^ 16 then
        let more ← declarations connections
        pure (le16 (UInt16.ofNat connection.name.length) ++ connection.recvTsKind.asByte ::
          connection.name ++ more)
      else throw (.encode (.nameTooLong connection.name))

/-- The arguments of `write_message`. -/
structure UpstreamRecord where
  connection : UInt16
  recvTsNs : UInt64
  bytes : List Byte
deriving DecidableEq

/-- `u32::try_from(..).unwrap_or(u32::MAX)`. -/
def lenOf (bytes : List Byte) : UInt32 :=
  if bytes.length < 2 ^ 32 then UInt32.ofNat bytes.length else 0xFFFFFFFF

theorem lenOf_le {bytes : List Byte} (h : ¬MAX_UPSTREAM_MESSAGE_BYTES < lenOf bytes) :
    bytes.length ≤ MAX_UPSTREAM_MESSAGE_BYTES.toNat ∧ lenOf bytes = UInt32.ofNat bytes.length := by
  rw [lenOf] at h ⊢
  split at h
  next hlen =>
      rw [UInt32.not_lt, UInt32.le_iff_toNat_le, UInt32.toNat_ofNat_of_lt' hlen] at h
      exact ⟨h, if_pos hlen⟩
  next => exact absurd (by decide) h

namespace UpstreamSegmentWriter

/-- Opens a segment and writes the header. -/
def «open» (inner : Output) (connections : List UpstreamConnection) :
    Except SinkError UpstreamSegmentWriter :=
  if 2 ^ 16 ≤ connections.length then
    throw (.encode (.tooManyConnections connections.length))
  else
    let count := UInt16.ofNat connections.length
    if MAX_UPSTREAM_CONNECTIONS < count then throw (.encode (.tooManyConnections count.toNat))
    else match firstDuplicateName connections with
      | some (first, second) =>
          let name := (connections[second]?.map (·.name)).getD []
          throw (.encode (.duplicateName name first second))
      | none => do
          let declared ← declarations connections
          let header := UPSTREAM_MAGIC ++ le16 UPSTREAM_FORMAT_VERSION ++ le16 count ++ declared
          match inner.writeAll [header] with
          | (false, _) => throw .io
          | (true, inner) => pure {
              inner
              connections
              bytesWritten := UInt64.ofNat header.length
              messageCount := 0
              startNs := none
              endNs := none }

/-- Appends one message, exactly as it arrived. -/
def writeMessage (w : UpstreamSegmentWriter) (m : UpstreamRecord) :
    Except SinkError Unit × UpstreamSegmentWriter :=
  if w.connections.length ≤ m.connection.toNat then
    (.error (.encode (.undeclared m.connection w.connections.length)), w)
  else
    let len := lenOf m.bytes
    if MAX_UPSTREAM_MESSAGE_BYTES < len then
      (.error (.encode (.messageTooLarge m.bytes.length)), w)
    else
      match w.inner.writeAll [le16 m.connection, le64 m.recvTsNs, le32 len, m.bytes] with
      | (false, inner) => (.error .io, { w with inner })
      | (true, inner) => (.ok (), { w with
          inner
          bytesWritten := w.bytesWritten + UInt64.ofNat RECORD_HEADER_LEN + len.toUInt64
          messageCount := w.messageCount + 1
          startNs := some (w.startNs.elim m.recvTsNs (min · m.recvTsNs))
          endNs := some (w.endNs.elim m.recvTsNs (max · m.recvTsNs)) })

end UpstreamSegmentWriter

/-! ## The reader -/

/-- An upstream object could not be read as one. -/
inductive UpstreamFormatError where
  | notAnUpstreamObject (objectKey : String)
  | unsupportedVersion (objectKey : String) (version known : UInt16)
  | truncated (objectKey what : String) (messagesRead : UInt64) (wanted got : ℕ)
  | messageTooLarge (objectKey : String) (messagesRead : UInt64) (len : UInt32)
  | tooManyConnections (objectKey : String) (count : UInt16)
  | unknownConnection (objectKey : String) (messagesRead : UInt64) (index : UInt16) (declared : ℕ)
  | unknownRecvTsKind (objectKey : String) (byte : Byte)
  | connectionNameNotUtf8 (objectKey : String)
  | duplicateConnectionName (objectKey : String) (name : List Byte) (first second : ℕ)
  | io (objectKey : String)
deriving DecidableEq, Repr

/-- One archived upstream message. -/
structure UpstreamMessage where
  connection : List Byte
  recvTsKind : RecvTsKind
  recvTsNs : UInt64
  bytes : List Byte
deriving DecidableEq, Repr

/-- An upstream object read back, one message at a time. -/
structure UpstreamObjectReader where
  inner : Source Byte
  objectKey : String
  formatVersion : UInt16
  connections : List UpstreamConnection
  buffer : List Byte
  messagesRead : UInt64
  /-- A refusal has been returned. -/
  refused : Bool

/-- Steps that read from a stream and may refuse it. -/
abbrev ReadStep (α : Type) := StateT (Source Byte) (Except UpstreamFormatError) α

section

variable (objectKey : String)

def readExact (what : String) (messagesRead : UInt64) (n : ℕ) : ReadStep (List Byte) := fun s ↦
  match s.fill n with
  | (none, _) => .error (.io objectKey)
  | (some got, s) =>
      if got.length < n then .error (.truncated objectKey what messagesRead n got.length)
      else .ok (got, s)

def readConnection : ReadStep UpstreamConnection := do
  let entry ← readExact objectKey "a connection declaration" 0 3
  let nameLen := (u16At entry 0).toNat
  match RecvTsKindLabel.fromByte (byteAt entry 2) with
  | none => throw (.unknownRecvTsKind objectKey (byteAt entry 2))
  | some recvTsKind =>
      let name ← readExact objectKey "a connection name" 0 nameLen
      if utf8 : isUtf8 name = true then pure ⟨name, recvTsKind, utf8⟩
      else throw (.connectionNameNotUtf8 objectKey)

def readConnections : ℕ → ReadStep (List UpstreamConnection)
  | 0 => pure []
  | count + 1 => do
      let connection ← readConnection objectKey
      let connections ← readConnections count
      pure (connection :: connections)

/-- Everything `open` reads: the version and the connections. -/
def readHeader : ReadStep (UInt16 × List UpstreamConnection) := do
  let fixed ← readExact objectKey "the object header" 0 12
  if slice fixed 0 8 ≠ UPSTREAM_MAGIC then throw (.notAnUpstreamObject objectKey)
  else
    let version := u16At fixed 8
    if version ≠ UPSTREAM_FORMAT_VERSION then
      throw (.unsupportedVersion objectKey version UPSTREAM_FORMAT_VERSION)
    else
      let count := u16At fixed 10
      if MAX_UPSTREAM_CONNECTIONS < count then throw (.tooManyConnections objectKey count)
      else
        let connections ← readConnections objectKey count.toNat
        match firstDuplicateName connections with
        | some (first, second) =>
            let name := (connections[second]?.map (·.name)).getD []
            throw (.duplicateConnectionName objectKey name first second)
        | none => pure (version, connections)

end

namespace UpstreamObjectReader

/-- Reads the header and prepares to read messages. -/
def «open» (objectKey : String) (inner : Source Byte) :
    Except UpstreamFormatError UpstreamObjectReader := do
  let ((formatVersion, connections), inner) ← readHeader objectKey inner
  pure {
    inner
    objectKey
    formatVersion
    connections
    buffer := []
    messagesRead := 0
    refused := false }

/-- The body of a record whose header has been read. -/
def nextBody (r : UpstreamObjectReader) (connection : UpstreamConnection) (recvTsNs : UInt64)
    (len : UInt32) : Except UpstreamFormatError (Option UpstreamMessage) × UpstreamObjectReader :=
  -- The buffer has its length before a byte of the body is read.
  match r.inner.fill len.toNat with
  | (none, inner) =>
      let buffer := List.replicate len.toNat 0
      (.error (.io r.objectKey), { r with inner, buffer, refused := true })
  | (some body, inner) =>
      let buffer := body ++ List.replicate (len.toNat - body.length) 0
      if body.length < len.toNat then
        (.error (.truncated r.objectKey "a message body" r.messagesRead len.toNat body.length),
          { r with inner, buffer, refused := true })
      else
        (.ok (some ⟨connection.name, connection.recvTsKind.kind, recvTsNs, buffer⟩),
          { r with inner, buffer, messagesRead := r.messagesRead + 1 })

/-- The next message, or `none` at a clean end of the object. -/
def nextMessage (r : UpstreamObjectReader) :
    Except UpstreamFormatError (Option UpstreamMessage) × UpstreamObjectReader :=
  if r.refused then
    (.error (.truncated r.objectKey "a record this reader has already refused" r.messagesRead 0 0), r)
  else match r.inner.fill RECORD_HEADER_LEN with
    | (none, inner) => (.error (.io r.objectKey), { r with inner, refused := true })
    | (some header, inner) =>
        if header.length = 0 then (.ok none, { r with inner })
        else if header.length < RECORD_HEADER_LEN then
          (.error (.truncated r.objectKey "a record header" r.messagesRead RECORD_HEADER_LEN
            header.length), { r with inner, refused := true })
        else
          let index := u16At header 0
          let recvTsNs := u64At header 2
          let len := u32At header 10
          if MAX_UPSTREAM_MESSAGE_BYTES < len then
            (.error (.messageTooLarge r.objectKey r.messagesRead len),
              { r with inner, refused := true })
          else match r.connections[index.toNat]? with
            | none =>
                (.error (.unknownConnection r.objectKey r.messagesRead index r.connections.length),
                  { r with inner, refused := true })
            | some connection => { r with inner }.nextBody connection recvTsNs len

end UpstreamObjectReader

end EdgeMulticast.Archive
