import EdgeMulticast.Codec.Builder

/-!
# Walking the messages of a received datagram

`Datagram.decode` judges the header, the magic and the Message Count, and walks that many message
boundaries; `Datagram.iter` collects the iterator over them, which cannot fail any more.

Both are `Framer.cut` of the framing of the wire (`wire`): `decode` succeeds on the datagrams
whose message region can be cut (`decode_eq_ok_iff`), and the iterator yields the frames
(`iter_eq`).
-/

namespace EdgeMulticast.Codec

open EdgeMulticast.Lib

/-- A message begins with four bytes, the second of which is its length. -/
def wire : Framer Byte where
  header := MSG_HEADER_SIZE
  size bs := (byteAt bs 1).toNat
  size_take bs := by rw [byteAt_take (by decide)]

/-- One application message inside a datagram. -/
structure MessageRef where
  typeId : Byte
  flags : UInt16
  /-- The message with its own header. -/
  bytes : List Byte
deriving DecidableEq, Repr

/-- What is read of a message as it stands on the wire. -/
def MessageRef.ofFrame (f : List Byte) : MessageRef := ⟨byteAt f 0, u16At f 2, f⟩

/-! ## Validation -/

/-- The walk of `validate_messages`, with `left` messages still to find. -/
def validateFrom (messages : List Byte) : (left offset found : ℕ) → Except DecodeError ℕ
  | 0, _, found => .ok found
  | left + 1, offset, found =>
      let remaining := messages.length - offset
      if remaining = 0 then .ok found
      else if remaining < MSG_HEADER_SIZE then
        .error (.messageHeaderTruncated (DATAGRAM_HEADER_SIZE + offset) remaining)
      else
        let declared := byteAt messages (offset + 1)
        if declared.toNat < MSG_HEADER_SIZE then
          .error (.messageTooShort (DATAGRAM_HEADER_SIZE + offset) declared)
        else if remaining < declared.toNat then
          .error (.messageOverrunsDatagram (DATAGRAM_HEADER_SIZE + offset) declared remaining)
        else validateFrom messages left (offset + declared.toNat) (found + 1)

/-- How many of the declared messages there are. -/
def validateMessages (messages : List Byte) (msgCount : ℕ) : Except DecodeError ℕ :=
  validateFrom messages msgCount 0 0

/-- The walk finds all it looks for exactly where that many frames can be cut off. -/
theorem validateFrom_eq_ok_iff (messages : List Byte) (left offset found : ℕ) :
    validateFrom messages left offset found = .ok (found + left) ↔
      ∃ p, wire.cut left (messages.drop offset) = some p := by
  induction left generalizing offset found with
  | zero => simp [validateFrom, Framer.cut]
  | succ left ih =>
      have hlen : (messages.drop offset).length = messages.length - offset := List.length_drop
      have hsize : wire.size (messages.drop offset) = (byteAt messages (offset + 1)).toNat :=
        congrArg UInt8.toNat (byteAt_drop messages offset 1)
      have hfits : wire.Fits (messages.drop offset) ↔ MSG_HEADER_SIZE ≤ messages.length - offset ∧
          MSG_HEADER_SIZE ≤ (byteAt messages (offset + 1)).toNat ∧
          (byteAt messages (offset + 1)).toNat ≤ messages.length - offset := by
        rw [← hlen, ← hsize]
        rfl
      rw [Framer.exists_cut_succ_iff, hfits, hsize, List.drop_drop]
      unfold validateFrom
      dsimp only
      split
      next hzero =>
        refine iff_of_false (fun h ↦ ?_) fun h ↦ ?_
        · have := Except.ok.inj h
          omega
        · rw [hzero] at h
          exact absurd h.1.1 (by decide)
      next =>
        split
        next hshort => exact iff_of_false (by simp) fun h ↦ hshort.not_ge h.1.1
        next hhead =>
          split
          next hdeclared => exact iff_of_false (by simp) fun h ↦ hdeclared.not_ge h.1.2.1
          next hdeclared =>
            split
            next hover => exact iff_of_false (by simp) fun h ↦ hover.not_ge h.1.2.2
            next hover =>
              have hsum : found + (left + 1) = found + 1 + left := by omega
              rw [hsum, ih]
              simp only [Nat.not_lt.mp hhead, Nat.not_lt.mp hdeclared, Nat.not_lt.mp hover,
                true_and]

theorem validateMessages_eq_ok_iff (messages : List Byte) (msgCount : ℕ) :
    validateMessages messages msgCount = .ok msgCount ↔
      ∃ p, wire.cut msgCount messages = some p := by
  simpa [validateMessages] using validateFrom_eq_ok_iff messages msgCount 0 0

/-! ## A received datagram -/

/-- A datagram whose structure has been validated: its header and its message region. -/
structure Datagram where
  header : DatagramHeader
  messages : List Byte
deriving DecidableEq, Repr

/-- The iterator over the messages of a validated datagram. -/
structure Messages where
  messages : List Byte
  offset : ℕ
  remainingCount : ℕ

namespace Messages

def next (it : Messages) : Option (MessageRef × Messages) :=
  if it.remainingCount = 0 then none
  else
    let declared := (byteAt it.messages (it.offset + 1)).toNat
    let bytes := slice it.messages it.offset declared
    some (⟨byteAt bytes 0, u16At bytes 2, bytes⟩,
      { it with offset := it.offset + declared, remainingCount := it.remainingCount - 1 })

/-- Everything the iterator yields, which is at most as much as it says. -/
def collect : ℕ → Messages → List MessageRef
  | 0, _ => []
  | n + 1, it =>
      match it.next with
      | none => []
      | some (m, it) => m :: collect n it

/-- The iterator yields the frames that can be cut off. -/
theorem collect_eq {ms rest : List Byte} {fs : List (List Byte)} {n offset : ℕ}
    (h : wire.cut n (ms.drop offset) = some (fs, rest)) :
    collect n ⟨ms, offset, n⟩ = fs.map .ofFrame := by
  induction n generalizing offset fs with
  | zero =>
      obtain ⟨rfl, -⟩ := Prod.mk.inj (Option.some.inj h)
      rfl
  | succ n ih =>
      have hsize : wire.size (ms.drop offset) = (byteAt ms (offset + 1)).toNat :=
        congrArg UInt8.toNat (byteAt_drop ms offset 1)
      rw [Framer.cut] at h
      split at h
      next =>
        obtain ⟨⟨gs, rest'⟩, hcut, heq⟩ := Option.map_eq_some_iff.mp h
        obtain ⟨rfl, rfl⟩ := Prod.mk.inj heq
        rw [hsize, List.drop_drop] at hcut
        rw [hsize, List.map_cons]
        exact congrArg (MessageRef.ofFrame _ :: ·) (ih hcut)
      next => cases h

end Messages

namespace Datagram

/-- Decode and validate a datagram believed to belong to the feed of a magic. -/
def decode (buf : List Byte) (expectedMagic : UInt16) : Except DecodeError Datagram :=
  match DatagramHeader.decode buf with
  | .error e => .error e
  | .ok header =>
      if header.magic ≠ expectedMagic then .error (.magicMismatch expectedMagic header.magic)
      else if header.msgCount = 0 then .error .emptyDatagram
      else
        let messages := slice buf DATAGRAM_HEADER_SIZE
          (header.datagramLen.toNat - DATAGRAM_HEADER_SIZE)
        match validateMessages messages header.msgCount.toNat with
        | .error e => .error e
        | .ok found =>
            if found ≠ header.msgCount.toNat then
              .error (.messageCountMismatch header.msgCount found)
            else .ok ⟨header, messages⟩

/-- The messages of a validated datagram, in wire order. -/
def iter (d : Datagram) : List MessageRef :=
  Messages.collect d.header.msgCount.toNat ⟨d.messages, 0, d.header.msgCount.toNat⟩

/-- A datagram decodes where its header does, the magic is the expected one, and the declared
region can be cut into as many frames as the header declares, one at least. -/
theorem decode_eq_ok_iff {buf : List Byte} {magic : UInt16} {d : Datagram} :
    decode buf magic = .ok d ↔
      DatagramHeader.decode buf = .ok d.header ∧ d.header.magic = magic ∧ d.header.msgCount ≠ 0 ∧
        d.messages = slice buf DATAGRAM_HEADER_SIZE
          (d.header.datagramLen.toNat - DATAGRAM_HEADER_SIZE) ∧
        ∃ p, wire.cut d.header.msgCount.toNat d.messages = some p := by
  unfold decode
  rcases hhead : DatagramHeader.decode buf with e | header
  · simp
  · constructor
    · intro h
      dsimp only at h
      split at h
      next => cases h
      next hmagic =>
        split at h
        next => cases h
        next hcount =>
          split at h
          next => cases h
          next found hfound =>
            split at h
            next => cases h
            next heq =>
              obtain rfl := Except.ok.inj h
              rw [not_not.mp heq] at hfound
              exact ⟨rfl, not_not.mp hmagic, hcount, rfl,
                (validateMessages_eq_ok_iff _ _).mp hfound⟩
    · rintro ⟨heq, hmagic, hcount, hmessages, hcut⟩
      obtain rfl := Except.ok.inj heq
      rw [← validateMessages_eq_ok_iff, hmessages] at hcut
      dsimp only
      rw [if_neg (not_not.mpr hmagic), if_neg hcount, hcut]
      dsimp only
      rw [if_neg (not_not.mpr rfl), ← hmessages]

theorem iter_eq {d : Datagram} {fs : List (List Byte)} {rest : List Byte}
    (h : wire.cut d.header.msgCount.toNat d.messages = some (fs, rest)) :
    d.iter = fs.map .ofFrame := by
  rw [iter]
  exact Messages.collect_eq h

end Datagram

/-! ## Finished datagrams -/

namespace AppMessage

variable (m : AppMessage) (flags : UInt16) (c : Byte)

theorem byteAt_frame_one : (byteAt (m.frame flags c) 1).toNat = m.SIZE := by
  have hread := m.readsAs_wireHeader flags c ⟨1, [UInt8.ofNat m.SIZE]⟩ (by simp [wireHeader])
  rw [byteAt_eq hread, UInt8.toNat_ofNat']
  exact Nat.mod_eq_of_lt (Nat.lt_succ_of_le m.size_le)

/-- The builder frames a message by its size. -/
theorem isFrame_frame : wire.IsFrame (m.frame flags c) :=
  ⟨by rw [length_frame]; exact m.header_le, by
    rw [length_frame]; exact m.byteAt_frame_one flags c⟩

theorem ofFrame_frame :
    MessageRef.ofFrame (m.frame flags c) = ⟨m.TYPE_ID, flags, m.frame flags c⟩ := by
  have hread := m.readsAs_wireHeader flags c
  have htype := byteAt_eq (hread ⟨0, [m.TYPE_ID]⟩ (by simp [wireHeader]))
  have hflags := u16At_eq (hread ⟨2, le16 flags⟩ (by simp [wireHeader]))
  rw [MessageRef.ofFrame, htype, hflags]

end AppMessage

namespace DatagramBuilder

variable {F : Feed} {b : DatagramBuilder F} {ms : List AppMessage} {bytes : List Byte}

/-- The header of the datagram that `finish` returns. -/
def header (b : DatagramBuilder F) (sendTimestampNs : UInt64) : DatagramHeader where
  magic := F.MAGIC
  schemaVersion := SCHEMA_VERSION
  channelId := b.channelId
  sequenceNumber := b.sequenceNumber
  sendTimestampNs := sendTimestampNs
  msgCount := b.msgCount
  resetCount := b.resetCount
  datagramLen := UInt16.ofNat b.buf.length

/-- The frames of the messages a builder holds. -/
def frames (b : DatagramBuilder F) (ms : List AppMessage) : List (List Byte) :=
  ms.map (·.frame b.flags b.channelId)

theorem Packs.length_buf (h : b.Packs ms) :
    b.buf.length = DATAGRAM_HEADER_SIZE + (b.frames ms).flatten.length := by
  rw [h.buf, List.length_append, List.length_replicate, frames]

theorem Packs.cut_frames (h : b.Packs ms) :
    wire.cut b.msgCount.toNat (b.frames ms).flatten = some (b.frames ms, []) := by
  have hframes : ∀ f ∈ b.frames ms, wire.IsFrame f := by
    intro f hf
    obtain ⟨m, -, rfl⟩ := List.mem_map.mp hf
    exact m.isFrame_frame b.flags b.channelId
  have hcut : wire.cut _ ((b.frames ms).flatten ++ []) = some (b.frames ms, []) :=
    Framer.cut_flatten hframes
  rwa [List.append_nil, frames, List.length_map, ← h.count] at hcut

theorem Packs.datagramLen_header (h : b.Packs ms) (ts : UInt64) :
    (b.header ts).datagramLen.toNat = b.buf.length := by
  have hle := h.room.trans h.cap
  rw [header, UInt16.toNat_ofNat']
  exact Nat.mod_eq_of_lt (hle.trans_lt (by decide))

theorem Packs.peek_finish (h : b.Packs ms) {ts : UInt64} (hb : b.finish ts = some bytes) :
    DatagramHeader.peek bytes = .ok (b.header ts) := by
  obtain ⟨hlen, hreads, -⟩ := h.finish_eq_some ts hb
  simp only [headerFields, ReadsAs, List.forall_mem_cons, length_le16, length_le64,
    List.length_singleton] at hreads
  obtain ⟨hmagic, hschema, hchannel, hseq, hts, hcount, hreset, hdlen, -⟩ := hreads
  rw [DatagramHeader.peek, if_neg (by rw [hlen, h.length_buf]; omega), u16At_eq hmagic,
    byteAt_eq hschema, byteAt_eq hchannel, u64At_eq hseq, u64At_eq hts, byteAt_eq hcount,
    byteAt_eq hreset, u16At_eq hdlen]
  rfl

/-- A finished datagram decodes to its header and its frames. -/
theorem Packs.decode_finish (h : b.Packs ms) {ts : UInt64} (hb : b.finish ts = some bytes) :
    Datagram.decode bytes F.MAGIC = .ok ⟨b.header ts, (b.frames ms).flatten⟩ := by
  obtain ⟨hlen, -, hdrop⟩ := h.finish_eq_some ts hb
  have hdlen := h.datagramLen_header ts
  have hle := h.room.trans h.cap
  have hbuf := h.length_buf
  refine Datagram.decode_eq_ok_iff.mpr ⟨?_, rfl, ?_, ?_, ⟨_, h.cut_frames⟩⟩
  · refine DatagramHeader.decode_eq_ok_iff.mpr ⟨h.peek_finish hb, rfl, ?_, ?_⟩
    · simp only [DatagramHeader.declaredLenIsInRange, hdlen, Bool.and_eq_true, decide_eq_true_eq]
      omega
    · rw [hdlen, hlen]
  · intro hzero
    have hcount : b.msgCount = 0 := hzero
    rw [finish, if_pos hcount] at hb
    cases hb
  · have hlen' : (bytes.drop DATAGRAM_HEADER_SIZE).length =
        b.buf.length - DATAGRAM_HEADER_SIZE := by
      rw [List.length_drop, hlen]
    rw [slice, hdlen, ← hlen', List.take_length, hdrop, frames]

/-- The iterator yields the messages a builder holds. -/
theorem Packs.iter_finish (h : b.Packs ms) (ts : UInt64) :
    Datagram.iter ⟨b.header ts, (b.frames ms).flatten⟩ =
      ms.map fun m ↦ ⟨m.TYPE_ID, b.flags, m.frame b.flags b.channelId⟩ := by
  rw [Datagram.iter_eq h.cut_frames, frames, List.map_map]
  exact List.map_congr_left fun m _ ↦ m.ofFrame_frame b.flags b.channelId

end DatagramBuilder

end EdgeMulticast.Codec
