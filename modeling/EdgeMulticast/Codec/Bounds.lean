import EdgeMulticast.Codec.Walk

/-!
# Every access of the walk is in bounds

`Datagram::decode` and the iterator once more, with every access to the buffer as the code makes
it: `none` stands for a panic.  No datagram makes either of them panic, and both come to what
`Codec.Walk` computes (`decodeChecked_eq`, `collectChecked_eq`).
-/

namespace EdgeMulticast.Codec

open EdgeMulticast.Lib

/-! ## The header -/

/-- `u16::from_le_bytes([bs[pos], bs[pos + 1]])` -/
def accessU16 (bs : List Byte) (pos : ℕ) : Option UInt16 := do
  let low ← access bs pos
  let high ← access bs (pos + 1)
  some (UInt16.ofNat (ofLE [low, high]))

/-- `u64::from_le_bytes(bs[pos..pos + 8])` -/
def accessU64 (bs : List Byte) (pos : ℕ) : Option UInt64 := do
  let bytes ← accessRange bs pos (pos + 8)
  some (UInt64.ofNat (ofLE bytes))

theorem accessU16_eq {bs : List Byte} {pos : ℕ} (h : pos + 2 ≤ bs.length) :
    accessU16 bs pos = some (u16At bs pos) := by
  rw [accessU16, access_eq (by omega), access_eq (by omega), u16At, slice_two h]
  rfl

theorem accessU64_eq {bs : List Byte} {pos : ℕ} (h : pos + 8 ≤ bs.length) :
    accessU64 bs pos = some (u64At bs pos) := by
  rw [accessU64, accessRange_eq (by omega) h, u64At, Nat.add_sub_cancel_left]
  rfl

def DatagramHeader.decodeChecked (buf : List Byte) : Option (Except DecodeError DatagramHeader) :=
  if buf.length < DATAGRAM_HEADER_SIZE then
    some (.error (.shortBuffer DATAGRAM_HEADER_SIZE buf.length))
  else do
    let schemaVersion ← access buf 2
    if !SUPPORTED_SCHEMA_VERSIONS.contains schemaVersion then
      some (.error (.unsupportedSchema schemaVersion))
    else do
      let declared ← accessU16 buf 22
      let datagramLen := declared.toNat
      if ¬ (DATAGRAM_HEADER_SIZE ≤ datagramLen ∧ datagramLen ≤ MAX_DATAGRAM_SIZE) then
        some (.error (.declaredLengthOutOfRange datagramLen DATAGRAM_HEADER_SIZE MAX_DATAGRAM_SIZE))
      else if buf.length < datagramLen then some (.error (.shortBuffer datagramLen buf.length))
      else do
        let magic ← accessU16 buf 0
        let channelId ← access buf 3
        let sequenceNumber ← accessU64 buf 4
        let sendTimestampNs ← accessU64 buf 12
        let msgCount ← access buf 20
        let resetCount ← access buf 21
        some (.ok { magic, schemaVersion, channelId, sequenceNumber, sendTimestampNs, msgCount,
                    resetCount, datagramLen := declared })

theorem DatagramHeader.decodeChecked_eq (buf : List Byte) :
    decodeChecked buf = some (decode buf) := by
  rw [decodeChecked, decode]
  split
  next => rfl
  next hlen =>
    have hlen : 24 ≤ buf.length := Nat.not_lt.mp hlen
    rw [access_eq (by omega), accessU16_eq (by omega), accessU16_eq (by omega),
      access_eq (by omega), accessU64_eq (by omega), accessU64_eq (by omega), access_eq (by omega),
      access_eq (by omega)]
    simp only [Option.bind_eq_bind, Option.bind_some]
    split
    next => rfl
    next =>
      split
      next => rfl
      next =>
        split
        next => rfl
        next => rfl

/-! ## The walk -/

def validateFromChecked (messages : List Byte) :
    (left offset found : ℕ) → Option (Except DecodeError ℕ)
  | 0, _, found => some (.ok found)
  | left + 1, offset, found => do
      let remaining ← lower messages.length offset
      if remaining = 0 then some (.ok found)
      else if remaining < MSG_HEADER_SIZE then
        some (.error (.messageHeaderTruncated (DATAGRAM_HEADER_SIZE + offset) remaining))
      else do
        let declared ← access messages (offset + 1)
        if declared.toNat < MSG_HEADER_SIZE then
          some (.error (.messageTooShort (DATAGRAM_HEADER_SIZE + offset) declared))
        else if remaining < declared.toNat then
          some (.error (.messageOverrunsDatagram (DATAGRAM_HEADER_SIZE + offset) declared remaining))
        else validateFromChecked messages left (offset + declared.toNat) (found + 1)

/-- The walk stays within the message region. -/
theorem validateFromChecked_eq (messages : List Byte) (left : ℕ) {offset : ℕ}
    (h : offset ≤ messages.length) (found : ℕ) :
    validateFromChecked messages left offset found =
      some (validateFrom messages left offset found) := by
  induction left generalizing offset found with
  | zero => rfl
  | succ left ih =>
      rw [validateFromChecked, validateFrom, lower_eq h]
      dsimp only [Option.bind_eq_bind, Option.bind_some]
      split
      next => rfl
      next =>
        split
        next => rfl
        next hhead =>
          have hin : offset + 4 ≤ messages.length := by
            have : MSG_HEADER_SIZE = 4 := rfl
            omega
          rw [access_eq (by omega)]
          dsimp only [Option.bind_some]
          split
          next => rfl
          next =>
            split
            next => rfl
            next hover => exact ih (by omega) (found + 1)

def Datagram.decodeChecked (buf : List Byte) (expectedMagic : UInt16) :
    Option (Except DecodeError Datagram) := do
  match ← DatagramHeader.decodeChecked buf with
  | .error e => some (.error e)
  | .ok header =>
      if header.magic ≠ expectedMagic then
        some (.error (.magicMismatch expectedMagic header.magic))
      else if header.msgCount = 0 then some (.error .emptyDatagram)
      else do
        let messages ← accessRange buf DATAGRAM_HEADER_SIZE header.datagramLen.toNat
        match ← validateFromChecked messages header.msgCount.toNat 0 0 with
        | .error e => some (.error e)
        | .ok found =>
            if found ≠ header.msgCount.toNat then
              some (.error (.messageCountMismatch header.msgCount found))
            else some (.ok ⟨header, messages⟩)

/-- No buffer makes the decoder panic. -/
theorem Datagram.decodeChecked_eq (buf : List Byte) (magic : UInt16) :
    decodeChecked buf magic = some (decode buf magic) := by
  rw [decodeChecked, decode, DatagramHeader.decodeChecked_eq]
  dsimp only [Option.bind_eq_bind, Option.bind_some]
  cases hhead : DatagramHeader.decode buf with
  | error e => rfl
  | ok header =>
      obtain ⟨-, -, hrange, hlen⟩ := DatagramHeader.decode_eq_ok_iff.mp hhead
      rw [DatagramHeader.declaredLenIsInRange, Bool.and_eq_true, decide_eq_true_eq,
        decide_eq_true_eq] at hrange
      dsimp only
      split
      next => rfl
      next =>
        split
        next => rfl
        next =>
          rw [accessRange_eq hrange.1 hlen]
          dsimp only [Option.bind_some]
          rw [validateFromChecked_eq _ _ (Nat.zero_le _), validateMessages]
          dsimp only [Option.bind_some]
          cases validateFrom (slice buf DATAGRAM_HEADER_SIZE
            (header.datagramLen.toNat - DATAGRAM_HEADER_SIZE)) header.msgCount.toNat 0 0 with
          | error e => rfl
          | ok found =>
              dsimp only
              split
              next => rfl
              next => rfl

/-! ## The iterator -/

namespace Messages

def nextChecked (it : Messages) : Option (Option (MessageRef × Messages)) :=
  if it.remainingCount = 0 then some none
  else do
    let declared ← access it.messages (it.offset + 1)
    let bytes ← accessRange it.messages it.offset (it.offset + declared.toNat)
    let typeId ← access bytes 0
    let flags ← accessU16 bytes 2
    let remainingCount ← lower it.remainingCount 1
    some (some (⟨typeId, flags, bytes⟩,
      { it with offset := it.offset + declared.toNat, remainingCount }))

/-- What the iterator yields, when it is asked for so many messages. -/
def collectChecked : ℕ → Messages → Option (List MessageRef)
  | 0, _ => some []
  | n + 1, it => do
      match ← it.nextChecked with
      | none => some []
      | some (m, it) => do
          let ms ← collectChecked n it
          some (m :: ms)

theorem nextChecked_eq {it : Messages} (h : wire.Fits (it.messages.drop it.offset)) :
    it.nextChecked = some it.next := by
  obtain ⟨hhead, hsize, hfits⟩ := h
  have hdeclared : wire.size (it.messages.drop it.offset) =
      (byteAt it.messages (it.offset + 1)).toNat :=
    congrArg UInt8.toNat (byteAt_drop it.messages it.offset 1)
  have hheader : wire.header = 4 := rfl
  rw [hdeclared, hheader] at hsize
  rw [hdeclared, List.length_drop] at hfits
  rw [hheader, List.length_drop] at hhead
  have hlen : (slice it.messages it.offset (byteAt it.messages (it.offset + 1)).toNat).length =
      (byteAt it.messages (it.offset + 1)).toNat := length_slice (by omega)
  rw [nextChecked, next]
  split
  next => rfl
  next hcount =>
    rw [access_eq (by omega)]
    dsimp only [Option.bind_eq_bind, Option.bind_some]
    rw [accessRange_eq (by omega) (by omega), Nat.add_sub_cancel_left]
    dsimp only [Option.bind_some]
    rw [access_eq (by omega), accessU16_eq (by omega), lower_eq (by omega)]
    rfl

/-- Over frames, the iterator stays in bounds, however often it is asked. -/
theorem collectChecked_eq {ms rest : List Byte} {fs : List (List Byte)} {n offset asked : ℕ}
    (h : wire.cut n (ms.drop offset) = some (fs, rest)) (hasked : n ≤ asked) :
    collectChecked asked ⟨ms, offset, n⟩ = some (fs.map .ofFrame) := by
  induction n generalizing offset fs asked with
  | zero =>
      obtain ⟨rfl, -⟩ := Prod.mk.inj (Option.some.inj h)
      cases asked with
      | zero => rfl
      | succ asked => rfl
  | succ n ih =>
      obtain ⟨asked, rfl⟩ := Nat.exists_eq_add_of_le' (Nat.lt_of_lt_of_le n.succ_pos hasked)
      have hsize : wire.size (ms.drop offset) = (byteAt ms (offset + 1)).toNat :=
        congrArg UInt8.toNat (byteAt_drop ms offset 1)
      rw [Framer.cut] at h
      split at h
      next hfits =>
        obtain ⟨⟨gs, rest'⟩, hcut, heq⟩ := Option.map_eq_some_iff.mp h
        obtain ⟨rfl, rfl⟩ := Prod.mk.inj heq
        rw [hsize, List.drop_drop] at hcut
        have hnext : nextChecked ⟨ms, offset, n + 1⟩ = some (next ⟨ms, offset, n + 1⟩) :=
          nextChecked_eq hfits
        have htail : collectChecked asked ⟨ms, offset + (byteAt ms (offset + 1)).toNat, n⟩ =
            some (gs.map .ofFrame) := ih hcut (by omega)
        rw [collectChecked, hnext, next, if_neg (Nat.succ_ne_zero n)]
        dsimp only [Option.bind_eq_bind, Option.bind_some]
        rw [Nat.add_sub_cancel, htail, hsize]
        rfl
      next => cases h

end Messages

/-! ## The grammar -/

/-- What is claimed of the datagrams that are accepted: the header, and that many messages one
after another in the region that the header declares. -/
structure WellFramed (buf : List Byte) (magic : UInt16) : Prop where
  header : DATAGRAM_HEADER_SIZE ≤ buf.length
  schema : byteAt buf 2 ∈ SUPPORTED_SCHEMA_VERSIONS
  magic_eq : u16At buf 0 = magic
  covers : DATAGRAM_HEADER_SIZE ≤ (u16At buf 22).toNat
  declared : (u16At buf 22).toNat ≤ min MAX_DATAGRAM_SIZE buf.length
  count : 1 ≤ (byteAt buf 20).toNat
  messages : ∃ (fs : List (List Byte)) (padding : List Byte),
    slice buf DATAGRAM_HEADER_SIZE ((u16At buf 22).toNat - DATAGRAM_HEADER_SIZE) =
      fs.flatten ++ padding ∧
    fs.length = (byteAt buf 20).toNat ∧
    ∀ f ∈ fs, MSG_HEADER_SIZE ≤ f.length ∧ (byteAt f 1).toNat = f.length

theorem peek_eq_ok_iff {buf : List Byte} {h : DatagramHeader} :
    DatagramHeader.peek buf = .ok h ↔ DATAGRAM_HEADER_SIZE ≤ buf.length ∧
      h = ⟨u16At buf 0, byteAt buf 2, byteAt buf 3, u64At buf 4, u64At buf 12, byteAt buf 20,
        byteAt buf 21, u16At buf 22⟩ := by
  rw [DatagramHeader.peek]
  split
  next hshort => exact ⟨fun h ↦ (by cases h), fun h ↦ absurd h.1 (not_le.mpr hshort)⟩
  next hlong =>
    exact ⟨fun h ↦ ⟨not_lt.mp hlong, (Except.ok.inj h).symm⟩, fun h ↦ congrArg Except.ok h.2.symm⟩

theorem decodes_iff {buf : List Byte} {magic : UInt16} :
    (∃ d, Datagram.decode buf magic = .ok d) ↔ WellFramed buf magic := by
  constructor
  · rintro ⟨⟨header, messages⟩, h⟩
    obtain ⟨hdecode, hmagic, hcount, hmessages, ⟨fs, padding⟩, hcut⟩ := Datagram.decode_eq_ok_iff.mp h
    obtain ⟨hpeek, hschema, hrange, hfits⟩ := DatagramHeader.decode_eq_ok_iff.mp hdecode
    obtain ⟨hlen, rfl⟩ := peek_eq_ok_iff.mp hpeek
    obtain ⟨hfs, hframes, hflat⟩ := Framer.cut_eq_some_iff.mp hcut
    rw [DatagramHeader.declaredLenIsInRange, Bool.and_eq_true, decide_eq_true_eq,
      decide_eq_true_eq] at hrange
    refine ⟨hlen, List.contains_iff_mem.mp hschema, hmagic, hrange.1, le_min hrange.2 hfits, ?_,
      fs, padding, hmessages ▸ hflat.symm, hfs, hframes⟩
    refine Nat.one_le_iff_ne_zero.mpr fun hzero ↦ hcount ?_
    exact UInt8.toNat_inj.mp hzero
  · rintro ⟨hlen, hschema, hmagic, hcovers, hdeclared, hcount, fs, padding, hflat, hfs, hframes⟩
    obtain ⟨hmax, hfits⟩ := Nat.le_min.mp hdeclared
    refine ⟨⟨_, _⟩, Datagram.decode_eq_ok_iff.mpr ⟨DatagramHeader.decode_eq_ok_iff.mpr
      ⟨peek_eq_ok_iff.mpr ⟨hlen, rfl⟩, List.contains_iff_mem.mpr hschema, ?_, hfits⟩, hmagic, ?_, rfl,
      (fs, padding), Framer.cut_eq_some_iff.mpr ⟨hfs, hframes, hflat.symm⟩⟩⟩
    · rw [DatagramHeader.declaredLenIsInRange, Bool.and_eq_true, decide_eq_true_eq,
        decide_eq_true_eq]
      exact ⟨hcovers, hmax⟩
    · intro hzero
      rw [show byteAt buf 20 = 0 from hzero] at hcount
      exact absurd hcount (by decide)

/-- The iterator of a validated datagram. -/
def Datagram.iterator (d : Datagram) : Messages := ⟨d.messages, 0, d.header.msgCount.toNat⟩

/-- **The grammar and the walk.**  Exactly the well-framed buffers are accepted, no buffer makes
the decoder panic, and the iterator of an accepted one yields, without a panic, as many messages as
the header declares, which follow one another from the start of the message region. -/
theorem decode_walk (buf : List Byte) (magic : UInt16) :
    Datagram.decodeChecked buf magic = some (Datagram.decode buf magic) ∧
    ((∃ d, Datagram.decode buf magic = .ok d) ↔ WellFramed buf magic) ∧
    ∀ d, Datagram.decode buf magic = .ok d →
      ∃ ms padding, ms.length = (byteAt buf 20).toNat ∧
        (∀ asked, ms.length ≤ asked → d.iterator.collectChecked asked = some ms) ∧
        (∀ m ∈ ms, MSG_HEADER_SIZE ≤ m.bytes.length ∧ m = .ofFrame m.bytes) ∧
        slice buf DATAGRAM_HEADER_SIZE ((u16At buf 22).toNat - DATAGRAM_HEADER_SIZE) =
          (ms.map (·.bytes)).flatten ++ padding := by
  refine ⟨Datagram.decodeChecked_eq buf magic, decodes_iff, ?_⟩
  rintro ⟨header, messages⟩ h
  obtain ⟨hdecode, _, _, hmessages, ⟨fs, padding⟩, hcut⟩ := Datagram.decode_eq_ok_iff.mp h
  obtain ⟨_, rfl⟩ := peek_eq_ok_iff.mp (DatagramHeader.decode_eq_ok_iff.mp hdecode).1
  obtain ⟨hfs, hframes, hflat⟩ := Framer.cut_eq_some_iff.mp hcut
  have hbytes : (fs.map MessageRef.ofFrame).map (·.bytes) = fs := by
    rw [List.map_map]
    exact List.map_id fs
  have hlen : (fs.map MessageRef.ofFrame).length = (byteAt buf 20).toNat := by
    rw [List.length_map]
    exact hfs
  refine ⟨fs.map .ofFrame, padding, hlen, fun asked hasked ↦ ?_, fun m hm ↦ ?_, ?_⟩
  · rw [hlen] at hasked
    exact Messages.collectChecked_eq hcut hasked
  · obtain ⟨f, hf, rfl⟩ := List.mem_map.mp hm
    exact ⟨(hframes f hf).1, rfl⟩
  · rw [hbytes, hflat]
    exact hmessages.symm

end EdgeMulticast.Codec
