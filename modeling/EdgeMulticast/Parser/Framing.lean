import EdgeMulticast.Codec.Depth
import EdgeMulticast.Parser.Datagram
import Mathlib.Algebra.GroupWithZero.Nat

/-!
# Two readings of one framing

The codec's `Datagram.decode` and the parser's `framing` cut the messages of a datagram by the same
lengths, and judge what lies around them by rules of their own.  The codec reads the declared part
of a buffer, lets bytes behind the last message be, and refuses a declared length above the cap of
the family; the parser wants the buffer to be as long as declared, wants the messages to fill it,
and knows no cap.

Both are the same `Framer.cut` (`framingFrom_eq_ok_iff` for the parser), so wherever both succeed
they find the same messages, and `framing_agrees` says exactly where only one of them does.
-/

namespace EdgeMulticast.Parser

open EdgeMulticast.Lib
open EdgeMulticast.Codec (wire MarketByPrice Datagram MessageRef SCHEMA_VERSION SCHEMA_VERSION_V1)

/-! ## The walk cuts frames -/

/-- What the walk reads of a message as it stands on the wire. -/
def Boundary.ofFrame (f : List Byte) : Boundary :=
  ⟨byteAt f 0, byteAt f 1, u16At f 2, f.drop messageHeaderSize⟩

/-- The checks of a message are those of a frame. -/
theorem nextMessage_eq_ok_iff {body : List Byte} {mh : MessageHeader} :
    nextMessage body = .ok mh ↔
      wire.Fits body ∧ mh = ⟨byteAt body 0, byteAt body 1, u16At body 2⟩ := by
  have hfits : wire.Fits body ↔ messageHeaderSize ≤ body.length ∧
      messageHeaderSize ≤ (byteAt body 1).toNat ∧ (byteAt body 1).toNat ≤ body.length := Iff.rfl
  rw [hfits, nextMessage, parseMessageHeader]
  split
  next hshort => exact iff_of_false nofun fun h ↦ hshort.not_ge h.1.1
  next hshort =>
    simp only [bind, Except.bind]
    split
    next hlow => exact iff_of_false nofun fun h ↦ hlow.not_ge h.1.2.1
    next hlow =>
      split
      next hover => exact iff_of_false nofun fun h ↦ hover.not_ge h.1.2.2
      next hover =>
        constructor
        · intro h
          exact ⟨⟨Nat.not_lt.mp hshort, Nat.not_lt.mp hlow, Nat.not_lt.mp hover⟩,
            (Except.ok.inj h).symm⟩
        · rintro ⟨-, rfl⟩
          rfl

theorem ofFrame_take {body : List Byte} (h : wire.Fits body) :
    Boundary.ofFrame (body.take (wire.size body)) =
      ⟨byteAt body 0, byteAt body 1, u16At body 2,
        bodyOf ⟨byteAt body 0, byteAt body 1, u16At body 2⟩ body⟩ := by
  have hsize : 4 ≤ wire.size body := h.2.1
  rw [Boundary.ofFrame, byteAt_take (by omega), byteAt_take (by omega), u16At_take hsize]
  rfl

/-- The walk succeeds where the frames use up the bytes. -/
theorem framingFrom_eq_ok_iff {n : ℕ} {body : List Byte} {bs : List Boundary} :
    framingFrom n body = .ok bs ↔
      ∃ fs, wire.cut n body = some (fs, []) ∧ bs = fs.map Boundary.ofFrame := by
  induction n generalizing body bs with
  | zero =>
      rw [framingFrom, Framer.cut]
      cases body with
      | nil =>
          constructor
          · intro h
            exact ⟨[], rfl, (Except.ok.inj h).symm⟩
          · rintro ⟨fs, hfs, rfl⟩
            obtain ⟨rfl, -⟩ := Prod.mk.inj (Option.some.inj hfs)
            rfl
      | cons b body =>
          refine iff_of_false (fun h ↦ by cases h) ?_
          rintro ⟨fs, hfs, -⟩
          cases (Prod.mk.inj (Option.some.inj hfs)).2
  | succ n ih =>
      rw [framingFrom, Framer.cut]
      rcases hnext : nextMessage body with e | mh
      · refine iff_of_false (fun h ↦ by cases h) ?_
        rintro ⟨fs, hfs, -⟩
        split at hfs
        next hfits => cases hnext.symm.trans (nextMessage_eq_ok_iff.mpr ⟨hfits, rfl⟩)
        next => cases hfs
      · obtain ⟨hfits, rfl⟩ := nextMessage_eq_ok_iff.mp hnext
        rw [if_pos hfits]
        change (framingFrom n (body.drop (wire.size body)) >>= _) = Except.ok bs ↔ _
        constructor
        · intro h
          rcases hrest : framingFrom n (body.drop (wire.size body)) with e | rest
          · rw [hrest] at h
            cases h
          · rw [hrest] at h
            obtain rfl := Except.ok.inj h
            obtain ⟨fs, hcut, rfl⟩ := ih.mp hrest
            refine ⟨body.take (wire.size body) :: fs, by rw [hcut]; rfl, ?_⟩
            rw [List.map_cons, ofFrame_take hfits]
        · rintro ⟨fs, hmap, rfl⟩
          obtain ⟨⟨gs, rest⟩, hcut, heq⟩ := Option.map_eq_some_iff.mp hmap
          obtain ⟨rfl, rfl⟩ := Prod.mk.inj heq
          rw [ih.mpr ⟨gs, hcut, rfl⟩, List.map_cons, ofFrame_take hfits]
          rfl

/-! ## The headers -/

theorem parseDatagramHeader_eq_ok_iff {buf : List Byte} {h : DatagramHeader} :
    parseDatagramHeader buf = .ok h ↔
      datagramHeaderSize ≤ buf.length ∧ h.magic = mbpMagic ∧
      (h.schemaVersion = mbpSchemaVersionV1 ∨ h.schemaVersion = mbpSchemaVersionV3) ∧
      h.frameLength.toNat = buf.length ∧ h.messageCount ≠ 0 ∧
      h = {
        magic := u16At buf 0
        schemaVersion := byteAt buf 2
        channelID := byteAt buf 3
        sequence := u64At buf 4
        sendTimestamp := readTSNs buf 12
        messageCount := byteAt buf 20
        resetCount := byteAt buf 21
        frameLength := u16At buf 22 } := by
  rw [parseDatagramHeader]
  split
  next hshort => exact iff_of_false nofun fun h ↦ hshort.not_ge h.1
  next hshort =>
    dsimp only
    constructor
    · intro h
      split at h
      next => cases h
      next hmagic =>
        split at h
        next => cases h
        next hschema =>
          split at h
          next => cases h
          next hframe =>
            split at h
            next => cases h
            next hcount =>
              obtain rfl := Except.ok.inj h
              refine ⟨Nat.not_lt.mp hshort, not_not.mp hmagic, ?_, not_not.mp hframe, hcount, rfl⟩
              rwa [not_and_or, not_not, not_not] at hschema
    · rintro ⟨-, hmagic, hschema, hframe, hcount, rfl⟩
      rw [if_neg (not_not.mpr hmagic), if_neg (by rwa [not_and_or, not_not, not_not]),
        if_neg (not_not.mpr hframe), if_neg hcount]

/-- What the codec finds of a datagram that it decodes, in terms of its bytes. -/
theorem decode_facts {buf : List Byte} {d : Datagram}
    (h : Datagram.decode buf MarketByPrice.MAGIC = .ok d) :
    datagramHeaderSize ≤ buf.length ∧ u16At buf 0 = mbpMagic ∧
      (byteAt buf 2 = mbpSchemaVersionV1 ∨ byteAt buf 2 = mbpSchemaVersionV3) ∧
      byteAt buf 20 ≠ 0 ∧ d.header.msgCount = byteAt buf 20 ∧
      d.header.datagramLen = u16At buf 22 ∧ datagramHeaderSize ≤ (u16At buf 22).toNat ∧
      (u16At buf 22).toNat ≤ 1232 ∧ (u16At buf 22).toNat ≤ buf.length ∧
      d.messages = slice buf datagramHeaderSize ((u16At buf 22).toNat - datagramHeaderSize) := by
  obtain ⟨hheader, hmagic, hcount, hmessages, -⟩ := Datagram.decode_eq_ok_iff.mp h
  obtain ⟨hpeek, hschema, hrange, hle⟩ := Codec.DatagramHeader.decode_eq_ok_iff.mp hheader
  rw [Codec.DatagramHeader.peek] at hpeek
  split at hpeek
  next => cases hpeek
  next hshort =>
    obtain ⟨header, messages⟩ := d
    obtain rfl := Except.ok.inj hpeek
    simp only [Codec.DatagramHeader.declaredLenIsInRange, Bool.and_eq_true, decide_eq_true_eq]
      at hrange
    refine ⟨Nat.not_lt.mp hshort, hmagic, ?_, hcount, rfl, rfl, hrange.1, hrange.2, hle, hmessages⟩
    have hmem : byteAt buf 2 ∈ [SCHEMA_VERSION, SCHEMA_VERSION_V1] := by
      simpa [Codec.DatagramHeader.schemaIsSupported, Codec.SUPPORTED_SCHEMA_VERSIONS] using hschema
    rcases List.mem_cons.mp hmem with hv | hv
    · exact .inr hv
    · exact .inl (List.mem_singleton.mp hv)

/-! ## Where the two agree -/

/-- A message of the codec's walk, as the parser's walk would report it. -/
def boundary (r : MessageRef) : Boundary :=
  ⟨r.typeId, byteAt r.bytes 1, r.flags, r.bytes.drop messageHeaderSize⟩

/-- The bytes of the messages are those of the frames. -/
theorem sum_length_iter {d : Datagram} {fs : List (List Byte)} {rest : List Byte}
    (h : wire.cut d.header.msgCount.toNat d.messages = some (fs, rest)) :
    (d.iter.map (·.bytes.length)).sum + rest.length = d.messages.length := by
  obtain ⟨-, -, hflat⟩ := Framer.cut_eq_some_iff.mp h
  rw [Datagram.iter_eq h, List.map_map, ← hflat, List.length_append, List.length_flatten]
  rfl

/-- The parser walks a buffer that the codec decodes exactly where the buffer is as long as
declared and the messages fill it. -/
theorem framing_iff_of_decode {buf : List Byte} {d : Datagram}
    (h : Datagram.decode buf MarketByPrice.MAGIC = .ok d) :
    (∃ bs, framing buf = .ok bs) ↔ d.header.datagramLen.toNat = buf.length ∧
      (d.iter.map (·.bytes.length)).sum + datagramHeaderSize = d.header.datagramLen.toNat := by
  obtain ⟨hlen, hmagic, hschema, hcount, hmsgs, hdlen, hlow, -, hle, hmessages⟩ := decode_facts h
  obtain ⟨-, -, -, -, ⟨fs, rest⟩, hcut⟩ := Datagram.decode_eq_ok_iff.mp h
  have hsum := sum_length_iter hcut
  have hmlen : d.messages.length = (u16At buf 22).toNat - datagramHeaderSize := by
    rw [hmessages, length_slice (by omega)]
  have hwhole (heq : (u16At buf 22).toNat = buf.length) :
      buf.drop datagramHeaderSize = d.messages := by
    rw [hmessages, slice, heq, ← List.length_drop, List.take_length]
  rw [hdlen]
  constructor
  · rintro ⟨bs, hbs⟩
    rw [framing] at hbs
    rcases hhdr : parseDatagramHeader buf with e | hdr
    · rw [hhdr] at hbs
      cases hbs
    · rw [hhdr] at hbs
      obtain ⟨-, -, -, hframe, -, rfl⟩ := parseDatagramHeader_eq_ok_iff.mp hhdr
      obtain ⟨gs, hgs, -⟩ := framingFrom_eq_ok_iff.mp hbs
      rw [hwhole hframe, ← hmsgs, hcut] at hgs
      obtain ⟨-, rfl⟩ := Prod.mk.inj (Option.some.inj hgs)
      rw [List.length_nil] at hsum
      exact ⟨hframe, by omega⟩
  · rintro ⟨hframe, hfill⟩
    have hrest : rest = [] := List.length_eq_zero_iff.mp (by omega)
    refine ⟨fs.map .ofFrame, ?_⟩
    rw [framing, parseDatagramHeader_eq_ok_iff.mpr ⟨hlen, hmagic, hschema, hframe, hcount, rfl⟩]
    refine framingFrom_eq_ok_iff.mpr ⟨fs, ?_, rfl⟩
    rw [hwhole hframe, ← hmsgs, hcut, hrest]

/-- The codec decodes a buffer that the parser walks exactly where it is not above the cap, and
finds the same messages. -/
theorem decode_of_framing {buf : List Byte} {bs : List Boundary} (h : framing buf = .ok bs)
    (hcap : buf.length ≤ 1232) :
    ∃ d, Datagram.decode buf MarketByPrice.MAGIC = .ok d ∧ bs = d.iter.map boundary := by
  rw [framing] at h
  rcases hhdr : parseDatagramHeader buf with e | hdr
  · rw [hhdr] at h
    cases h
  · rw [hhdr] at h
    obtain ⟨hlen, hmagic, hschema, hframe, hcount, rfl⟩ := parseDatagramHeader_eq_ok_iff.mp hhdr
    obtain ⟨fs, hcut, rfl⟩ := framingFrom_eq_ok_iff.mp h
    have hwhole : slice buf datagramHeaderSize ((u16At buf 22).toNat - datagramHeaderSize) =
        buf.drop datagramHeaderSize := by
      have hframe : (u16At buf 22).toNat = buf.length := hframe
      rw [slice, hframe, ← List.length_drop, List.take_length]
    let d : Datagram := {
      header := {
        magic := u16At buf 0
        schemaVersion := byteAt buf 2
        channelId := byteAt buf 3
        sequenceNumber := u64At buf 4
        sendTimestampNs := u64At buf 12
        msgCount := byteAt buf 20
        resetCount := byteAt buf 21
        datagramLen := u16At buf 22 }
      messages := buf.drop datagramHeaderSize }
    refine ⟨d, Datagram.decode_eq_ok_iff.mpr ⟨?_, hmagic, hcount, hwhole.symm, _, hcut⟩, ?_⟩
    · refine Codec.DatagramHeader.decode_eq_ok_iff.mpr ⟨?_, ?_, ?_, hframe.le⟩
      · rw [Codec.DatagramHeader.peek, if_neg (Nat.not_lt.mpr hlen)]
      · rcases hschema with hv | hv
        · exact congrArg Codec.SUPPORTED_SCHEMA_VERSIONS.contains hv
        · exact congrArg Codec.SUPPORTED_SCHEMA_VERSIONS.contains hv
      · simp only [Codec.DatagramHeader.declaredLenIsInRange, Bool.and_eq_true, decide_eq_true_eq]
        exact ⟨hframe.symm ▸ hlen, hframe.symm ▸ hcap⟩
    · rw [Datagram.iter_eq (d := d) hcut, List.map_map]
      rfl

/-- The two decoders cut the same messages, and disagree on whether there is a datagram in three
cases only: a buffer longer than declared, bytes behind the last message, and a declared length
above the cap. -/
theorem framing_agrees (buf : List Byte) :
    (∀ d, Datagram.decode buf MarketByPrice.MAGIC = .ok d →
      ((∃ bs, framing buf = .ok bs) ↔ d.header.datagramLen.toNat = buf.length ∧
        (d.iter.map (·.bytes.length)).sum + 24 = d.header.datagramLen.toNat)) ∧
    (∀ bs, framing buf = .ok bs →
      ((∃ d, Datagram.decode buf MarketByPrice.MAGIC = .ok d) ↔ buf.length ≤ 1232)) ∧
    ∀ d bs, Datagram.decode buf MarketByPrice.MAGIC = .ok d → framing buf = .ok bs →
      bs = d.iter.map boundary := by
  have hcap (bs : List Boundary) (hbs : framing buf = .ok bs) (d : Datagram)
      (hd : Datagram.decode buf MarketByPrice.MAGIC = .ok d) : buf.length ≤ 1232 := by
    obtain ⟨-, -, -, -, -, hdlen, -, hle, -, -⟩ := decode_facts hd
    rw [← ((framing_iff_of_decode hd).mp ⟨bs, hbs⟩).1, hdlen]
    exact hle
  refine ⟨fun d hd ↦ framing_iff_of_decode hd, fun bs hbs ↦ ⟨?_, ?_⟩, fun d bs hd hbs ↦ ?_⟩
  · rintro ⟨d, hd⟩
    exact hcap bs hbs d hd
  · intro hle
    obtain ⟨d, hd, -⟩ := decode_of_framing hbs hle
    exact ⟨d, hd⟩
  · obtain ⟨d', hd', heq⟩ := decode_of_framing hbs (hcap bs hbs d hd)
    rw [heq, Except.ok.inj (hd'.symm.trans hd)]

theorem exists_ok {ε α : Type*} {x : Except ε α} (h : x.isOk) : ∃ a, x = .ok a := by
  cases x with
  | error e => cases h
  | ok a => exact ⟨a, rfl⟩

/-- The three cases: a heartbeat behind which the buffer goes on, a heartbeat behind which the
declared part goes on, and a datagram of 1299 bytes. -/
theorem framing_disagrees :
    (∃ buf, (∃ d, Datagram.decode buf MarketByPrice.MAGIC = .ok d) ∧ ¬ ∃ bs, framing buf = .ok bs) ∧
    (∃ buf d, Datagram.decode buf MarketByPrice.MAGIC = .ok d ∧
      d.header.datagramLen.toNat = buf.length ∧ ¬ ∃ bs, framing buf = .ok bs) ∧
    ∃ buf, (∃ bs, framing buf = .ok bs) ∧
      ¬ ∃ d, Datagram.decode buf MarketByPrice.MAGIC = .ok d := by
  let head (count low high : Byte) : List Byte :=
    [0x42, 0x44, 3, 0] ++ List.replicate 16 0 ++ [count, 0, low, high]
  let heartbeat : List Byte := [0x01, 16] ++ List.replicate 14 0
  let unknown : List Byte := [0x50, 255] ++ List.replicate 253 0
  refine ⟨⟨head 1 40 0 ++ heartbeat ++ [0], exists_ok (by decide +kernel), ?_⟩,
    ⟨head 1 41 0 ++ heartbeat ++ [0], ?_⟩,
    ⟨head 5 19 5 ++ (List.replicate 5 unknown).flatten, exists_ok (by decide +kernel), ?_⟩⟩
  · rintro ⟨bs, hbs⟩
    cases (show framing _ = .error .frameLength from rfl).symm.trans hbs
  · obtain ⟨d, hd⟩ := exists_ok (x := Datagram.decode (head 1 41 0 ++ heartbeat ++ [0])
      MarketByPrice.MAGIC) (by decide +kernel)
    obtain ⟨-, -, -, -, -, hdlen, -⟩ := decode_facts hd
    refine ⟨d, hd, by rw [hdlen]; decide +kernel, ?_⟩
    rintro ⟨bs, hbs⟩
    cases (show framing _ = .error .frameLength from rfl).symm.trans hbs
  · rintro ⟨d, hd⟩
    cases (show Datagram.decode _ _ = .error (.declaredLengthOutOfRange 1299 24 1232) from
      rfl).symm.trans hd

end EdgeMulticast.Parser
