import EdgeMulticast.Codec.Walk

/-!
# The layouts of the messages

Every message begins with its type, its length and two bytes of flags, and goes on with fields
that lie one behind the other.  Most messages are `plain`; two carry a Channel ID in the first
byte of their body, which the builder overwrites (`channeled`).

What a decoder finds in a message that the builder has framed is `readsAs_plain` and
`readsAs_channeled`.  The messages of the session, and the two of the top-of-book feed, are here;
reference data and depth have modules of their own.
-/

namespace EdgeMulticast.Codec

open EdgeMulticast.Lib

/-- The three writes with which every `encode_into` begins. -/
def messageHeader (typeId : Byte) (size : ℕ) : List Field :=
  [⟨0, [typeId]⟩, ⟨1, [UInt8.ofNat size]⟩, ⟨2, le16 0⟩]

/-- The three checks with which every `decode` begins. -/
def checkHeader (typeId : Byte) (size : ℕ) (buf : List Byte) : Except DecodeError Unit :=
  if buf.length < size then .error (.shortBuffer size buf.length)
  else if byteAt buf 0 ≠ typeId then .error (.badTypeId (byteAt buf 0))
  else if (byteAt buf 1).toNat ≠ size then .error (.lengthMismatch typeId (byteAt buf 1) size)
  else .ok ()

theorem packed_messageHeader {typeId : Byte} {size : ℕ} {body : List Field}
    (h : Packed MSG_HEADER_SIZE body size) : Packed 0 (messageHeader typeId size ++ body) size :=
  ⟨rfl, rfl, rfl, h⟩

namespace AppMessage

section

variable (m : AppMessage) (flags : UInt16) (c : Byte)

theorem checkHeader_frame : checkHeader m.TYPE_ID m.SIZE (m.frame flags c) = .ok () := by
  have htype := byteAt_eq
    (m.readsAs_wireHeader flags c ⟨0, [m.TYPE_ID]⟩ (by simp [wireHeader]))
  rw [checkHeader, m.length_frame, if_neg (lt_irrefl _), htype, m.byteAt_frame_one,
    if_neg (not_not.mpr rfl), if_neg (not_not.mpr rfl)]

variable {m} {c}

/-- A field of the body that the stamp does not touch is framed as it was encoded. -/
theorem readsAs_encoded {fs : List Field} (hapart : m.encodeInto.Pairwise Field.Apart)
    (hfs : ∀ f ∈ fs, f ∈ m.encodeInto ∧ MSG_HEADER_SIZE ≤ f.pos ∧
      ∀ g ∈ m.stampChannelId c, Field.Apart f g) : ReadsAs (m.frame flags c) fs := by
  refine ReadsAs.putAll (ReadsAs.putAll (fun f hf ↦ ?_) ?_ ?_) ?_ fun f hf ↦ (hfs f hf).2.2
  · refine readsAs_putAll (fun g hg ↦ ?_) hapart f (hfs f hf).1
    rw [List.length_replicate]
    exact m.encode_inside g hg
  · intro g hg
    rw [length_encoded]
    exact (m.wireHeader_inside flags g hg).trans m.header_le
  · intro f hf g hg
    exact .inr ((m.wireHeader_inside flags g hg).trans (hfs f hf).2.1)
  · intro g hg
    rw [length_headed]
    exact (m.stamp_inside c g hg).2

/-- What the stamp writes is there. -/
theorem readsAs_stamped (hapart : (m.stampChannelId c).Pairwise Field.Apart) :
    ReadsAs (m.frame flags c) (m.stampChannelId c) := by
  refine readsAs_putAll (fun g hg ↦ ?_) hapart
  rw [length_headed]
  exact (m.stamp_inside c g hg).2

end

/-- A message that carries no Channel ID of its own. -/
def plain (typeName : String) (TYPE_ID : Byte) (SIZE : ℕ) (PORT_ROLES : List PortRole)
    (validate : Except EncodeError Unit) (body : List Field) (size_le : SIZE ≤ U8_MAX)
    (packed : Packed MSG_HEADER_SIZE body SIZE) : AppMessage where
  typeName := typeName
  TYPE_ID := TYPE_ID
  SIZE := SIZE
  PORT_ROLES := PORT_ROLES
  validate := validate
  encodeInto := messageHeader TYPE_ID SIZE ++ body
  stampChannelId _ := []
  header_le := packed.start_le
  size_le := size_le
  encode_inside f hf := ((packed_messageHeader packed).inside f hf).2
  stamp_inside := by simp

/-- A Channel ID goes before the rest of a body. -/
theorem packed_channelId (channelId : Byte) {body : List Field} {stop : ℕ}
    (packed : Packed 5 body stop) : Packed MSG_HEADER_SIZE (⟨4, [channelId]⟩ :: body) stop :=
  ⟨rfl, packed⟩

/-- A message that carries a Channel ID in the first byte of its body. -/
def channeled (typeName : String) (TYPE_ID : Byte) (SIZE : ℕ) (PORT_ROLES : List PortRole)
    (channelId : Byte) (body : List Field) (size_le : SIZE ≤ U8_MAX)
    (packed : Packed 5 body SIZE) : AppMessage where
  typeName := typeName
  TYPE_ID := TYPE_ID
  SIZE := SIZE
  PORT_ROLES := PORT_ROLES
  validate := .ok ()
  encodeInto := messageHeader TYPE_ID SIZE ++ ⟨4, [channelId]⟩ :: body
  stampChannelId c := [⟨4, [c]⟩]
  header_le := Nat.le_of_lt packed.start_le
  size_le := size_le
  encode_inside f hf :=
    ((packed_messageHeader (packed_channelId channelId packed)).inside f hf).2
  stamp_inside c f hf := by
    rw [List.mem_singleton] at hf
    rw [hf]
    exact ⟨le_rfl, packed.start_le⟩

section

variable {typeName : String} {T : Byte} {S : ℕ} {roles : List PortRole} {body : List Field}
  {size_le : S ≤ U8_MAX} {flags : UInt16} {c : Byte}

theorem readsAs_plain {validate : Except EncodeError Unit}
    {packed : Packed MSG_HEADER_SIZE body S} :
    ReadsAs ((plain typeName T S roles validate body size_le packed).frame flags c) body :=
  readsAs_encoded flags (packed_messageHeader packed).pairwise fun f hf ↦
    ⟨List.mem_append_right _ hf, (packed.inside f hf).1, by simp [plain]⟩

theorem readsAs_channeled {channelId : Byte} {packed : Packed 5 body S} :
    ReadsAs ((channeled typeName T S roles channelId body size_le packed).frame flags c)
      (⟨4, [c]⟩ :: body) := by
  have hstamp : ReadsAs
      ((channeled typeName T S roles channelId body size_le packed).frame flags c) [⟨4, [c]⟩] :=
    readsAs_stamped flags (List.pairwise_singleton ..)
  refine hstamp.append (readsAs_encoded flags
    (packed_messageHeader (packed_channelId channelId packed)).pairwise fun f hf ↦ ?_)
  have hpos := (packed.inside f hf).1
  refine ⟨List.mem_append_right _ (List.mem_cons_of_mem _ hf), Nat.le_of_lt hpos, fun g hg ↦ ?_⟩
  rw [List.mem_singleton.mp hg]
  exact .inr hpos

end

end AppMessage

/-! ## The messages of a session -/

structure Heartbeat where
  channelId : Byte
  timestampNs : UInt64
deriving DecidableEq, Repr

namespace Heartbeat

/-- The body behind the Channel ID. -/
def body (m : Heartbeat) : List Field := [⟨5, [0, 0, 0]⟩, ⟨8, le64 m.timestampNs⟩]

def app (m : Heartbeat) : AppMessage :=
  .channeled "dz_edge_core::heartbeat::Heartbeat" 0x01 16 [.mktdata] m.channelId m.body
    (by decide) (by simp [body, Packed, Field.stop])

def decode (buf : List Byte) : Except DecodeError Heartbeat := do
  checkHeader 0x01 16 buf
  return ⟨byteAt buf 4, u64At buf 8⟩

/-- A heartbeat is read back with the Channel ID of its datagram. -/
theorem decode_frame (m : Heartbeat) (flags : UInt16) (c : Byte) :
    decode (m.app.frame flags c) = .ok { m with channelId := c } := by
  have hcheck : checkHeader 0x01 16 (m.app.frame flags c) = .ok () := m.app.checkHeader_frame ..
  have hreads : ReadsAs (m.app.frame flags c) (⟨4, [c]⟩ :: m.body) := AppMessage.readsAs_channeled
  simp only [ReadsAs, body, List.forall_mem_cons, length_le64, List.length_singleton] at hreads
  obtain ⟨hchannel, -, hts, -⟩ := hreads
  rw [decode, hcheck, byteAt_eq hchannel, u64At_eq hts]
  rfl

end Heartbeat

structure EndOfSession where
  timestampNs : UInt64
deriving DecidableEq, Repr

namespace EndOfSession

def body (m : EndOfSession) : List Field := [⟨4, le64 m.timestampNs⟩]

def app (m : EndOfSession) : AppMessage :=
  .plain "dz_edge_core::end_of_session::EndOfSession" 0x06 12 [.mktdata] (.ok ()) m.body
    (by decide) (by simp [body, Packed, Field.stop])

def decode (buf : List Byte) : Except DecodeError EndOfSession := do
  checkHeader 0x06 12 buf
  return ⟨u64At buf 4⟩

theorem decode_frame (m : EndOfSession) (flags : UInt16) (c : Byte) :
    decode (m.app.frame flags c) = .ok m := by
  have hcheck : checkHeader 0x06 12 (m.app.frame flags c) = .ok () := m.app.checkHeader_frame ..
  have hreads : ReadsAs (m.app.frame flags c) m.body := AppMessage.readsAs_plain
  simp only [ReadsAs, body, List.forall_mem_cons, length_le64] at hreads
  obtain ⟨hts, -⟩ := hreads
  rw [decode, hcheck, u64At_eq hts]
  rfl

end EndOfSession

/-! ## The messages of the top-of-book feed -/

structure Quote where
  instrumentId : UInt32
  sourceId : UInt16
  updateFlags : Byte
  sourceTimestampNs : UInt64
  bidPrice : Int64
  bidQty : UInt64
  askPrice : Int64
  askQty : UInt64
  bidSourceCount : UInt16
  askSourceCount : UInt16
  venueUpdateId : UInt32
deriving DecidableEq, Repr

namespace Quote

def body (m : Quote) : List Field := [
  ⟨4, le32 m.instrumentId⟩,
  ⟨8, le16 m.sourceId⟩,
  ⟨10, [m.updateFlags]⟩,
  ⟨11, [0]⟩,
  ⟨12, le64 m.sourceTimestampNs⟩,
  ⟨20, le64 m.bidPrice.toUInt64⟩,
  ⟨28, le64 m.bidQty⟩,
  ⟨36, le64 m.askPrice.toUInt64⟩,
  ⟨44, le64 m.askQty⟩,
  ⟨52, le16 m.bidSourceCount⟩,
  ⟨54, le16 m.askSourceCount⟩,
  ⟨56, le32 m.venueUpdateId⟩]

def app (m : Quote) : AppMessage :=
  .plain "dz_edge_tob::quote::Quote" 0x03 60 [.mktdata] (.ok ()) m.body
    (by decide) (by simp [body, Packed, Field.stop])

def decode (buf : List Byte) : Except DecodeError Quote := do
  checkHeader 0x03 60 buf
  return {
    instrumentId := u32At buf 4
    sourceId := u16At buf 8
    updateFlags := byteAt buf 10
    sourceTimestampNs := u64At buf 12
    bidPrice := i64At buf 20
    bidQty := u64At buf 28
    askPrice := i64At buf 36
    askQty := u64At buf 44
    bidSourceCount := u16At buf 52
    askSourceCount := u16At buf 54
    venueUpdateId := u32At buf 56 }

theorem decode_frame (m : Quote) (flags : UInt16) (c : Byte) :
    decode (m.app.frame flags c) = .ok m := by
  have hcheck : checkHeader 0x03 60 (m.app.frame flags c) = .ok () := m.app.checkHeader_frame ..
  have hreads : ReadsAs (m.app.frame flags c) m.body := AppMessage.readsAs_plain
  simp only [ReadsAs, body, List.forall_mem_cons, length_le16, length_le32, length_le64,
    List.length_singleton] at hreads
  obtain ⟨hid, hsource, hflags, -, hts, hbid, hbidQty, hask, haskQty, hbidCount, haskCount, hvenue,
    -⟩ := hreads
  rw [decode, hcheck, u32At_eq hid, u16At_eq hsource, byteAt_eq hflags, u64At_eq hts, i64At_eq hbid,
    u64At_eq hbidQty, i64At_eq hask, u64At_eq haskQty, u16At_eq hbidCount, u16At_eq haskCount,
    u32At_eq hvenue]
  rfl

end Quote

structure Trade where
  instrumentId : UInt32
  sourceId : UInt16
  aggressorSide : Byte
  tradeFlags : Byte
  sourceTimestampNs : UInt64
  tradePrice : Int64
  tradeQty : UInt64
  tradeId : UInt64
  cumulativeVolume : UInt64
deriving DecidableEq, Repr

namespace Trade

def body (m : Trade) : List Field := [
  ⟨4, le32 m.instrumentId⟩,
  ⟨8, le16 m.sourceId⟩,
  ⟨10, [m.aggressorSide]⟩,
  ⟨11, [m.tradeFlags]⟩,
  ⟨12, le64 m.sourceTimestampNs⟩,
  ⟨20, le64 m.tradePrice.toUInt64⟩,
  ⟨28, le64 m.tradeQty⟩,
  ⟨36, le64 m.tradeId⟩,
  ⟨44, le64 m.cumulativeVolume⟩]

def app (m : Trade) : AppMessage :=
  .plain "dz_edge_tob::trade::Trade" 0x04 52 [.mktdata] (.ok ()) m.body
    (by decide) (by simp [body, Packed, Field.stop])

def decode (buf : List Byte) : Except DecodeError Trade := do
  checkHeader 0x04 52 buf
  return {
    instrumentId := u32At buf 4
    sourceId := u16At buf 8
    aggressorSide := byteAt buf 10
    tradeFlags := byteAt buf 11
    sourceTimestampNs := u64At buf 12
    tradePrice := i64At buf 20
    tradeQty := u64At buf 28
    tradeId := u64At buf 36
    cumulativeVolume := u64At buf 44 }

theorem decode_frame (m : Trade) (flags : UInt16) (c : Byte) :
    decode (m.app.frame flags c) = .ok m := by
  have hcheck : checkHeader 0x04 52 (m.app.frame flags c) = .ok () := m.app.checkHeader_frame ..
  have hreads : ReadsAs (m.app.frame flags c) m.body := AppMessage.readsAs_plain
  simp only [ReadsAs, body, List.forall_mem_cons, length_le16, length_le32, length_le64,
    List.length_singleton] at hreads
  obtain ⟨hid, hsource, hside, hflags, hts, hprice, hqty, htrade, hvolume, -⟩ := hreads
  rw [decode, hcheck, u32At_eq hid, u16At_eq hsource, byteAt_eq hside, byteAt_eq hflags,
    u64At_eq hts, i64At_eq hprice, u64At_eq hqty, u64At_eq htrade, u64At_eq hvolume]
  rfl

end Trade

end EdgeMulticast.Codec
