import EdgeMulticast.Codec.Layout

/-!
# Depth: the messages of the market-by-price feed

What moves a book (`LevelUpdate`, `BookClear`), what voids it (`InstrumentReset`), and the three
messages of a snapshot, the only ones on the snapshot port.  A clear bounded by one price cannot
apply to both sides: such a message is refused when it is pushed and when it is read.
-/

namespace EdgeMulticast.Codec

open EdgeMulticast.Lib

def CLEAR_BOTH : Byte := 2

def SCOPE_FROM_PRICE : Byte := 1

/-- The feed: its magic, and the message types it carries. -/
def MarketByPrice : Feed where
  MAGIC := 0x4442
  NAME := "market-by-price"
  CARRIES :=
    [0x01, 0x02, 0x04, 0x06, 0x07, 0x08, 0x09, 0x13, 0x14, 0x20, 0x22, 0x40, 0x41, 0x42]

/-! ## What moves a book -/

structure LevelUpdate where
  instrumentId : UInt32
  sourceId : UInt16
  side : Byte
  action : Byte
  perInstrumentSeq : UInt32
  priceRaw : Int64
  qtyRaw : UInt64
  timestampNs : UInt64
  orderCount : UInt16
  levelIndex : UInt16
  updateReason : Byte
  levelFlags : Byte
deriving DecidableEq, Repr

namespace LevelUpdate

def body (m : LevelUpdate) : List Field := [
  ⟨4, le32 m.instrumentId⟩,
  ⟨8, le16 m.sourceId⟩,
  ⟨10, [m.side]⟩,
  ⟨11, [m.action]⟩,
  ⟨12, le32 m.perInstrumentSeq⟩,
  ⟨16, le64 m.priceRaw.toUInt64⟩,
  ⟨24, le64 m.qtyRaw⟩,
  ⟨32, le64 m.timestampNs⟩,
  ⟨40, le16 m.orderCount⟩,
  ⟨42, le16 m.levelIndex⟩,
  ⟨44, [m.updateReason]⟩,
  ⟨45, [m.levelFlags]⟩,
  ⟨46, [0, 0]⟩]

def app (m : LevelUpdate) : AppMessage :=
  .plain "dz_edge_mbp::level_update::LevelUpdate" 0x40 48 [.mktdata] (.ok ()) m.body
    (by decide) (by simp [body, Packed, Field.stop])

def decode (buf : List Byte) : Except DecodeError LevelUpdate := do
  checkHeader 0x40 48 buf
  return {
    instrumentId := u32At buf 4
    sourceId := u16At buf 8
    side := byteAt buf 10
    action := byteAt buf 11
    perInstrumentSeq := u32At buf 12
    priceRaw := i64At buf 16
    qtyRaw := u64At buf 24
    timestampNs := u64At buf 32
    orderCount := u16At buf 40
    levelIndex := u16At buf 42
    updateReason := byteAt buf 44
    levelFlags := byteAt buf 45 }

theorem decode_frame (m : LevelUpdate) (flags : UInt16) (c : Byte) :
    decode (m.app.frame flags c) = .ok m := by
  have hcheck : checkHeader 0x40 48 (m.app.frame flags c) = .ok () := m.app.checkHeader_frame ..
  have hreads : ReadsAs (m.app.frame flags c) m.body := AppMessage.readsAs_plain
  simp only [ReadsAs, body, List.forall_mem_cons, length_le16, length_le32, length_le64,
    List.length_singleton] at hreads
  obtain ⟨hid, hsource, hside, haction, hseq, hprice, hqty, hts, hcount, hindex, hreason, hflags,
    -⟩ := hreads
  rw [decode, hcheck, u32At_eq hid, u16At_eq hsource, byteAt_eq hside, byteAt_eq haction,
    u32At_eq hseq, i64At_eq hprice, u64At_eq hqty, u64At_eq hts, u16At_eq hcount, u16At_eq hindex,
    byteAt_eq hreason, byteAt_eq hflags]
  rfl

end LevelUpdate

structure BookClear where
  instrumentId : UInt32
  sourceId : UInt16
  clearSide : Byte
  scope : Byte
  perInstrumentSeq : UInt32
  fromPriceRaw : Int64
  timestampNs : UInt64
  clearReason : Byte
deriving DecidableEq, Repr

namespace BookClear

def typeName : String := "dz_edge_mbp::book_clear::BookClear"

def malformed : String := "a clear bounded by one price cannot apply to both sides"

/-- One price that bounds both sides. -/
def contradicts (m : BookClear) : Prop := m.scope = SCOPE_FROM_PRICE ∧ m.clearSide = CLEAR_BOTH

instance (m : BookClear) : Decidable m.contradicts := inferInstanceAs (Decidable (_ ∧ _))

def validate (m : BookClear) : Except EncodeError Unit :=
  if m.contradicts then .error (.malformedMessage typeName malformed) else .ok ()

def body (m : BookClear) : List Field := [
  ⟨4, le32 m.instrumentId⟩,
  ⟨8, le16 m.sourceId⟩,
  ⟨10, [m.clearSide]⟩,
  ⟨11, [m.scope]⟩,
  ⟨12, le32 m.perInstrumentSeq⟩,
  ⟨16, le64 m.fromPriceRaw.toUInt64⟩,
  ⟨24, le64 m.timestampNs⟩,
  ⟨32, [m.clearReason]⟩,
  ⟨33, [0, 0, 0]⟩]

def app (m : BookClear) : AppMessage :=
  .plain typeName 0x41 36 [.mktdata] m.validate m.body
    (by decide) (by simp [body, Packed, Field.stop])

def decode (buf : List Byte) : Except DecodeError BookClear := do
  checkHeader 0x41 36 buf
  let clear : BookClear := {
    instrumentId := u32At buf 4
    sourceId := u16At buf 8
    clearSide := byteAt buf 10
    scope := byteAt buf 11
    perInstrumentSeq := u32At buf 12
    fromPriceRaw := i64At buf 16
    timestampNs := u64At buf 24
    clearReason := byteAt buf 32 }
  if clear.contradicts then .error (.malformedBody 0x41 malformed) else return clear

/-- A clear that a datagram takes is read back. -/
theorem decode_frame {m : BookClear} (h : m.validate = .ok ()) (flags : UInt16) (c : Byte) :
    decode (m.app.frame flags c) = .ok m := by
  have hnot : ¬ m.contradicts := by
    intro hbad
    rw [validate, if_pos hbad] at h
    cases h
  have hcheck : checkHeader 0x41 36 (m.app.frame flags c) = .ok () := m.app.checkHeader_frame ..
  have hreads : ReadsAs (m.app.frame flags c) m.body := AppMessage.readsAs_plain
  simp only [ReadsAs, body, List.forall_mem_cons, length_le16, length_le32, length_le64,
    List.length_singleton] at hreads
  obtain ⟨hid, hsource, hside, hscope, hseq, hprice, hts, hreason, -⟩ := hreads
  rw [decode, hcheck, u32At_eq hid, u16At_eq hsource, byteAt_eq hside, byteAt_eq hscope,
    u32At_eq hseq, i64At_eq hprice, u64At_eq hts, byteAt_eq hreason]
  exact if_neg hnot

end BookClear

/-! ## What voids a book -/

structure InstrumentReset where
  instrumentId : UInt32
  reason : Byte
  newAnchorSeq : UInt64
  timestampNs : UInt64
deriving DecidableEq, Repr

namespace InstrumentReset

def body (m : InstrumentReset) : List Field := [
  ⟨4, le32 m.instrumentId⟩,
  ⟨8, [m.reason]⟩,
  ⟨9, [0, 0, 0]⟩,
  ⟨12, le64 m.newAnchorSeq⟩,
  ⟨20, le64 m.timestampNs⟩]

def app (m : InstrumentReset) : AppMessage :=
  .plain "dz_edge_mbp::instrument_reset::InstrumentReset" 0x14 28 [.mktdata] (.ok ()) m.body
    (by decide) (by simp [body, Packed, Field.stop])

def decode (buf : List Byte) : Except DecodeError InstrumentReset := do
  checkHeader 0x14 28 buf
  return {
    instrumentId := u32At buf 4
    reason := byteAt buf 8
    newAnchorSeq := u64At buf 12
    timestampNs := u64At buf 20 }

theorem decode_frame (m : InstrumentReset) (flags : UInt16) (c : Byte) :
    decode (m.app.frame flags c) = .ok m := by
  have hcheck : checkHeader 0x14 28 (m.app.frame flags c) = .ok () := m.app.checkHeader_frame ..
  have hreads : ReadsAs (m.app.frame flags c) m.body := AppMessage.readsAs_plain
  simp only [ReadsAs, body, List.forall_mem_cons, length_le32, length_le64,
    List.length_singleton] at hreads
  obtain ⟨hid, hreason, -, hanchor, hts, -⟩ := hreads
  rw [decode, hcheck, u32At_eq hid, byteAt_eq hreason, u64At_eq hanchor, u64At_eq hts]
  rfl

end InstrumentReset

/-! ## Snapshots -/

structure SnapshotBegin where
  instrumentId : UInt32
  anchorSeq : UInt64
  totalLevels : UInt32
  snapshotId : UInt32
  lastInstrumentSeq : UInt32
  timestampNs : UInt64
  depthBound : UInt32
deriving DecidableEq, Repr

namespace SnapshotBegin

def body (m : SnapshotBegin) : List Field := [
  ⟨4, le32 m.instrumentId⟩,
  ⟨8, le64 m.anchorSeq⟩,
  ⟨16, le32 m.totalLevels⟩,
  ⟨20, le32 m.snapshotId⟩,
  ⟨24, le32 m.lastInstrumentSeq⟩,
  ⟨28, le64 m.timestampNs⟩,
  ⟨36, le32 m.depthBound⟩]

def app (m : SnapshotBegin) : AppMessage :=
  .plain "dz_edge_mbp::snapshot::SnapshotBegin" 0x20 40 [.snapshot] (.ok ()) m.body
    (by decide) (by simp [body, Packed, Field.stop])

def decode (buf : List Byte) : Except DecodeError SnapshotBegin := do
  checkHeader 0x20 40 buf
  return {
    instrumentId := u32At buf 4
    anchorSeq := u64At buf 8
    totalLevels := u32At buf 16
    snapshotId := u32At buf 20
    lastInstrumentSeq := u32At buf 24
    timestampNs := u64At buf 28
    depthBound := u32At buf 36 }

theorem decode_frame (m : SnapshotBegin) (flags : UInt16) (c : Byte) :
    decode (m.app.frame flags c) = .ok m := by
  have hcheck : checkHeader 0x20 40 (m.app.frame flags c) = .ok () := m.app.checkHeader_frame ..
  have hreads : ReadsAs (m.app.frame flags c) m.body := AppMessage.readsAs_plain
  simp only [ReadsAs, body, List.forall_mem_cons, length_le32, length_le64] at hreads
  obtain ⟨hid, hanchor, hlevels, hsnapshot, hlast, hts, hdepth, -⟩ := hreads
  rw [decode, hcheck, u32At_eq hid, u64At_eq hanchor, u32At_eq hlevels, u32At_eq hsnapshot,
    u32At_eq hlast, u64At_eq hts, u32At_eq hdepth]
  rfl

end SnapshotBegin

structure SnapshotLevel where
  snapshotId : UInt32
  priceRaw : Int64
  qtyRaw : UInt64
  orderCount : UInt16
  side : Byte
  levelFlags : Byte
deriving DecidableEq, Repr

namespace SnapshotLevel

def body (m : SnapshotLevel) : List Field := [
  ⟨4, le32 m.snapshotId⟩,
  ⟨8, le64 m.priceRaw.toUInt64⟩,
  ⟨16, le64 m.qtyRaw⟩,
  ⟨24, le16 m.orderCount⟩,
  ⟨26, [m.side]⟩,
  ⟨27, [m.levelFlags]⟩,
  ⟨28, [0, 0, 0, 0]⟩]

def app (m : SnapshotLevel) : AppMessage :=
  .plain "dz_edge_mbp::snapshot::SnapshotLevel" 0x42 32 [.snapshot] (.ok ()) m.body
    (by decide) (by simp [body, Packed, Field.stop])

def decode (buf : List Byte) : Except DecodeError SnapshotLevel := do
  checkHeader 0x42 32 buf
  return {
    snapshotId := u32At buf 4
    priceRaw := i64At buf 8
    qtyRaw := u64At buf 16
    orderCount := u16At buf 24
    side := byteAt buf 26
    levelFlags := byteAt buf 27 }

theorem decode_frame (m : SnapshotLevel) (flags : UInt16) (c : Byte) :
    decode (m.app.frame flags c) = .ok m := by
  have hcheck : checkHeader 0x42 32 (m.app.frame flags c) = .ok () := m.app.checkHeader_frame ..
  have hreads : ReadsAs (m.app.frame flags c) m.body := AppMessage.readsAs_plain
  simp only [ReadsAs, body, List.forall_mem_cons, length_le16, length_le32, length_le64,
    List.length_singleton] at hreads
  obtain ⟨hsnapshot, hprice, hqty, hcount, hside, hflags, -⟩ := hreads
  rw [decode, hcheck, u32At_eq hsnapshot, i64At_eq hprice, u64At_eq hqty, u16At_eq hcount,
    byteAt_eq hside, byteAt_eq hflags]
  rfl

end SnapshotLevel

structure SnapshotEnd where
  instrumentId : UInt32
  anchorSeq : UInt64
  snapshotId : UInt32
deriving DecidableEq, Repr

namespace SnapshotEnd

def body (m : SnapshotEnd) : List Field :=
  [⟨4, le32 m.instrumentId⟩, ⟨8, le64 m.anchorSeq⟩, ⟨16, le32 m.snapshotId⟩]

def app (m : SnapshotEnd) : AppMessage :=
  .plain "dz_edge_mbp::snapshot::SnapshotEnd" 0x22 20 [.snapshot] (.ok ()) m.body
    (by decide) (by simp [body, Packed, Field.stop])

def decode (buf : List Byte) : Except DecodeError SnapshotEnd := do
  checkHeader 0x22 20 buf
  return ⟨u32At buf 4, u64At buf 8, u32At buf 16⟩

theorem decode_frame (m : SnapshotEnd) (flags : UInt16) (c : Byte) :
    decode (m.app.frame flags c) = .ok m := by
  have hcheck : checkHeader 0x22 20 (m.app.frame flags c) = .ok () := m.app.checkHeader_frame ..
  have hreads : ReadsAs (m.app.frame flags c) m.body := AppMessage.readsAs_plain
  simp only [ReadsAs, body, List.forall_mem_cons, length_le32, length_le64] at hreads
  obtain ⟨hid, hanchor, hsnapshot, -⟩ := hreads
  rw [decode, hcheck, u32At_eq hid, u64At_eq hanchor, u32At_eq hsnapshot]
  rfl

end SnapshotEnd

end EdgeMulticast.Codec
