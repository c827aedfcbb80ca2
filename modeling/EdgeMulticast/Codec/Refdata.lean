import EdgeMulticast.Codec.Layout

/-!
# Reference data

The definition of an instrument, at schema versions 3 and 1, the summary of the manifest, and the
strike of an instrument as an interval.  A strike whose flags and bounds contradict each other is
refused when it is pushed (`StrikeInterval.defect`).
-/

namespace EdgeMulticast.Codec

open EdgeMulticast.Lib

/-! ## Definitions -/

def SIZE_V1 : ℕ := 80

structure InstrumentDefinition where
  instrumentId : UInt32
  sourceId : UInt16
  symbol : Vector Byte 64
  leg1 : Vector Byte 8
  leg2 : Vector Byte 8
  assetClass : Byte
  priceExponent : Int8
  qtyExponent : Int8
  marketModel : Byte
  tickSize : Int64
  lotSize : UInt64
  contractValue : UInt64
  expiryNs : UInt64
  settleType : Byte
  priceBound : Byte
  manifestSeq : UInt16
deriving DecidableEq

namespace InstrumentDefinition

def body (m : InstrumentDefinition) : List Field := [
  ⟨4, le32 m.instrumentId⟩,
  ⟨8, le16 m.sourceId⟩,
  ⟨10, m.symbol.toList⟩,
  ⟨74, m.leg1.toList⟩,
  ⟨82, m.leg2.toList⟩,
  ⟨90, [m.assetClass]⟩,
  ⟨91, [m.priceExponent.toUInt8]⟩,
  ⟨92, [m.qtyExponent.toUInt8]⟩,
  ⟨93, [m.marketModel]⟩,
  ⟨94, le64 m.tickSize.toUInt64⟩,
  ⟨102, le64 m.lotSize⟩,
  ⟨110, le64 m.contractValue⟩,
  ⟨118, le64 m.expiryNs⟩,
  ⟨126, [m.settleType]⟩,
  ⟨127, [m.priceBound]⟩,
  ⟨128, le16 m.manifestSeq⟩]

def app (m : InstrumentDefinition) : AppMessage :=
  .plain "dz_edge_refdata::instrument_definition::InstrumentDefinition" 0x02 130 [.refdata]
    (.ok ()) m.body (by decide) (by simp [body, Packed, Field.stop])

def decodeV3 (buf : List Byte) : Except DecodeError InstrumentDefinition := do
  checkHeader 0x02 130 buf
  return {
    instrumentId := u32At buf 4
    sourceId := u16At buf 8
    symbol := bytesAt 64 buf 10
    leg1 := bytesAt 8 buf 74
    leg2 := bytesAt 8 buf 82
    assetClass := byteAt buf 90
    priceExponent := (byteAt buf 91).toInt8
    qtyExponent := (byteAt buf 92).toInt8
    marketModel := byteAt buf 93
    tickSize := i64At buf 94
    lotSize := u64At buf 102
    contractValue := u64At buf 110
    expiryNs := u64At buf 118
    settleType := byteAt buf 126
    priceBound := byteAt buf 127
    manifestSeq := u16At buf 128 }

/-- Schema 1 has no Source ID and a Symbol of 16 bytes, so every field after Instrument ID sits 50
bytes earlier. -/
def decodeV1 (buf : List Byte) : Except DecodeError InstrumentDefinition := do
  checkHeader 0x02 SIZE_V1 buf
  return {
    instrumentId := u32At buf 4
    sourceId := 0
    symbol := Vector.ofFn fun i ↦ if i < 16 then byteAt buf (8 + i) else 0
    leg1 := bytesAt 8 buf 24
    leg2 := bytesAt 8 buf 32
    assetClass := byteAt buf 40
    priceExponent := (byteAt buf 41).toInt8
    qtyExponent := (byteAt buf 42).toInt8
    marketModel := byteAt buf 43
    tickSize := i64At buf 44
    lotSize := u64At buf 52
    contractValue := u64At buf 60
    expiryNs := u64At buf 68
    settleType := byteAt buf 76
    priceBound := byteAt buf 77
    manifestSeq := u16At buf 78 }

def decode (buf : List Byte) (schemaVersion : Byte) : Except DecodeError InstrumentDefinition :=
  if schemaVersion = SCHEMA_VERSION then decodeV3 buf
  else if schemaVersion = SCHEMA_VERSION_V1 then decodeV1 buf
  else .error (.unsupportedSchema schemaVersion)

/-- A definition is read back at the version in which it was written. -/
theorem decode_frame (m : InstrumentDefinition) (flags : UInt16) (c : Byte) :
    decode (m.app.frame flags c) SCHEMA_VERSION = .ok m := by
  have hcheck : checkHeader 0x02 130 (m.app.frame flags c) = .ok () := m.app.checkHeader_frame ..
  have hreads : ReadsAs (m.app.frame flags c) m.body := AppMessage.readsAs_plain
  simp only [ReadsAs, body, List.forall_mem_cons, length_le16, length_le32, length_le64,
    List.length_singleton, Vector.length_toList] at hreads
  obtain ⟨hid, hsource, hsymbol, hleg1, hleg2, hclass, hprice, hqty, hmodel, htick, hlot, hvalue,
    hexpiry, hsettle, hbound, hmanifest, -⟩ := hreads
  rw [decode, if_pos rfl, decodeV3, hcheck, u32At_eq hid, u16At_eq hsource, bytesAt_eq hsymbol,
    bytesAt_eq hleg1, bytesAt_eq hleg2, byteAt_eq hclass, byteAt_eq hprice, byteAt_eq hqty,
    byteAt_eq hmodel, i64At_eq htick, u64At_eq hlot, u64At_eq hvalue, u64At_eq hexpiry,
    byteAt_eq hsettle, byteAt_eq hbound, u16At_eq hmanifest, Int8.toInt8_toUInt8,
    Int8.toInt8_toUInt8]
  rfl

end InstrumentDefinition

/-! ## The manifest -/

structure ManifestSummary where
  channelId : Byte
  valid : Byte
  manifestSeq : UInt16
  instrumentCount : UInt32
  timestampNs : UInt64
deriving DecidableEq, Repr

namespace ManifestSummary

/-- The body behind the Channel ID. -/
def body (m : ManifestSummary) : List Field := [
  ⟨5, [m.valid]⟩,
  ⟨6, [0, 0]⟩,
  ⟨8, le16 m.manifestSeq⟩,
  ⟨10, [0, 0]⟩,
  ⟨12, le32 m.instrumentCount⟩,
  ⟨16, le64 m.timestampNs⟩]

def app (m : ManifestSummary) : AppMessage :=
  .channeled "dz_edge_refdata::manifest_summary::ManifestSummary" 0x07 24 [.refdata] m.channelId
    m.body (by decide) (by simp [body, Packed, Field.stop])

def decode (buf : List Byte) : Except DecodeError ManifestSummary := do
  checkHeader 0x07 24 buf
  return {
    channelId := byteAt buf 4
    valid := byteAt buf 5
    manifestSeq := u16At buf 8
    instrumentCount := u32At buf 12
    timestampNs := u64At buf 16 }

/-- A summary is read back with the Channel ID of its datagram. -/
theorem decode_frame (m : ManifestSummary) (flags : UInt16) (c : Byte) :
    decode (m.app.frame flags c) = .ok { m with channelId := c } := by
  have hcheck : checkHeader 0x07 24 (m.app.frame flags c) = .ok () := m.app.checkHeader_frame ..
  have hreads : ReadsAs (m.app.frame flags c) (⟨4, [c]⟩ :: m.body) := AppMessage.readsAs_channeled
  simp only [ReadsAs, body, List.forall_mem_cons, length_le16, length_le32, length_le64,
    List.length_singleton] at hreads
  obtain ⟨hchannel, hvalid, -, hseq, -, hcount, hts, -⟩ := hreads
  rw [decode, hcheck, byteAt_eq hchannel, byteAt_eq hvalid, u16At_eq hseq, u32At_eq hcount,
    u64At_eq hts]
  rfl

end ManifestSummary

/-! ## Strikes -/

def BOUND_LOWER_PRESENT : Byte := 0b0001
def BOUND_LOWER_INCLUSIVE : Byte := 0b0010
def BOUND_UPPER_PRESENT : Byte := 0b0100
def BOUND_UPPER_INCLUSIVE : Byte := 0b1000
def BOUND_RESERVED : Byte := 0b11110000

structure StrikeInterval where
  instrumentId : UInt32
  sourceId : UInt16
  strikeExponent : Int8
  boundFlags : Byte
  lowerBound : Int64
  upperBound : Int64
  fixingTimeNs : UInt64
deriving DecidableEq, Repr

namespace StrikeInterval

/-- The first rule that a strike breaks. -/
def defect (m : StrikeInterval) : Option String :=
  let has (bit : Byte) : Bool := m.boundFlags &&& bit != 0
  let hasLower := has BOUND_LOWER_PRESENT
  let hasUpper := has BOUND_UPPER_PRESENT
  if has BOUND_RESERVED then some "Bound Flags bits 4-7 are reserved and must be clear"
  else if !hasLower && has BOUND_LOWER_INCLUSIVE then
    some "a lower bound that is not present cannot be inclusive"
  else if !hasUpper && has BOUND_UPPER_INCLUSIVE then
    some "an upper bound that is not present cannot be inclusive"
  else if !hasLower && m.lowerBound != 0 then some "Lower Bound must be 0 when it is not present"
  else if !hasUpper && m.upperBound != 0 then some "Upper Bound must be 0 when it is not present"
  else if !hasLower && !hasUpper && m.fixingTimeNs != 0 then
    some "Fixing Time must be 0 while the strike is pending"
  else if hasLower && hasUpper then
    if m.upperBound < m.lowerBound then
      some "Lower Bound is greater than Upper Bound, so the interval is empty"
    else if m.lowerBound == m.upperBound &&
        !(has BOUND_LOWER_INCLUSIVE && has BOUND_UPPER_INCLUSIVE) then
      some "equal bounds with an exclusive end make the interval empty"
    else none
  else none

def typeName : String := "dz_edge_refdata::strike_interval::StrikeInterval"

def validate (m : StrikeInterval) : Except EncodeError Unit :=
  match m.defect with
  | some what => .error (.malformedMessage typeName what)
  | none => .ok ()

def body (m : StrikeInterval) : List Field := [
  ⟨4, le32 m.instrumentId⟩,
  ⟨8, le16 m.sourceId⟩,
  ⟨10, [m.strikeExponent.toUInt8]⟩,
  ⟨11, [m.boundFlags]⟩,
  ⟨12, le64 m.lowerBound.toUInt64⟩,
  ⟨20, le64 m.upperBound.toUInt64⟩,
  ⟨28, le64 m.fixingTimeNs⟩,
  ⟨36, [0, 0, 0, 0]⟩]

theorem size_le : 40 ≤ U8_MAX := by decide

def app (m : StrikeInterval) : AppMessage :=
  .plain typeName 0x09 40 [.refdata] m.validate m.body
    size_le (by simp [body, Packed, Field.stop])

def decode (buf : List Byte) : Except DecodeError StrikeInterval := do
  checkHeader 0x09 40 buf
  return {
    instrumentId := u32At buf 4
    sourceId := u16At buf 8
    strikeExponent := (byteAt buf 10).toInt8
    boundFlags := byteAt buf 11
    lowerBound := i64At buf 12
    upperBound := i64At buf 20
    fixingTimeNs := u64At buf 28 }

theorem decode_frame (m : StrikeInterval) (flags : UInt16) (c : Byte) :
    decode (m.app.frame flags c) = .ok m := by
  have hcheck : checkHeader 0x09 40 (m.app.frame flags c) = .ok () := m.app.checkHeader_frame ..
  have hreads : ReadsAs (m.app.frame flags c) m.body := AppMessage.readsAs_plain
  simp only [ReadsAs, body, List.forall_mem_cons, length_le16, length_le32, length_le64,
    List.length_singleton] at hreads
  obtain ⟨hid, hsource, hexponent, hflags, hlower, hupper, hfixing, -⟩ := hreads
  rw [decode, hcheck, u32At_eq hid, u16At_eq hsource, byteAt_eq hexponent, byteAt_eq hflags,
    i64At_eq hlower, i64At_eq hupper, u64At_eq hfixing, Int8.toInt8_toUInt8]
  rfl

end StrikeInterval

end EdgeMulticast.Codec
