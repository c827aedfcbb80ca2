import EdgeMulticast.Codec.Core

/-!
# The wire as the market-by-price parser reads it

The parser of the subscriber is a program of its own, with its own table of types and offsets.
Body sizes here are without the 4-byte message header, because that is what each parse function
receives, and every length check is an equality.
-/

namespace EdgeMulticast.Parser

open EdgeMulticast.Lib

def mbpMagic : UInt16 := 0x4442

def mbpSchemaVersionV1 : Byte := 1

def mbpSchemaVersionV3 : Byte := 3

abbrev datagramHeaderSize : ℕ := 24

abbrev messageHeaderSize : ℕ := 4

def flagSnapshot : UInt16 := 1

def u16Unavailable : UInt16 := 0xFFFF

/-- The errors of wire decoding. -/
inductive WireError where
  | badMagic | schemaVersion | datagramTooShort | frameLength | messageTooShort | messageLength
  | messageCount | truncated | malformedBody | unknownType
deriving DecidableEq, Repr

/-- An instant, as nanoseconds since the epoch.  The wire's word is taken as signed. -/
abbrev Time := Int64

def readTSNs (buf : List Byte) (pos : ℕ) : Time := i64At buf pos

/-! ## Headers -/

structure DatagramHeader where
  magic : UInt16
  schemaVersion : Byte
  channelID : Byte
  sequence : UInt64
  sendTimestamp : Time
  messageCount : Byte
  resetCount : Byte
  frameLength : UInt16
deriving DecidableEq, Repr

structure MessageHeader where
  type : Byte
  length : Byte
  flags : UInt16
deriving DecidableEq, Repr

def parseDatagramHeader (buf : List Byte) : Except WireError DatagramHeader :=
  if buf.length < datagramHeaderSize then .error .datagramTooShort
  else
    let h : DatagramHeader := {
      magic := u16At buf 0
      schemaVersion := byteAt buf 2
      channelID := byteAt buf 3
      sequence := u64At buf 4
      sendTimestamp := readTSNs buf 12
      messageCount := byteAt buf 20
      resetCount := byteAt buf 21
      frameLength := u16At buf 22 }
    if h.magic ≠ mbpMagic then .error .badMagic
    else if h.schemaVersion ≠ mbpSchemaVersionV1 ∧ h.schemaVersion ≠ mbpSchemaVersionV3 then
      .error .schemaVersion
    else if h.frameLength.toNat ≠ buf.length then .error .frameLength
    else if h.messageCount = 0 then .error .messageCount
    else .ok h

def parseMessageHeader (buf : List Byte) : Except WireError MessageHeader :=
  if buf.length < messageHeaderSize then .error .messageTooShort
  else .ok ⟨byteAt buf 0, byteAt buf 1, u16At buf 2⟩

/-! ## Bodies -/

/-- A body of exactly this many bytes. -/
def exactly (size : ℕ) (buf : List Byte) : Except WireError Unit :=
  if buf.length ≠ size then .error .truncated else .ok ()

/-- A text field, up to its first NUL. -/
def fixedString (buf : List Byte) : List Byte := buf.takeWhile (· ≠ 0)

structure HeartbeatBody where
  channelID : Byte
  timestamp : Time

def parseHeartbeat (buf : List Byte) : Except WireError HeartbeatBody := do
  exactly 12 buf
  return ⟨byteAt buf 0, readTSNs buf 4⟩

structure EndOfSessionBody where
  timestamp : Time

def parseEndOfSession (buf : List Byte) : Except WireError EndOfSessionBody := do
  exactly 8 buf
  return ⟨readTSNs buf 0⟩

structure ManifestSummaryBody where
  channelID : Byte
  valid : Byte
  manifestSeq : UInt16
  instrumentCount : UInt32
  timestamp : Time

def parseManifestSummary (buf : List Byte) : Except WireError ManifestSummaryBody := do
  exactly 20 buf
  return ⟨byteAt buf 0, byteAt buf 1, u16At buf 4, u32At buf 8, readTSNs buf 12⟩

def boundLowerPresent : Byte := 0x01
def boundLowerInclusive : Byte := 0x02
def boundUpperPresent : Byte := 0x04
def boundUpperInclusive : Byte := 0x08

structure StrikeIntervalBody where
  instrumentID : UInt32
  sourceID : UInt16
  strikeExponent : Int8
  boundFlags : Byte
  lowerBoundRaw : Int64
  upperBoundRaw : Int64
  fixingTime : Time

def StrikeIntervalBody.pending (b : StrikeIntervalBody) : Bool :=
  b.boundFlags &&& (boundLowerPresent ||| boundUpperPresent) == 0

def parseStrikeInterval (buf : List Byte) : Except WireError StrikeIntervalBody := do
  exactly 36 buf
  return {
    instrumentID := u32At buf 0
    sourceID := u16At buf 4
    strikeExponent := (byteAt buf 6).toInt8
    boundFlags := byteAt buf 7
    lowerBoundRaw := i64At buf 8
    upperBoundRaw := i64At buf 16
    fixingTime := readTSNs buf 24 }

structure InstrumentDefinitionBody where
  instrumentID : UInt32
  sourceID : UInt16
  symbol : List Byte
  leg1 : List Byte
  leg2 : List Byte
  assetClass : Byte
  priceExponent : Int8
  qtyExponent : Int8
  marketModel : Byte
  tickSizeRaw : Int64
  lotSizeRaw : UInt64
  contractValue : UInt64
  expiry : Time
  settleType : Byte
  priceBound : Byte
  manifestSeq : UInt16

/-- The fields of a definition, whose symbol stands between two offsets. -/
def definitionAt (buf : List Byte) (sourceID : UInt16) (symStart symEnd : ℕ) :
    InstrumentDefinitionBody :=
  let o := symEnd
  { instrumentID := u32At buf 0
    sourceID := sourceID
    symbol := fixedString (slice buf symStart (symEnd - symStart))
    leg1 := fixedString (slice buf o 8)
    leg2 := fixedString (slice buf (o + 8) 8)
    assetClass := byteAt buf (o + 16)
    priceExponent := (byteAt buf (o + 17)).toInt8
    qtyExponent := (byteAt buf (o + 18)).toInt8
    marketModel := byteAt buf (o + 19)
    tickSizeRaw := i64At buf (o + 20)
    lotSizeRaw := u64At buf (o + 28)
    contractValue := u64At buf (o + 36)
    expiry := readTSNs buf (o + 44)
    settleType := byteAt buf (o + 52)
    priceBound := byteAt buf (o + 53)
    manifestSeq := u16At buf (o + 54) }

def parseInstrumentDefinition (buf : List Byte) (schemaVersion : Byte) :
    Except WireError InstrumentDefinitionBody :=
  if schemaVersion = mbpSchemaVersionV1 then do
    exactly 76 buf
    return definitionAt buf 0 4 20
  else if schemaVersion = mbpSchemaVersionV3 then do
    exactly 126 buf
    return definitionAt buf (u16At buf 4) 6 70
  else .error .schemaVersion

structure TradeBody where
  instrumentID : UInt32
  sourceID : UInt16
  aggressorSide : Byte
  tradeFlags : Byte
  sourceTimestamp : Time
  tradePriceRaw : Int64
  tradeQtyRaw : UInt64
  tradeID : UInt64
  cumulativeVolumeRaw : UInt64

def parseTrade (buf : List Byte) : Except WireError TradeBody := do
  exactly 48 buf
  return {
    instrumentID := u32At buf 0
    sourceID := u16At buf 4
    aggressorSide := byteAt buf 6
    tradeFlags := byteAt buf 7
    sourceTimestamp := readTSNs buf 8
    tradePriceRaw := i64At buf 16
    tradeQtyRaw := u64At buf 24
    tradeID := u64At buf 32
    cumulativeVolumeRaw := u64At buf 40 }

structure BatchBoundaryBody where
  batchID : UInt32
  batchTime : Time

def parseBatchBoundary (buf : List Byte) : Except WireError BatchBoundaryBody := do
  exactly 12 buf
  return ⟨u32At buf 0, readTSNs buf 4⟩

structure InstrumentResetBody where
  instrumentID : UInt32
  reason : Byte
  newAnchorSeq : UInt64
  timestamp : Time

def parseInstrumentReset (buf : List Byte) : Except WireError InstrumentResetBody := do
  exactly 24 buf
  return ⟨u32At buf 0, byteAt buf 4, u64At buf 8, readTSNs buf 16⟩

structure SnapshotEndBody where
  instrumentID : UInt32
  anchorSeq : UInt64
  snapshotID : UInt32

def parseSnapshotEnd (buf : List Byte) : Except WireError SnapshotEndBody := do
  exactly 16 buf
  return ⟨u32At buf 0, u64At buf 4, u32At buf 12⟩

structure LiquidationBody where
  instrumentID : UInt32
  sourceID : UInt16
  flags : Byte
  method : Byte
  tradeID : UInt64
  markPriceRaw : Int64
  liquidatedUser : List Byte

def parseLiquidation (buf : List Byte) : Except WireError LiquidationBody := do
  exactly 44 buf
  return {
    instrumentID := u32At buf 0
    sourceID := u16At buf 4
    flags := byteAt buf 6
    method := byteAt buf 7
    tradeID := u64At buf 8
    markPriceRaw := i64At buf 16
    liquidatedUser := slice buf 24 20 }

structure SnapshotBeginBody where
  instrumentID : UInt32
  anchorSeq : UInt64
  totalLevels : UInt32
  snapshotID : UInt32
  lastInstrumentSeq : UInt32
  timestamp : Time
  depthBound : UInt32

def parseSnapshotBegin (buf : List Byte) : Except WireError SnapshotBeginBody := do
  exactly 36 buf
  return {
    instrumentID := u32At buf 0
    anchorSeq := u64At buf 4
    totalLevels := u32At buf 12
    snapshotID := u32At buf 16
    lastInstrumentSeq := u32At buf 20
    timestamp := readTSNs buf 24
    depthBound := u32At buf 32 }

structure LevelUpdateBody where
  instrumentID : UInt32
  sourceID : UInt16
  side : Byte
  action : Byte
  perInstrumentSeq : UInt32
  priceRaw : Int64
  qtyRaw : UInt64
  timestamp : Time
  orderCount : UInt16
  levelIndex : UInt16
  updateReason : Byte
  levelFlags : Byte

def parseLevelUpdate (buf : List Byte) : Except WireError LevelUpdateBody := do
  exactly 44 buf
  return {
    instrumentID := u32At buf 0
    sourceID := u16At buf 4
    side := byteAt buf 6
    action := byteAt buf 7
    perInstrumentSeq := u32At buf 8
    priceRaw := i64At buf 12
    qtyRaw := u64At buf 20
    timestamp := readTSNs buf 28
    orderCount := u16At buf 36
    levelIndex := u16At buf 38
    updateReason := byteAt buf 40
    levelFlags := byteAt buf 41 }

structure BookClearBody where
  instrumentID : UInt32
  sourceID : UInt16
  clearSide : Byte
  scope : Byte
  perInstrumentSeq : UInt32
  fromPriceRaw : Int64
  timestamp : Time
  clearReason : Byte

def parseBookClear (buf : List Byte) : Except WireError BookClearBody := do
  exactly 32 buf
  let b : BookClearBody := {
    instrumentID := u32At buf 0
    sourceID := u16At buf 4
    clearSide := byteAt buf 6
    scope := byteAt buf 7
    perInstrumentSeq := u32At buf 8
    fromPriceRaw := i64At buf 12
    timestamp := readTSNs buf 20
    clearReason := byteAt buf 28 }
  if b.scope = 1 ∧ b.clearSide = 2 then .error .malformedBody else return b

structure SnapshotLevelBody where
  snapshotID : UInt32
  priceRaw : Int64
  qtyRaw : UInt64
  orderCount : UInt16
  side : Byte
  levelFlags : Byte

def parseSnapshotLevel (buf : List Byte) : Except WireError SnapshotLevelBody := do
  exactly 28 buf
  return {
    snapshotID := u32At buf 0
    priceRaw := i64At buf 4
    qtyRaw := u64At buf 12
    orderCount := u16At buf 20
    side := byteAt buf 22
    levelFlags := byteAt buf 23 }

end EdgeMulticast.Parser
