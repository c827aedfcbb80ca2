import EdgeMulticast.Codec.RoundTrip
import EdgeMulticast.Parser.Framing

/-!
# What the publisher encodes, the parser decodes

The parser's layouts leave the message header out and the codec's count it in, so the same field
has offsets that differ by four.  On every buffer of the right size, what a decoder of the codec
finds is what the parse function of the same type finds behind the header (`parse…_of_decode`):
the bodies below are the messages of the codec, field by field.

Together with the round trip of the codec this says what the parser makes of a datagram that the
builder has finished (`parse_finished`).
-/

namespace EdgeMulticast.Parser

open EdgeMulticast.Lib
open EdgeMulticast.Codec (Message MarketByPrice checkHeader)

/-! ## The bodies of the codec's messages -/

/-- A word of nanoseconds, as the instant that is read of it. -/
def timeOf (ns : UInt64) : Time := ns.toInt64

/-- What the decoders that begin with a check return when they do. -/
theorem ok_of_check {ε α : Type} {check : Except ε Unit} {next : Except ε α} {a : α}
    (h : (do check; next) = .ok a) : next = .ok a := by
  cases check with
  | error e => cases h
  | ok => exact h

theorem ok_of_map {ε α β : Type} {g : α → β} {x : Except ε α} {b : β} (h : g <$> x = .ok b) :
    ∃ a, x = .ok a ∧ g a = b := by
  cases x with
  | error e => cases h
  | ok a => exact ⟨a, rfl, Except.ok.inj h⟩

def heartbeatBody (m : Codec.Heartbeat) : HeartbeatBody where
  channelID := m.channelId
  timestamp := timeOf m.timestampNs

theorem parseHeartbeat_of_decode {f : List Byte} {m : Codec.Heartbeat} (hlen : f.length = 16)
    (h : Codec.Heartbeat.decode f = .ok m) : parseHeartbeat (f.drop 4) = .ok (heartbeatBody m) := by
  obtain rfl := Except.ok.inj (ok_of_check h)
  rw [parseHeartbeat, exactly, List.length_drop, hlen, if_neg (not_not.mpr rfl)]
  simp only [readTSNs, byteAt_drop, i64At_drop]
  rfl

def endOfSessionBody (m : Codec.EndOfSession) : EndOfSessionBody where
  timestamp := timeOf m.timestampNs

theorem parseEndOfSession_of_decode {f : List Byte} {m : Codec.EndOfSession} (hlen : f.length = 12)
    (h : Codec.EndOfSession.decode f = .ok m) :
    parseEndOfSession (f.drop 4) = .ok (endOfSessionBody m) := by
  obtain rfl := Except.ok.inj (ok_of_check h)
  rw [parseEndOfSession, exactly, List.length_drop, hlen, if_neg (not_not.mpr rfl)]
  simp only [readTSNs, i64At_drop]
  rfl

def manifestSummaryBody (m : Codec.ManifestSummary) : ManifestSummaryBody where
  channelID := m.channelId
  valid := m.valid
  manifestSeq := m.manifestSeq
  instrumentCount := m.instrumentCount
  timestamp := timeOf m.timestampNs

theorem parseManifestSummary_of_decode {f : List Byte} {m : Codec.ManifestSummary} (hlen : f.length = 24)
    (h : Codec.ManifestSummary.decode f = .ok m) : parseManifestSummary (f.drop 4) = .ok (manifestSummaryBody m) := by
  obtain rfl := Except.ok.inj (ok_of_check h)
  rw [parseManifestSummary, exactly, List.length_drop, hlen, if_neg (not_not.mpr rfl)]
  simp only [readTSNs, byteAt_drop, u16At_drop, u32At_drop, i64At_drop]
  rfl

def strikeIntervalBody (m : Codec.StrikeInterval) : StrikeIntervalBody where
  instrumentID := m.instrumentId
  sourceID := m.sourceId
  strikeExponent := m.strikeExponent
  boundFlags := m.boundFlags
  lowerBoundRaw := m.lowerBound
  upperBoundRaw := m.upperBound
  fixingTime := timeOf m.fixingTimeNs

theorem parseStrikeInterval_of_decode {f : List Byte} {m : Codec.StrikeInterval} (hlen : f.length = 40)
    (h : Codec.StrikeInterval.decode f = .ok m) : parseStrikeInterval (f.drop 4) = .ok (strikeIntervalBody m) := by
  obtain rfl := Except.ok.inj (ok_of_check h)
  rw [parseStrikeInterval, exactly, List.length_drop, hlen, if_neg (not_not.mpr rfl)]
  simp only [readTSNs, byteAt_drop, u16At_drop, u32At_drop, i64At_drop]
  rfl

def tradeBody (m : Codec.Trade) : TradeBody where
  instrumentID := m.instrumentId
  sourceID := m.sourceId
  aggressorSide := m.aggressorSide
  tradeFlags := m.tradeFlags
  sourceTimestamp := timeOf m.sourceTimestampNs
  tradePriceRaw := m.tradePrice
  tradeQtyRaw := m.tradeQty
  tradeID := m.tradeId
  cumulativeVolumeRaw := m.cumulativeVolume

theorem parseTrade_of_decode {f : List Byte} {m : Codec.Trade} (hlen : f.length = 52)
    (h : Codec.Trade.decode f = .ok m) : parseTrade (f.drop 4) = .ok (tradeBody m) := by
  obtain rfl := Except.ok.inj (ok_of_check h)
  rw [parseTrade, exactly, List.length_drop, hlen, if_neg (not_not.mpr rfl)]
  simp only [readTSNs, byteAt_drop, u16At_drop, u32At_drop, u64At_drop, i64At_drop]
  rfl

def levelUpdateBody (m : Codec.LevelUpdate) : LevelUpdateBody where
  instrumentID := m.instrumentId
  sourceID := m.sourceId
  side := m.side
  action := m.action
  perInstrumentSeq := m.perInstrumentSeq
  priceRaw := m.priceRaw
  qtyRaw := m.qtyRaw
  timestamp := timeOf m.timestampNs
  orderCount := m.orderCount
  levelIndex := m.levelIndex
  updateReason := m.updateReason
  levelFlags := m.levelFlags

theorem parseLevelUpdate_of_decode {f : List Byte} {m : Codec.LevelUpdate} (hlen : f.length = 48)
    (h : Codec.LevelUpdate.decode f = .ok m) : parseLevelUpdate (f.drop 4) = .ok (levelUpdateBody m) := by
  obtain rfl := Except.ok.inj (ok_of_check h)
  rw [parseLevelUpdate, exactly, List.length_drop, hlen, if_neg (not_not.mpr rfl)]
  simp only [readTSNs, byteAt_drop, u16At_drop, u32At_drop, u64At_drop, i64At_drop]
  rfl

def instrumentResetBody (m : Codec.InstrumentReset) : InstrumentResetBody where
  instrumentID := m.instrumentId
  reason := m.reason
  newAnchorSeq := m.newAnchorSeq
  timestamp := timeOf m.timestampNs

theorem parseInstrumentReset_of_decode {f : List Byte} {m : Codec.InstrumentReset} (hlen : f.length = 28)
    (h : Codec.InstrumentReset.decode f = .ok m) : parseInstrumentReset (f.drop 4) = .ok (instrumentResetBody m) := by
  obtain rfl := Except.ok.inj (ok_of_check h)
  rw [parseInstrumentReset, exactly, List.length_drop, hlen, if_neg (not_not.mpr rfl)]
  simp only [readTSNs, byteAt_drop, u32At_drop, u64At_drop, i64At_drop]
  rfl

def snapshotBeginBody (m : Codec.SnapshotBegin) : SnapshotBeginBody where
  instrumentID := m.instrumentId
  anchorSeq := m.anchorSeq
  totalLevels := m.totalLevels
  snapshotID := m.snapshotId
  lastInstrumentSeq := m.lastInstrumentSeq
  timestamp := timeOf m.timestampNs
  depthBound := m.depthBound

theorem parseSnapshotBegin_of_decode {f : List Byte} {m : Codec.SnapshotBegin} (hlen : f.length = 40)
    (h : Codec.SnapshotBegin.decode f = .ok m) : parseSnapshotBegin (f.drop 4) = .ok (snapshotBeginBody m) := by
  obtain rfl := Except.ok.inj (ok_of_check h)
  rw [parseSnapshotBegin, exactly, List.length_drop, hlen, if_neg (not_not.mpr rfl)]
  simp only [readTSNs, u32At_drop, u64At_drop, i64At_drop]
  rfl

def snapshotLevelBody (m : Codec.SnapshotLevel) : SnapshotLevelBody where
  snapshotID := m.snapshotId
  priceRaw := m.priceRaw
  qtyRaw := m.qtyRaw
  orderCount := m.orderCount
  side := m.side
  levelFlags := m.levelFlags

theorem parseSnapshotLevel_of_decode {f : List Byte} {m : Codec.SnapshotLevel} (hlen : f.length = 32)
    (h : Codec.SnapshotLevel.decode f = .ok m) : parseSnapshotLevel (f.drop 4) = .ok (snapshotLevelBody m) := by
  obtain rfl := Except.ok.inj (ok_of_check h)
  rw [parseSnapshotLevel, exactly, List.length_drop, hlen, if_neg (not_not.mpr rfl)]
  simp only [byteAt_drop, u16At_drop, u32At_drop, u64At_drop, i64At_drop]
  rfl

def snapshotEndBody (m : Codec.SnapshotEnd) : SnapshotEndBody where
  instrumentID := m.instrumentId
  anchorSeq := m.anchorSeq
  snapshotID := m.snapshotId

theorem parseSnapshotEnd_of_decode {f : List Byte} {m : Codec.SnapshotEnd} (hlen : f.length = 20)
    (h : Codec.SnapshotEnd.decode f = .ok m) : parseSnapshotEnd (f.drop 4) = .ok (snapshotEndBody m) := by
  obtain rfl := Except.ok.inj (ok_of_check h)
  rw [parseSnapshotEnd, exactly, List.length_drop, hlen, if_neg (not_not.mpr rfl)]
  simp only [u32At_drop, u64At_drop]
  rfl

def bookClearBody (m : Codec.BookClear) : BookClearBody where
  instrumentID := m.instrumentId
  sourceID := m.sourceId
  clearSide := m.clearSide
  scope := m.scope
  perInstrumentSeq := m.perInstrumentSeq
  fromPriceRaw := m.fromPriceRaw
  timestamp := timeOf m.timestampNs
  clearReason := m.clearReason

/-- Both refuse the same contradiction. -/
theorem parseBookClear_of_decode {f : List Byte} {m : Codec.BookClear} (hlen : f.length = 36)
    (h : Codec.BookClear.decode f = .ok m) : parseBookClear (f.drop 4) = .ok (bookClearBody m) := by
  have hclear := ok_of_check h
  dsimp only at hclear
  split at hclear
  next => cases hclear
  next hnot =>
    obtain rfl := Except.ok.inj hclear
    rw [parseBookClear, exactly, List.length_drop, hlen, if_neg (not_not.mpr rfl)]
    simp only [readTSNs, byteAt_drop, u16At_drop, u32At_drop, i64At_drop]
    exact if_neg hnot

/-- The texts of a definition end at their first NUL. -/
def instrumentDefinitionBody (m : Codec.InstrumentDefinition) : InstrumentDefinitionBody where
  instrumentID := m.instrumentId
  sourceID := m.sourceId
  symbol := fixedString m.symbol.toList
  leg1 := fixedString m.leg1.toList
  leg2 := fixedString m.leg2.toList
  assetClass := m.assetClass
  priceExponent := m.priceExponent
  qtyExponent := m.qtyExponent
  marketModel := m.marketModel
  tickSizeRaw := m.tickSize
  lotSizeRaw := m.lotSize
  contractValue := m.contractValue
  expiry := timeOf m.expiryNs
  settleType := m.settleType
  priceBound := m.priceBound
  manifestSeq := m.manifestSeq

theorem parseInstrumentDefinition_of_decode {f : List Byte} {m : Codec.InstrumentDefinition}
    (hlen : f.length = 130) (h : Codec.InstrumentDefinition.decode f Codec.SCHEMA_VERSION = .ok m) :
    parseInstrumentDefinition (f.drop 4) mbpSchemaVersionV3 = .ok (instrumentDefinitionBody m) := by
  rw [Codec.InstrumentDefinition.decode, if_pos rfl] at h
  obtain rfl := Except.ok.inj (ok_of_check h)
  rw [parseInstrumentDefinition, if_neg (by decide), if_pos rfl, exactly, List.length_drop, hlen,
    if_neg (not_not.mpr rfl), definitionAt, instrumentDefinitionBody]
  simp only [readTSNs, slice_drop, byteAt_drop, u16At_drop, u32At_drop, u64At_drop, i64At_drop,
    toList_bytesAt (show 10 + 64 ≤ f.length by omega), toList_bytesAt (show 74 + 8 ≤ f.length by omega),
    toList_bytesAt (show 82 + 8 ≤ f.length by omega)]
  rfl

/-! ## Records -/

/-- The record of a message, on the ground of what every record of its datagram says. -/
def recordOf (base : Record) : Message → Record
  | .heartbeat m => { base with type := "heartbeat", fields := (heartbeatBody m).fields }
  | .instrumentDefinition m =>
      { base with
        type := "instrument_definition", instrumentID := m.instrumentId
        fields := (instrumentDefinitionBody m).fields }
  | .trade m =>
      { base with
        type := "trade", instrumentID := m.instrumentId, sourceTSNS := m.sourceTimestampNs
        fields := (tradeBody m).fields }
  | .endOfSession m => { base with type := "end_of_session", fields := (endOfSessionBody m).fields }
  | .manifestSummary m =>
      { base with type := "manifest_summary", fields := (manifestSummaryBody m).fields }
  | .strikeInterval m =>
      { base with
        type := "strike_interval", instrumentID := m.instrumentId
        fields := (strikeIntervalBody m).fields }
  | .levelUpdate m =>
      { base with
        type := "level_update", instrumentID := m.instrumentId, sourceTSNS := m.timestampNs
        fields := (levelUpdateBody m).fields }
  | .bookClear m =>
      { base with
        type := "book_clear", instrumentID := m.instrumentId, sourceTSNS := m.timestampNs
        fields := (bookClearBody m).fields }
  | .instrumentReset m =>
      { base with
        type := "instrument_reset", instrumentID := m.instrumentId, sourceTSNS := m.timestampNs
        fields := (instrumentResetBody m).fields }
  | .snapshotBegin m =>
      { base with
        type := "snapshot_begin", instrumentID := m.instrumentId
        fields := (snapshotBeginBody m).fields }
  | .snapshotLevel m =>
      { base with type := "snapshot_level", fields := (snapshotLevelBody m).fields }
  | .snapshotEnd m =>
      { base with
        type := "snapshot_end", instrumentID := m.instrumentId, fields := (snapshotEndBody m).fields }
  | .quote _ => base

/-- A message that the codec decodes at schema version 3, and that the feed carries, is the
record of what the codec found. -/
theorem decodeMessage_of_decodeAs {port : String} {hdr : DatagramHeader}
    (hschema : hdr.schemaVersion = mbpSchemaVersionV3) {m m' : Message} {f : List Byte}
    (hcarried : MarketByPrice.carries m.app.TYPE_ID) (hlen : f.length = m.app.SIZE)
    (h : m.decodeAs Codec.SCHEMA_VERSION f = .ok m') (length : Byte) (flags : UInt16) :
    decodeMessage port hdr ⟨m.app.TYPE_ID, length, flags⟩ (f.drop 4) =
      .ok (recordOf (base port hdr) m') := by
  cases m with
  | heartbeat m =>
      obtain ⟨d, hd, rfl⟩ := ok_of_map h
      change (parseHeartbeat (f.drop 4) >>= _) = _
      rw [parseHeartbeat_of_decode hlen hd]
      rfl
  | endOfSession m =>
      obtain ⟨d, hd, rfl⟩ := ok_of_map h
      change (parseEndOfSession (f.drop 4) >>= _) = _
      rw [parseEndOfSession_of_decode hlen hd]
      rfl
  | instrumentDefinition m =>
      obtain ⟨d, hd, rfl⟩ := ok_of_map h
      change (parseInstrumentDefinition (f.drop 4) hdr.schemaVersion >>= _) = _
      rw [hschema, parseInstrumentDefinition_of_decode hlen hd]
      rfl
  | manifestSummary m =>
      obtain ⟨d, hd, rfl⟩ := ok_of_map h
      change (parseManifestSummary (f.drop 4) >>= _) = _
      rw [parseManifestSummary_of_decode hlen hd]
      rfl
  | strikeInterval m =>
      obtain ⟨d, hd, rfl⟩ := ok_of_map h
      change (parseStrikeInterval (f.drop 4) >>= _) = _
      rw [parseStrikeInterval_of_decode hlen hd]
      rfl
  | quote m =>
      exact absurd hcarried (show ¬ MarketByPrice.carries 0x03 = true by decide)
  | trade m =>
      obtain ⟨d, hd, rfl⟩ := ok_of_map h
      change (parseTrade (f.drop 4) >>= _) = _
      rw [parseTrade_of_decode hlen hd]
      rfl
  | levelUpdate m =>
      obtain ⟨d, hd, rfl⟩ := ok_of_map h
      change (parseLevelUpdate (f.drop 4) >>= _) = _
      rw [parseLevelUpdate_of_decode hlen hd]
      rfl
  | bookClear m =>
      obtain ⟨d, hd, rfl⟩ := ok_of_map h
      change (parseBookClear (f.drop 4) >>= _) = _
      rw [parseBookClear_of_decode hlen hd]
      rfl
  | instrumentReset m =>
      obtain ⟨d, hd, rfl⟩ := ok_of_map h
      change (parseInstrumentReset (f.drop 4) >>= _) = _
      rw [parseInstrumentReset_of_decode hlen hd]
      rfl
  | snapshotBegin m =>
      obtain ⟨d, hd, rfl⟩ := ok_of_map h
      change (parseSnapshotBegin (f.drop 4) >>= _) = _
      rw [parseSnapshotBegin_of_decode hlen hd]
      rfl
  | snapshotLevel m =>
      obtain ⟨d, hd, rfl⟩ := ok_of_map h
      change (parseSnapshotLevel (f.drop 4) >>= _) = _
      rw [parseSnapshotLevel_of_decode hlen hd]
      rfl
  | snapshotEnd m =>
      obtain ⟨d, hd, rfl⟩ := ok_of_map h
      change (parseSnapshotEnd (f.drop 4) >>= _) = _
      rw [parseSnapshotEnd_of_decode hlen hd]
      rfl

/-! ## Datagrams -/

section

variable {port : String} {hdr : DatagramHeader} {flags : UInt16} {c : Byte}

/-- The next message of a datagram is the one that was framed first. -/
theorem nextMessage_frame (m : Codec.AppMessage) (rest : List Byte) :
    nextMessage (m.frame flags c ++ rest) = .ok ⟨m.TYPE_ID, UInt8.ofNat m.SIZE, flags⟩ := by
  have hlen : 4 ≤ (m.frame flags c).length := by
    rw [m.length_frame]
    exact m.header_le
  have htake : (m.frame flags c ++ rest).take (m.frame flags c).length = m.frame flags c :=
    List.take_left
  have hread := m.readsAs_wireHeader flags c
  refine nextMessage_eq_ok_iff.mpr ⟨(m.isFrame_frame flags c).fits, ?_⟩
  rw [← byteAt_take (by omega : 0 < (m.frame flags c).length),
    ← byteAt_take (by omega : 1 < (m.frame flags c).length),
    ← u16At_take (by omega : 2 + 2 ≤ (m.frame flags c).length), htake,
    byteAt_eq (hread ⟨0, [m.TYPE_ID]⟩ (by simp [Codec.AppMessage.wireHeader])),
    byteAt_eq (hread ⟨1, [UInt8.ofNat m.SIZE]⟩ (by simp [Codec.AppMessage.wireHeader])),
    u16At_eq (hread ⟨2, le16 flags⟩ (by simp [Codec.AppMessage.wireHeader]))]

/-- The walk over framed messages finds a record for each, and nothing wrong. -/
theorem walk_frames (hschema : hdr.schemaVersion = mbpSchemaVersionV3)
    (hflags : ((port == "snapshot") != (flags &&& flagSnapshot != 0)) = false) (ms : List Message)
    (hms : ∀ m ∈ ms, MarketByPrice.carries m.app.TYPE_ID ∧ m.app.validate = .ok ()) (i : ℕ)
    (records : List Record) :
    walk port hdr ms.length i (ms.map fun m ↦ m.app.frame flags c).flatten records {} =
      .ok (records ++ ms.mapIdx fun j m ↦
        (recordOf (base port hdr) (m.withChannelId c)).indexed (i + j), {}) := by
  induction ms generalizing i records with
  | nil => simp [walk]
  | cons m ms ih =>
      obtain ⟨hcarried, hvalid⟩ := hms m (by simp)
      have hsize : (UInt8.ofNat m.app.SIZE).toNat = m.app.SIZE := by
        rw [UInt8.toNat_ofNat']
        exact Nat.mod_eq_of_lt (Nat.lt_succ_of_le m.app.size_le)
      have hlen : (m.app.frame flags c).length = m.app.SIZE := m.app.length_frame flags c
      have hdecode := @decodeMessage_of_decodeAs port hdr hschema _ _ _ hcarried hlen
        (Message.decodeAs_frame hvalid flags c) (UInt8.ofNat m.app.SIZE) flags
      have hbody (rest : List Byte) : bodyOf ⟨m.app.TYPE_ID, UInt8.ofNat m.app.SIZE, flags⟩
          (m.app.frame flags c ++ rest) = (m.app.frame flags c).drop 4 := by
        rw [bodyOf, hsize, ← hlen, List.take_left]
      have hflagged : Defects.flagged {} port ⟨m.app.TYPE_ID, UInt8.ofNat m.app.SIZE, flags⟩ = {} := by
        rw [Defects.flagged, hflags]
        rfl
      rw [List.length_cons, List.map_cons, List.flatten_cons, walk, nextMessage_frame]
      simp only [hbody, hdecode, hflagged, hsize]
      rw [← hlen, List.drop_left, ih fun x hx ↦ hms x (by simp [hx]), List.append_assoc,
        List.mapIdx_cons]
      simp only [Nat.add_zero, Nat.add_assoc, Nat.add_comm 1, List.singleton_append]

end

/-- The parser reads the header that `finish` wrote. -/
theorem parseDatagramHeader_finish {b : Codec.DatagramBuilder MarketByPrice}
    {ms : List Codec.AppMessage} {ts : UInt64} {bytes : List Byte} (hpacks : b.Packs ms)
    (h : b.finish ts = some bytes) :
    parseDatagramHeader bytes = .ok {
      magic := mbpMagic
      schemaVersion := mbpSchemaVersionV3
      channelID := b.channelId
      sequence := b.sequenceNumber
      sendTimestamp := timeOf ts
      messageCount := b.msgCount
      resetCount := b.resetCount
      frameLength := UInt16.ofNat b.buf.length } := by
  obtain ⟨hlen, hreads, -⟩ := hpacks.finish_eq_some ts h
  have hbuf := hpacks.length_buf
  have hcount : b.msgCount ≠ 0 := by
    intro hzero
    rw [Codec.DatagramBuilder.finish, if_pos hzero] at h
    cases h
  simp only [Codec.DatagramBuilder.headerFields, ReadsAs, List.forall_mem_cons, length_le16,
    length_le64, List.length_singleton] at hreads
  obtain ⟨hmagic, hschema, hchannel, hseq, hts, hmsgs, hreset, hdlen, -⟩ := hreads
  refine parseDatagramHeader_eq_ok_iff.mpr
    ⟨by rw [hlen, hbuf]; exact Nat.le_add_right _ _, rfl, .inr rfl, ?_, hcount, ?_⟩
  · exact (hpacks.datagramLen_header ts).trans hlen.symm
  · rw [readTSNs, i64At, u16At_eq hmagic, byteAt_eq hschema, byteAt_eq hchannel, u64At_eq hseq,
      u64At_eq hts, byteAt_eq hmsgs, byteAt_eq hreset, u16At_eq hdlen]
    rfl

/-- What every record of a finished datagram says. -/
def headOf (sequence : Codec.ChannelSequence) (portRole : Codec.PortRole)
    (sendTimestampNs : UInt64) : Record where
  type := ""
  timestamp := timeOf sendTimestampNs
  sendTSNS := sendTimestampNs
  channelID := sequence.channelId
  port := portRole.asStr
  sequenceNumber := sequence.sequenceNumber
  resetCount := sequence.resetCount

/-- What the publisher encodes the parser decodes: a datagram finished from any accepted messages
parses on its own port, without a defect, to one record for each message, in order. -/
theorem parse_finished (sequence : Codec.ChannelSequence) (portRole : Codec.PortRole)
    (mtu : UInt16) (sendTimestampNs : UInt64) (attempts : List Codec.Attempt) (bytes : List Byte)
    (h : ((Codec.DatagramBuilder.new sequence portRole mtu :
      Codec.DatagramBuilder MarketByPrice).pack attempts).1.finish sendTimestampNs = some bytes) :
    parseDatagram portRole.asStr bytes =
      .ok (((Codec.DatagramBuilder.new sequence portRole mtu :
        Codec.DatagramBuilder MarketByPrice).pack attempts).2.mapIdx fun i m ↦
          (recordOf (headOf sequence portRole sendTimestampNs)
            (m.withChannelId sequence.channelId)).indexed i, {}) := by
  have hholds : Codec.DatagramBuilder.Holds sequence portRole mtu _ _ :=
    (Codec.DatagramBuilder.holds_new (F := MarketByPrice)).pack attempts
  rw [List.nil_append] at hholds
  generalize (Codec.DatagramBuilder.new sequence portRole mtu :
    Codec.DatagramBuilder MarketByPrice).pack attempts = packed at h hholds ⊢
  obtain ⟨b, ms⟩ := packed
  obtain ⟨-, -, hdrop⟩ := hholds.packs.finish_eq_some sendTimestampNs h
  have hport : ((portRole.asStr == "snapshot") != (b.flags &&& flagSnapshot != 0)) = false := by
    rw [Codec.DatagramBuilder.flags, hholds.portRole]
    cases portRole <;> decide
  have hcount := hholds.packs.count
  rw [List.length_map] at hcount
  rw [parseDatagram, parseDatagramHeader_finish hholds.packs h]
  dsimp only at hdrop hcount ⊢
  rw [hdrop, List.map_map, hcount, ← hholds.channelId]
  let hdr : DatagramHeader := {
    magic := mbpMagic
    schemaVersion := mbpSchemaVersionV3
    channelID := b.channelId
    sequence := b.sequenceNumber
    sendTimestamp := timeOf sendTimestampNs
    messageCount := b.msgCount
    resetCount := b.resetCount
    frameLength := UInt16.ofNat b.buf.length }
  have hschema : hdr.schemaVersion = mbpSchemaVersionV3 := rfl
  have hwalk := walk_frames (c := b.channelId) hschema hport ms hholds.sendable 0 []
  have hbase : headOf sequence portRole sendTimestampNs = {
      type := ""
      timestamp := timeOf sendTimestampNs
      sendTSNS := tsNS (timeOf sendTimestampNs)
      channelID := b.channelId
      port := portRole.asStr
      sequenceNumber := b.sequenceNumber
      resetCount := b.resetCount } := by
    rw [headOf, hholds.channelId, hholds.sequenceNumber, hholds.resetCount]
    rfl
  rw [hbase]
  refine hwalk.trans ?_
  simp only [Nat.zero_add, List.nil_append, base]
  rfl

/-- A heartbeat that is finished on Channel ID 7. -/
theorem parse_finished_heartbeat : ∃ bytes,
    ((Codec.DatagramBuilder.new ⟨7, 3, 1⟩ .mktdata 1232 :
      Codec.DatagramBuilder MarketByPrice).pack [.push (.heartbeat ⟨0, 5⟩)]).1.finish 9 = some bytes ∧
    parseDatagram "mktdata" bytes =
      .ok ([(recordOf (headOf ⟨7, 3, 1⟩ .mktdata 9) (.heartbeat ⟨7, 5⟩)).indexed 0], {}) :=
  ⟨_, rfl, parse_finished ⟨7, 3, 1⟩ .mktdata 1232 9 [.push (.heartbeat ⟨0, 5⟩)] _ rfl⟩

/-- Two level updates that differ in their side, neither of which the parser has a name for, are
sent in different datagrams and parse to the same record. -/
theorem sides_unnamed :
    let datagram (side : Byte) : Option (List Byte) :=
      ((Codec.DatagramBuilder.new ⟨0, 0, 0⟩ .mktdata 1232 :
        Codec.DatagramBuilder MarketByPrice).pack
          [.push (.levelUpdate ⟨1, 0, side, 2, 1, 100, 5, 0, 1, 0, 0, 0⟩)]).1.finish 0
    ∃ bytes bytes' records, datagram 2 = some bytes ∧ datagram 3 = some bytes' ∧ bytes ≠ bytes' ∧
      parseDatagram "mktdata" bytes = .ok (records, {}) ∧
      parseDatagram "mktdata" bytes' = .ok (records, {}) := by
  let bytes (side : Byte) : List Byte :=
    [0x42, 0x44, 3, 0] ++ List.replicate 16 0 ++ [1, 0, 72, 0] ++
      [0x40, 48, 0, 0, 1, 0, 0, 0, 0, 0, side, 2, 1, 0, 0, 0, 100, 0, 0, 0, 0, 0, 0, 0,
        5, 0, 0, 0, 0, 0, 0, 0, 0, 0, 0, 0, 0, 0, 0, 0, 1, 0, 0, 0, 0, 0, 0, 0]
  have hsame : parseDatagram "mktdata" (bytes 3) = parseDatagram "mktdata" (bytes 2) := by
    decide +kernel
  have hclean : Prod.snd <$> parseDatagram "mktdata" (bytes 2) = .ok {} := by decide +kernel
  obtain ⟨⟨records, _⟩, hparse, rfl⟩ := ok_of_map hclean
  exact ⟨bytes 2, bytes 3, records, by decide +kernel, by decide +kernel, by decide, hparse,
    hsame.trans hparse⟩

end EdgeMulticast.Parser
