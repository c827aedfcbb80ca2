import EdgeMulticast.Parser.Wire

/-!
# One record for each message

`parseDatagram` walks the messages of a datagram, turns each into a `Record`, and counts what a
publisher did wrong.  A message of an unknown type and a body that the wire rules call malformed
are counted and skipped; a header that cannot be read, a length that cannot be trusted and bytes
behind the last message fail the datagram.

`framing` is the same walk with every body skipped: a datagram parses exactly where it is framed
and no body fails it (`parseDatagram_isOk_iff`).
-/

namespace EdgeMulticast.Parser

open EdgeMulticast.Lib

/-! ## Records -/

/-- The value of one field of a record. -/
inductive Value where
  | uint (n : ℕ)
  | int (z : ℤ)
  | flag (b : Bool)
  | string (s : String)
  | text (s : List Byte)
  | time (t : Time)
deriving DecidableEq, Repr

structure Record where
  type : String
  timestamp : Time
  sourceTSNS : UInt64 := 0
  sendTSNS : UInt64
  channelID : Byte
  port : String
  sequenceNumber : UInt64
  messageIndex : Byte := 0
  resetCount : Byte
  instrumentID : UInt32 := 0
  fields : List (String × Value) := []
deriving DecidableEq, Repr

/-- The record of the message at an index. -/
def Record.indexed (r : Record) (i : ℕ) : Record := { r with messageIndex := UInt8.ofNat i }

/-- What a publisher did wrong in one datagram, and what was skipped. -/
structure Defects where
  snapshotFlagMismatch : ℕ := 0
  malformedBookClear : ℕ := 0
  malformedOther : ℕ := 0
  unknownType : ℕ := 0
deriving DecidableEq, Repr

def u8 (b : Byte) : Value := .uint b.toNat
def u16 (x : UInt16) : Value := .uint x.toNat
def u32 (x : UInt32) : Value := .uint x.toNat
def u64 (x : UInt64) : Value := .uint x.toNat
def i8 (x : Int8) : Value := .int x.toInt
def i64 (x : Int64) : Value := .int x.toInt

/-- The nanoseconds of an instant.  No instant read off the wire is the zero one. -/
def tsNS (t : Time) : UInt64 := t.toUInt64

/-! ## Names of values -/

def sideString (s : Byte) : String :=
  if s = 0 then "bid" else if s = 1 then "ask" else "unknown"

def clearSideString (s : Byte) : String :=
  if s = 0 then "bid" else if s = 1 then "ask" else if s = 2 then "both" else "unknown"

def clearScopeString (s : Byte) : String :=
  if s = 0 then "entire_side" else if s = 1 then "from_price" else "unknown"

def actionString (a : Byte) : String :=
  if a = 0 then "unknown" else if a = 1 then "new" else if a = 2 then "change"
  else if a = 3 then "delete" else if a = 255 then "other" else "unknown"

def updateReasonString (r : Byte) : String :=
  if r = 0 then "unknown" else if r = 1 then "trade" else if r = 2 then "cancel"
  else if r = 3 then "new_order" else if r = 4 then "amend" else if r = 5 then "venue_action"
  else if r = 255 then "other" else "unknown"

def clearReasonString (r : Byte) : String :=
  if r = 0 then "unspecified" else if r = 1 then "halt" else if r = 2 then "session_end"
  else if r = 3 then "venue_reset" else if r = 4 then "settled" else if r = 255 then "other"
  else "unknown"

def resetReasonString (r : Byte) : String :=
  if r = 0 then "unspecified" else if r = 1 then "publisher_inconsistency"
  else if r = 2 then "venue_resync" else if r = 3 then "upstream_gap" else if r = 255 then "other"
  else "unknown"

def aggressorString (s : Byte) : String :=
  if s = 1 then "buy" else if s = 2 then "sell" else "unknown"

def liquidationMethodString (m : Byte) : String :=
  if m = 0 then "market" else if m = 1 then "backstop" else "unknown"

def liquidatedSideString (flags : Byte) : String := if flags &&& 0x01 ≠ 0 then "short" else "long"

def hexDigit (n : ℕ) : Char := "0123456789abcdef".toList.getD n '0'

def hexString (bs : List Byte) : String :=
  String.ofList (bs.flatMap fun b ↦ [hexDigit (b.toNat / 16), hexDigit (b.toNat % 16)])

/-! ## What each body says -/

def HeartbeatBody.fields (b : HeartbeatBody) : List (String × Value) :=
  [("channel_id_in_body", u8 b.channelID), ("timestamp", .time b.timestamp)]

def InstrumentDefinitionBody.fields (b : InstrumentDefinitionBody) : List (String × Value) := [
  ("symbol", .text b.symbol),
  ("source_id", u16 b.sourceID),
  ("leg1", .text b.leg1),
  ("leg2", .text b.leg2),
  ("asset_class", u8 b.assetClass),
  ("price_exponent", i8 b.priceExponent),
  ("qty_exponent", i8 b.qtyExponent),
  ("market_model", u8 b.marketModel),
  ("tick_size_raw", i64 b.tickSizeRaw),
  ("lot_size_raw", u64 b.lotSizeRaw),
  ("contract_value", u64 b.contractValue),
  ("expiry", .time b.expiry),
  ("settle_type", u8 b.settleType),
  ("price_bound", u8 b.priceBound),
  ("manifest_seq", u16 b.manifestSeq)]

def TradeBody.fields (b : TradeBody) : List (String × Value) := [
  ("source_id", u16 b.sourceID),
  ("aggressor_side", .string (aggressorString b.aggressorSide)),
  ("trade_flags", u8 b.tradeFlags),
  ("source_timestamp", .time b.sourceTimestamp),
  ("trade_price_raw", i64 b.tradePriceRaw),
  ("trade_qty_raw", u64 b.tradeQtyRaw),
  ("trade_id", u64 b.tradeID),
  ("cumulative_volume_raw", u64 b.cumulativeVolumeRaw)]

def EndOfSessionBody.fields (b : EndOfSessionBody) : List (String × Value) :=
  [("timestamp", .time b.timestamp)]

def ManifestSummaryBody.fields (b : ManifestSummaryBody) : List (String × Value) := [
  ("valid", u8 b.valid),
  ("manifest_seq", u16 b.manifestSeq),
  ("instrument_count", u32 b.instrumentCount),
  ("timestamp", .time b.timestamp)]

/-- A bound that is not present, and a fixing time of 0, have no field. -/
def StrikeIntervalBody.fields (b : StrikeIntervalBody) : List (String × Value) :=
  let has (bit : Byte) : Bool := b.boundFlags &&& bit != 0
  [("source_id", u16 b.sourceID),
    ("strike_exponent", i8 b.strikeExponent),
    ("bound_flags", u8 b.boundFlags),
    ("pending", .flag b.pending),
    ("lower_present", .flag (has boundLowerPresent)),
    ("lower_inclusive", .flag (has boundLowerInclusive)),
    ("upper_present", .flag (has boundUpperPresent)),
    ("upper_inclusive", .flag (has boundUpperInclusive))]
  ++ (if has boundLowerPresent then [("lower_bound_raw", i64 b.lowerBoundRaw)] else [])
  ++ (if has boundUpperPresent then [("upper_bound_raw", i64 b.upperBoundRaw)] else [])
  ++ (if b.fixingTime ≠ 0 then [("fixing_time", .time b.fixingTime)] else [])

def LiquidationBody.fields (b : LiquidationBody) : List (String × Value) := [
  ("source_id", u16 b.sourceID),
  ("liquidation_flags", u8 b.flags),
  ("liquidated_side", .string (liquidatedSideString b.flags)),
  ("adl", .flag (b.flags &&& 0x02 != 0)),
  ("method", .string (liquidationMethodString b.method)),
  ("trade_id", u64 b.tradeID),
  ("mark_price_raw", i64 b.markPriceRaw),
  ("liquidated_user", .string (hexString b.liquidatedUser))]

/-- A count that is not available has no field. -/
def available (name : String) (x : UInt16) : List (String × Value) :=
  if x ≠ u16Unavailable then [(name, u16 x)] else []

def LevelUpdateBody.fields (b : LevelUpdateBody) : List (String × Value) :=
  [("source_id", u16 b.sourceID),
    ("side", .string (sideString b.side)),
    ("action", .string (actionString b.action)),
    ("per_instrument_seq", u32 b.perInstrumentSeq),
    ("price_raw", i64 b.priceRaw),
    ("qty_raw", u64 b.qtyRaw),
    ("timestamp", .time b.timestamp),
    ("update_reason", .string (updateReasonString b.updateReason)),
    ("level_flags", u8 b.levelFlags),
    ("implied", .flag (b.levelFlags &&& 0x01 != 0)),
    ("amm_synthetic", .flag (b.levelFlags &&& 0x02 != 0))]
  ++ available "order_count" b.orderCount ++ available "level_index" b.levelIndex

/-- From Price is only meaningful for a clear from a price outward. -/
def BookClearBody.fields (b : BookClearBody) : List (String × Value) :=
  [("source_id", u16 b.sourceID),
    ("clear_side", .string (clearSideString b.clearSide)),
    ("scope", .string (clearScopeString b.scope)),
    ("per_instrument_seq", u32 b.perInstrumentSeq),
    ("timestamp", .time b.timestamp),
    ("clear_reason", .string (clearReasonString b.clearReason))]
  ++ (if b.scope = 1 then [("from_price_raw", i64 b.fromPriceRaw)] else [])

def BatchBoundaryBody.fields (b : BatchBoundaryBody) : List (String × Value) :=
  [("batch_id", u32 b.batchID), ("batch_ts", .time b.batchTime)]

def InstrumentResetBody.fields (b : InstrumentResetBody) : List (String × Value) := [
  ("reason", .string (resetReasonString b.reason)),
  ("new_anchor_seq", u64 b.newAnchorSeq),
  ("timestamp", .time b.timestamp)]

def SnapshotBeginBody.fields (b : SnapshotBeginBody) : List (String × Value) := [
  ("anchor_seq", u64 b.anchorSeq),
  ("total_levels", u32 b.totalLevels),
  ("snapshot_id", u32 b.snapshotID),
  ("last_instrument_seq", u32 b.lastInstrumentSeq),
  ("timestamp", .time b.timestamp),
  ("depth_bound", u32 b.depthBound)]

def SnapshotLevelBody.fields (b : SnapshotLevelBody) : List (String × Value) :=
  [("snapshot_id", u32 b.snapshotID),
    ("price_raw", i64 b.priceRaw),
    ("qty_raw", u64 b.qtyRaw),
    ("side", .string (sideString b.side)),
    ("level_flags", u8 b.levelFlags),
    ("implied", .flag (b.levelFlags &&& 0x01 != 0)),
    ("amm_synthetic", .flag (b.levelFlags &&& 0x02 != 0))]
  ++ available "order_count" b.orderCount

def SnapshotEndBody.fields (b : SnapshotEndBody) : List (String × Value) :=
  [("anchor_seq", u64 b.anchorSeq), ("snapshot_id", u32 b.snapshotID)]

/-! ## One message -/

/-- What every record of a datagram says. -/
def base (port : String) (hdr : DatagramHeader) : Record where
  type := ""
  timestamp := hdr.sendTimestamp
  sendTSNS := tsNS hdr.sendTimestamp
  channelID := hdr.channelID
  port := port
  sequenceNumber := hdr.sequence
  resetCount := hdr.resetCount

def decodeMessage (port : String) (hdr : DatagramHeader) (mh : MessageHeader) (body : List Byte) :
    Except WireError Record :=
  let base := base port hdr
  if mh.type = 0x01 then do
    let b ← parseHeartbeat body
    return { base with type := "heartbeat", fields := b.fields }
  else if mh.type = 0x02 then do
    let b ← parseInstrumentDefinition body hdr.schemaVersion
    return { base with
      type := "instrument_definition", instrumentID := b.instrumentID, fields := b.fields }
  else if mh.type = 0x04 then do
    let b ← parseTrade body
    return { base with
      type := "trade", instrumentID := b.instrumentID, sourceTSNS := tsNS b.sourceTimestamp
      fields := b.fields }
  else if mh.type = 0x06 then do
    let b ← parseEndOfSession body
    return { base with type := "end_of_session", fields := b.fields }
  else if mh.type = 0x07 then do
    let b ← parseManifestSummary body
    return { base with type := "manifest_summary", fields := b.fields }
  else if mh.type = 0x09 then do
    let b ← parseStrikeInterval body
    return { base with
      type := "strike_interval", instrumentID := b.instrumentID, fields := b.fields }
  else if mh.type = 0x08 then do
    let b ← parseLiquidation body
    return { base with type := "liquidation", instrumentID := b.instrumentID, fields := b.fields }
  else if mh.type = 0x40 then do
    let b ← parseLevelUpdate body
    return { base with
      type := "level_update", instrumentID := b.instrumentID, sourceTSNS := tsNS b.timestamp
      fields := b.fields }
  else if mh.type = 0x41 then do
    let b ← parseBookClear body
    return { base with
      type := "book_clear", instrumentID := b.instrumentID, sourceTSNS := tsNS b.timestamp
      fields := b.fields }
  else if mh.type = 0x13 then do
    let b ← parseBatchBoundary body
    return { base with type := "batch_boundary", fields := b.fields }
  else if mh.type = 0x14 then do
    let b ← parseInstrumentReset body
    return { base with
      type := "instrument_reset", instrumentID := b.instrumentID, sourceTSNS := tsNS b.timestamp
      fields := b.fields }
  else if mh.type = 0x20 then do
    let b ← parseSnapshotBegin body
    return { base with
      type := "snapshot_begin", instrumentID := b.instrumentID, fields := b.fields }
  else if mh.type = 0x42 then do
    let b ← parseSnapshotLevel body
    return { base with type := "snapshot_level", fields := b.fields }
  else if mh.type = 0x22 then do
    let b ← parseSnapshotEnd body
    return { base with type := "snapshot_end", instrumentID := b.instrumentID, fields := b.fields }
  else .error .unknownType

/-! ## One datagram -/

/-- The checks made of the next message, and what is read of it. -/
def nextMessage (body : List Byte) : Except WireError MessageHeader := do
  let mh ← parseMessageHeader body
  if mh.length.toNat < messageHeaderSize then .error .messageLength
  else if body.length < mh.length.toNat then .error .messageLength
  else return mh

/-- The body of the message at the front. -/
def bodyOf (mh : MessageHeader) (body : List Byte) : List Byte :=
  (body.take mh.length.toNat).drop messageHeaderSize

/-- A message whose snapshot flag does not agree with the port. -/
def Defects.flagged (d : Defects) (port : String) (mh : MessageHeader) : Defects :=
  if (port == "snapshot") != (mh.flags &&& flagSnapshot != 0) then
    { d with snapshotFlagMismatch := d.snapshotFlagMismatch + 1 }
  else d

/-- A message that was skipped. -/
def Defects.malformed (d : Defects) (mh : MessageHeader) : Defects :=
  if mh.type = 0x41 then { d with malformedBookClear := d.malformedBookClear + 1 }
  else { d with malformedOther := d.malformedOther + 1 }

/-- The walk over the messages: how many are left, the index of the next, the bytes left, and what
has been found. -/
def walk (port : String) (hdr : DatagramHeader) :
    ℕ → ℕ → List Byte → List Record → Defects → Except WireError (List Record × Defects)
  | 0, _, body, records, defects =>
      if body.length ≠ 0 then .error .frameLength else .ok (records, defects)
  | n + 1, i, body, records, defects =>
      match nextMessage body with
      | .error e => .error e
      | .ok mh =>
          let defects := defects.flagged port mh
          let rest := body.drop mh.length.toNat
          match decodeMessage port hdr mh (bodyOf mh body) with
          | .error .unknownType =>
              walk port hdr n (i + 1) rest records
                { defects with unknownType := defects.unknownType + 1 }
          | .error .malformedBody => walk port hdr n (i + 1) rest records (defects.malformed mh)
          | .error e => .error e
          | .ok rec =>
              walk port hdr n (i + 1) rest (records ++ [rec.indexed i]) defects

def parseDatagram (port : String) (datagram : List Byte) :
    Except WireError (List Record × Defects) :=
  match parseDatagramHeader datagram with
  | .error e => .error e
  | .ok hdr =>
      walk port hdr hdr.messageCount.toNat 0 (datagram.drop datagramHeaderSize) [] {}

/-! ## The walk alone -/

/-- A message as the walk finds it: its header, and its body. -/
structure Boundary where
  type : Byte
  length : Byte
  flags : UInt16
  body : List Byte
deriving DecidableEq, Repr

def Boundary.header (b : Boundary) : MessageHeader := ⟨b.type, b.length, b.flags⟩

/-- The walk with every body skipped. -/
def framingFrom : ℕ → List Byte → Except WireError (List Boundary)
  | 0, body => if body.length ≠ 0 then .error .frameLength else .ok []
  | n + 1, body => do
      let mh ← nextMessage body
      let rest ← framingFrom n (body.drop mh.length.toNat)
      return ⟨mh.type, mh.length, mh.flags, bodyOf mh body⟩ :: rest

/-- The header parse and the walk of a datagram, with every body skipped. -/
def framing (datagram : List Byte) : Except WireError (List Boundary) := do
  let hdr ← parseDatagramHeader datagram
  framingFrom hdr.messageCount.toNat (datagram.drop datagramHeaderSize)

/-- A body that does not fail its datagram: it is decoded, or counted and skipped. -/
def Passes (port : String) (hdr : DatagramHeader) (b : Boundary) : Prop :=
  ∀ e, decodeMessage port hdr b.header b.body = .error e → e = .unknownType ∨ e = .malformedBody

/-- The record of a message at an index, where its body is decoded. -/
def recordAt (port : String) (hdr : DatagramHeader) (b : Boundary × ℕ) : Option Record :=
  (decodeMessage port hdr b.1.header b.1.body).toOption.map (·.indexed b.2)

/-- What a message adds to the defects of its datagram. -/
def Defects.noted (port : String) (hdr : DatagramHeader) (d : Defects) (b : Boundary) : Defects :=
  let d := d.flagged port b.header
  match decodeMessage port hdr b.header b.body with
  | .error .unknownType => { d with unknownType := d.unknownType + 1 }
  | .error .malformedBody => d.malformed b.header
  | _ => d

theorem walk_eq_ok_iff (port : String) (hdr : DatagramHeader) (n i : ℕ) (body : List Byte)
    (records : List Record) (defects : Defects) {r : List Record × Defects} :
    walk port hdr n i body records defects = .ok r ↔
      ∃ bs, framingFrom n body = .ok bs ∧ (∀ b ∈ bs, Passes port hdr b) ∧
        (records ++ (bs.zipIdx i).filterMap (recordAt port hdr),
          bs.foldl (Defects.noted port hdr) defects) = r := by
  induction n generalizing i body records defects with
  | zero =>
      rw [walk, framingFrom]
      split
      · simp
      · simp
  | succ n ih =>
      rw [walk, framingFrom]
      rcases nextMessage body with e | mh
      · refine iff_of_false (by simp) ?_
        rintro ⟨bs, hbs, -⟩
        cases hbs
      have hframing (P : List Boundary → Prop) (b : Boundary) :
          (∃ bs, (do
            let rest ← framingFrom n (body.drop mh.length.toNat)
            return b :: rest : Except WireError (List Boundary)) = .ok bs ∧ P bs) ↔
          ∃ rest, framingFrom n (body.drop mh.length.toNat) = .ok rest ∧ P (b :: rest) := by
        rcases framingFrom n (body.drop mh.length.toNat) with e | rest
        · simp [bind, Except.bind]
        · simp [bind, Except.bind, pure, Except.pure]
      refine Iff.trans ?_ (hframing _ _).symm
      obtain ⟨b, hb⟩ : ∃ b : Boundary, b = ⟨mh.type, mh.length, mh.flags, bodyOf mh body⟩ := ⟨_, rfl⟩
      have hheader : b.header = mh := by rw [hb, Boundary.header]
      have hbody : b.body = bodyOf mh body := by rw [hb]
      dsimp only
      rw [← hb, ← hbody, ← hheader]
      -- a message that passes, whatever becomes of it
      have hstep {records' : List Record} {defects' : Defects} (hpass : Passes port hdr b)
          (hrecords : records' = records ++ (recordAt port hdr (b, i)).toList)
          (hdefects : defects' = defects.noted port hdr b) :
          walk port hdr n (i + 1) (body.drop b.header.length.toNat) records' defects' = .ok r ↔
            ∃ rest, framingFrom n (body.drop b.header.length.toNat) = .ok rest ∧
              (∀ b' ∈ b :: rest, Passes port hdr b') ∧
                (records ++ ((b :: rest).zipIdx i).filterMap (recordAt port hdr),
                  (b :: rest).foldl (Defects.noted port hdr) defects) = r := by
        rw [ih]
        refine exists_congr fun rest ↦ and_congr_right fun _ ↦ ?_
        rw [List.forall_mem_cons, and_iff_right hpass, List.zipIdx_cons, List.foldl_cons, hrecords,
          hdefects, List.append_assoc, List.filterMap_cons]
        cases recordAt port hdr (b, i) <;> rfl
      split
      next herr =>
        exact hstep (fun e he ↦ .inl (Except.error.inj (he.symm.trans herr)))
          (by simp [recordAt, herr, Except.toOption])
          (by simp [Defects.noted, herr])
      next herr =>
        exact hstep (fun e he ↦ .inr (Except.error.inj (he.symm.trans herr)))
          (by simp [recordAt, herr, Except.toOption])
          (by simp [Defects.noted, herr])
      next e hunknown hmalformed herr =>
        refine iff_of_false (by simp) ?_
        rintro ⟨rest, -, h, -⟩
        rcases h b List.mem_cons_self e herr with rfl | rfl
        · exact hunknown rfl
        · exact hmalformed rfl
      next rec hok =>
        exact hstep (fun e he ↦ by cases hok.symm.trans he)
          (by simp [recordAt, hok, Except.toOption])
          (by simp [Defects.noted, hok])

/-- **A datagram parses exactly where it is framed and no body fails it**, and then to the records of
the bodies that are decoded, each at its place, with what is counted of every message. -/
theorem parseDatagram_isOk_iff (port : String) (datagram : List Byte) (r : List Record × Defects) :
    parseDatagram port datagram = .ok r ↔
      ∃ hdr bs, parseDatagramHeader datagram = .ok hdr ∧ framing datagram = .ok bs ∧
        (∀ b ∈ bs, Passes port hdr b) ∧
        (bs.zipIdx.filterMap (recordAt port hdr), bs.foldl (Defects.noted port hdr) {}) = r := by
  rw [parseDatagram, framing]
  rcases hhdr : parseDatagramHeader datagram with e | hdr
  · simp
  · dsimp only
    rw [walk_eq_ok_iff]
    constructor
    · rintro ⟨bs, hbs, h⟩
      exact ⟨hdr, bs, rfl, hbs, h⟩
    · rintro ⟨_, bs, ⟨⟩, hbs, h⟩
      exact ⟨bs, hbs, h⟩

end EdgeMulticast.Parser
