import EdgeMulticast.Codec.Depth
import EdgeMulticast.Lowering.Table

/-!
# The lowering of the depth feed

`seq.rs`, `depth.rs`, `trade.rs` and `open_snapshot` of `snapshot.rs` (`dz-publisher-lowering`): an
adapter's events, lowered onto the messages of the market-by-price feed.  Level updates and clears
share one series of numbers for each instrument, and a number is taken only once the message is
known to be constructible.
-/

namespace EdgeMulticast.Lowering

open EdgeMulticast.Lib
open EdgeMulticast.Codec

/-! ## What an adapter states -/

inductive Side where
  | bid | ask
deriving DecidableEq, Repr

inductive Presence where
  | unknown | new | change
deriving DecidableEq, Repr

inductive ClearScope where
  | entireSide (side : Side)
  | bothSides
  | fromPrice (side : Side) (px : Scalar)
deriving DecidableEq

inductive Aggressor where
  | unknown | buy | sell
deriving DecidableEq, Repr

structure TradeFlags where
  block : Bool
  sweep : Bool
  cross : Bool
deriving DecidableEq, Repr

inductive Desync where
  | unspecified | venueResync | upstreamGap
deriving DecidableEq, Repr

/-- A source that the reserved ranges of the registry admit. -/
structure SourceId where
  value : UInt16
  admitted : 1 ≤ value ∧ value ≤ 1023 ∨ 32768 ≤ value
deriving DecidableEq

theorem SourceId.first_admitted : (1 : UInt16) ≤ 1 ∧ (1 : UInt16) ≤ 1023 ∨ (32768 : UInt16) ≤ 1 :=
  .inl (by decide)

/-- The first source of the first range. -/
def SourceId.first : SourceId := ⟨1, first_admitted⟩

/-! ## What the wire carries for it -/

def U16_UNAVAILABLE : UInt16 := 0xffff

def SCOPE_ENTIRE_SIDE : Byte := 0

def Side.byte : Side → Byte
  | .bid => 0
  | .ask => 1

/-- The whole derivation of the action: zero is a removal, and nothing else can be. -/
def actionByte (qtyRaw : ℤ) (presence : Presence) : Byte :=
  if qtyRaw = 0 then 3
  else match presence with
    | .unknown => 0
    | .new => 1
    | .change => 2

def Aggressor.byte : Aggressor → Byte
  | .unknown => 0
  | .buy => 1
  | .sell => 2

def TradeFlags.byte (flags : TradeFlags) : Byte :=
  (if flags.block then 0x01 else 0) ||| (if flags.sweep then 0x02 else 0) |||
    (if flags.cross then 0x04 else 0)

def Desync.resetReason : Desync → Byte
  | .unspecified => 0
  | .venueResync => 2
  | .upstreamGap => 3

/-! ## The series of an instrument -/

def saturatingSucc (n : UInt32) : UInt32 := if n = 0xffffffff then n else n + 1

/-- The last number stamped for each instrument, by handle. -/
structure PerInstrumentSeq where
  last : List UInt32 := []
deriving DecidableEq, Repr

namespace PerInstrumentSeq

/-- The last number stamped for an instrument, 0 for none. -/
def lastOf (s : PerInstrumentSeq) (h : InstrumentRef) : UInt32 := s.last[h.index.toNat]?.getD 0

/-- The next number for an instrument, its slot grown to reach it. -/
def stamp (s : PerInstrumentSeq) (h : InstrumentRef) : UInt32 × PerInstrumentSeq :=
  let index := h.index.toNat
  let last := s.last ++ List.replicate (index + 1 - s.last.length) 0
  let next := saturatingSucc (last[index]?.getD 0)
  (next, ⟨last.set index next⟩)

end PerInstrumentSeq

/-! ## The lowering -/

structure DepthLowering where
  sourceId : SourceId
  seq : PerInstrumentSeq := {}
  nextSnapshotId : UInt32 := 1

/-- A snapshot that is being written: its levels, and the first refusal. -/
structure SnapshotFramer where
  instrument : Instrument
  anchorSeq : UInt64
  snapshotId : UInt32
  lastInstrumentSeq : UInt32
  timestampNs : UInt64
  levels : List SnapshotLevel := []
  refused : Option LoweringError := none
deriving DecidableEq

/-- One instrument's book state, framed. -/
structure Snapshot where
  start : SnapshotBegin
  levels : List SnapshotLevel
  finish : SnapshotEnd
deriving DecidableEq

namespace SnapshotFramer

/-- Write one level, unless one was refused before. -/
def level (f : SnapshotFramer) (side : Side) (px qty : Scalar) (orderCount : Option UInt16) :
    SnapshotFramer :=
  if f.refused.isSome then f
  else match priceFor f.instrument px "snapshot_price" with
    | .error e => { f with refused := some e }
    | .ok priceRaw =>
        match qtyFor f.instrument qty "snapshot_qty" with
        | .error e => { f with refused := some e }
        | .ok qtyRaw =>
            { f with levels := f.levels ++ [{
                snapshotId := f.snapshotId
                priceRaw := Int64.ofInt priceRaw
                qtyRaw := UInt64.ofNat qtyRaw.toNat
                orderCount := orderCount.getD U16_UNAVAILABLE
                side := side.byte
                levelFlags := 0 }] }

/-- Close the snapshot at a depth, 0 for the whole book. -/
def finish (f : SnapshotFramer) (depthBound : UInt32) : Except LoweringError Snapshot :=
  match f.refused with
  | some e => .error e
  | none =>
      if 2 ^ 32 ≤ f.levels.length then .error (.scale "total_levels" .overflow)
      else .ok {
        start := {
          instrumentId := f.instrument.instrumentId
          anchorSeq := f.anchorSeq
          totalLevels := UInt32.ofNat f.levels.length
          snapshotId := f.snapshotId
          lastInstrumentSeq := f.lastInstrumentSeq
          timestampNs := f.timestampNs
          depthBound := depthBound }
        levels := f.levels
        finish := {
          instrumentId := f.instrument.instrumentId
          anchorSeq := f.anchorSeq
          snapshotId := f.snapshotId } }

end SnapshotFramer

namespace DepthLowering

variable (d : DepthLowering) (instruments : InstrumentTable) (instrument : InstrumentRef)

def lowerLevel (sourceTsNs : UInt64) (side : Side) (px qty : Scalar) (orderCount : Option UInt16)
    (presence : Presence) : Except LoweringError LevelUpdate × DepthLowering :=
  match instruments.get instrument with
  | .error e => (.error e, d)
  | .ok inst =>
      match priceFor inst px "price" with
      | .error e => (.error e, d)
      | .ok priceRaw =>
          match qtyFor inst qty "qty" with
          | .error e => (.error e, d)
          | .ok qtyRaw =>
              -- the number is taken after every conversion that can refuse
              let stamped := d.seq.stamp instrument
              (.ok {
                instrumentId := inst.instrumentId
                sourceId := d.sourceId.value
                side := side.byte
                action := actionByte qtyRaw presence
                perInstrumentSeq := stamped.1
                priceRaw := Int64.ofInt priceRaw
                qtyRaw := UInt64.ofNat qtyRaw.toNat
                timestampNs := sourceTsNs
                orderCount := orderCount.getD U16_UNAVAILABLE
                levelIndex := U16_UNAVAILABLE
                updateReason := 0
                levelFlags := 0 }, { d with seq := stamped.2 })

/-- The side and the scope of a clear, and the price that bounds it. -/
def clearFields (inst : Instrument) : ClearScope → Except LoweringError (Byte × Byte × ℤ)
  | .entireSide side => .ok (side.byte, SCOPE_ENTIRE_SIDE, 0)
  | .bothSides => .ok (CLEAR_BOTH, SCOPE_ENTIRE_SIDE, 0)
  | .fromPrice side px =>
      (priceFor inst px "from_price").map fun raw ↦ (side.byte, SCOPE_FROM_PRICE, raw)

def lowerClear (sourceTsNs : UInt64) (scope : ClearScope) :
    Except LoweringError BookClear × DepthLowering :=
  match instruments.get instrument with
  | .error e => (.error e, d)
  | .ok inst =>
      match clearFields inst scope with
      | .error e => (.error e, d)
      | .ok (clearSide, wireScope, fromPriceRaw) =>
          let stamped := d.seq.stamp instrument
          (.ok {
            instrumentId := inst.instrumentId
            sourceId := d.sourceId.value
            clearSide := clearSide
            scope := wireScope
            perInstrumentSeq := stamped.1
            fromPriceRaw := Int64.ofInt fromPriceRaw
            timestampNs := sourceTsNs
            clearReason := 0 }, { d with seq := stamped.2 })

/-- A trade, the same on every feed of the family.  It takes no number. -/
def lowerTrade (sourceTsNs : UInt64) (px qty : Scalar) (aggressor : Aggressor)
    (tradeId : Option UInt64) (cumulativeVolume : Option Scalar) (flags : TradeFlags) :
    Except LoweringError Trade := do
  let inst ← instruments.get instrument
  let cumulativeVolume ← match cumulativeVolume with
    | some volume => qtyFor inst volume "cumulative_volume"
    | none => .ok 0
  let tradePrice ← priceFor inst px "trade_price"
  let tradeQty ← qtyFor inst qty "trade_qty"
  return {
    instrumentId := inst.instrumentId
    sourceId := d.sourceId.value
    aggressorSide := aggressor.byte
    tradeFlags := flags.byte
    sourceTimestampNs := sourceTsNs
    tradePrice := Int64.ofInt tradePrice
    tradeQty := UInt64.ofNat tradeQty.toNat
    tradeId := tradeId.getD 0
    cumulativeVolume := UInt64.ofNat cumulativeVolume.toNat }

def lowerInstrumentReset (sourceTsNs : UInt64) (reason : Desync) (sequenceNumber : UInt64) :
    Except LoweringError InstrumentReset := do
  let inst ← instruments.get instrument
  return {
    instrumentId := inst.instrumentId
    reason := reason.resetReason
    newAnchorSeq := sequenceNumber
    timestampNs := sourceTsNs }

/-- Open a snapshot for one instrument, and mint its identifier. -/
def openSnapshot (anchorSeq timestampNs : UInt64) :
    Except LoweringError SnapshotFramer × DepthLowering :=
  match instruments.get instrument with
  | .error e => (.error e, d)
  | .ok inst =>
      (.ok {
        instrument := inst
        anchorSeq := anchorSeq
        snapshotId := d.nextSnapshotId
        lastInstrumentSeq := d.seq.lastOf instrument
        timestampNs := timestampNs }, { d with nextSnapshotId := d.nextSnapshotId + 1 })

end DepthLowering

/-! ## Numbers, one call at a time -/

theorem toNat_saturatingSucc {n : UInt32} (h : n.toNat + 1 < 2 ^ 32) :
    (saturatingSucc n).toNat = n.toNat + 1 := by
  have hne : n ≠ 0xffffffff := by
    rintro rfl
    exact absurd h (by decide)
  rw [saturatingSucc, if_neg hne, UInt32.toNat_add]
  exact Nat.mod_eq_of_lt h

namespace PerInstrumentSeq

variable (s : PerInstrumentSeq) (h h' : InstrumentRef)

theorem getD_grown (last : List UInt32) (k i : ℕ) :
    (last ++ List.replicate k 0)[i]?.getD 0 = last[i]?.getD 0 := by
  rcases Nat.lt_or_ge i last.length with hlt | hge
  · rw [List.getElem?_append_left hlt]
  · rw [List.getElem?_append_right hge, List.getElem?_eq_none hge, List.getElem?_replicate]
    split <;> rfl

theorem stamp_fst : (s.stamp h).1 = saturatingSucc (s.lastOf h) := by
  rw [stamp, lastOf]
  dsimp only
  rw [getD_grown]

theorem lastOf_stamp : (s.stamp h).2.lastOf h' = if h' = h then (s.stamp h).1 else s.lastOf h' := by
  rw [lastOf, stamp]
  dsimp only
  by_cases heq : h' = h
  · subst heq
    rw [if_pos rfl, List.getElem?_set_self]
    · rfl
    · rw [List.length_append, List.length_replicate]
      omega
  · have hindex : h.index.toNat ≠ h'.index.toNat := by
      intro hsame
      obtain ⟨i⟩ := h
      obtain ⟨j⟩ := h'
      exact heq (congrArg InstrumentRef.mk (UInt32.toNat_inj.mp hsame).symm)
    rw [if_neg heq, List.getElem?_set_ne hindex, getD_grown, lastOf]

end PerInstrumentSeq

end EdgeMulticast.Lowering
