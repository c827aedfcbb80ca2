import EdgeMulticast.Codec.Depth
import EdgeMulticast.Lib.FiniteMap
import Mathlib.Algebra.BigOperators.Group.Finset.Piecewise
import Mathlib.Algebra.GroupWithZero.Nat

/-!
# The join of a capture and its re-lowering

`join.rs`, `diff.rs` and `compare.rs`: both sides are grouped by join key, the copies at one key
are paired in the order they arrived, and a pair whose bodies differ is reported field by field.

Provenance is carried into the findings and never read, so it is a parameter here.
-/

namespace EdgeMulticast.Relower

open Std (ExtTreeMap TransCmp TransOrd LawfulEqOrd)
open EdgeMulticast.Lib
open EdgeMulticast.Codec

/-! ## Join keys -/

/-- The third component of a top-of-book key. -/
inductive TopOfBookTie where
  | updateFlags (flags : Byte)
  | tradeId (id : UInt64)
deriving DecidableEq, Repr

/-- What identifies one message independently of how it was framed. -/
inductive JoinKey where
  | depth (instrumentId perInstrumentSeq : UInt32)
  | topOfBook (instrumentId : UInt32) (sourceTimestampNs : UInt64) (tie : TopOfBookTie)
deriving DecidableEq, Repr

namespace JoinKey

def ofQuote (q : Quote) : JoinKey :=
  .topOfBook q.instrumentId q.sourceTimestampNs (.updateFlags q.updateFlags)

def ofTrade (t : Trade) : JoinKey :=
  .topOfBook t.instrumentId t.sourceTimestampNs (.tradeId t.tradeId)

def ofLevel (l : LevelUpdate) : JoinKey := .depth l.instrumentId l.perInstrumentSeq

def ofClear (c : BookClear) : JoinKey := .depth c.instrumentId c.perInstrumentSeq

/-- The fields of a key, in the order that compares two of them. -/
def code : JoinKey → List ℕ
  | .depth id seq => [0, id.toNat, seq.toNat]
  | .topOfBook id ts (.updateFlags flags) => [1, id.toNat, ts.toNat, 0, flags.toNat]
  | .topOfBook id ts (.tradeId trade) => [1, id.toNat, ts.toNat, 1, trade.toNat]

theorem code_inj {k k' : JoinKey} (h : k.code = k'.code) : k = k' := by
  rcases k with ⟨id, seq⟩ | ⟨id, ts, flags | trade⟩ <;>
    rcases k' with ⟨id', seq'⟩ | ⟨id', ts', flags' | trade'⟩ <;>
    simp_all [code, UInt32.toNat_inj, UInt64.toNat_inj, UInt8.toNat_inj]

instance : Ord JoinKey := ⟨compareOn code⟩

instance : TransOrd JoinKey := inferInstanceAs (TransCmp (compareOn code))

instance : LawfulEqOrd JoinKey where
  eq_of_compare h := code_inj (LawfulEqOrd.eq_of_compare h)

end JoinKey

/-! ## Messages -/

/-- One decoded message, either side of the comparison. -/
inductive MessageBody where
  | quote (q : Quote)
  | trade (t : Trade)
  | level (l : LevelUpdate)
  | clear (c : BookClear)
deriving DecidableEq, Repr

namespace MessageBody

def messageType : MessageBody → String
  | .quote _ => "Quote"
  | .trade _ => "Trade"
  | .level _ => "LevelUpdate"
  | .clear _ => "BookClear"

def joinKey : MessageBody → JoinKey
  | .quote q => .ofQuote q
  | .trade t => .ofTrade t
  | .level l => .ofLevel l
  | .clear c => .ofClear c

end MessageBody

/-- One message of either side, and where it came from. -/
structure Message (P : Type*) where
  body : MessageBody
  provenance : P
deriving Repr

/-! ## Differences -/

/-- One field that differs, with both values rendered. -/
structure FieldDiff where
  field : String
  onWire : String
  reLowered : String
deriving DecidableEq, Repr

/-- A difference, if there is one. -/
def cmp {α : Type*} [DecidableEq α] [ToString α] (field : String) (wire re : α) : List FieldDiff :=
  if wire ≠ re then [⟨field, toString wire, toString re⟩] else []

def renderByte (b : Byte) : String :=
  toString b ++ " (0x" ++
    String.ofList [Nat.digitChar (b.toNat / 16), Nat.digitChar (b.toNat % 16)] ++ ")"

/-- The same, for a byte whose meaning is a flags word or an enumerated value. -/
def cmpByte (field : String) (wire re : Byte) : List FieldDiff :=
  if wire ≠ re then [⟨field, renderByte wire, renderByte re⟩] else []

/-- Every compared field that differs, in wire-layout order. -/
def diff : MessageBody → MessageBody → List FieldDiff
  | .quote wire, .quote re =>
      cmp "instrument_id" wire.instrumentId re.instrumentId ++
      cmp "source_id" wire.sourceId re.sourceId ++
      cmpByte "update_flags" wire.updateFlags re.updateFlags ++
      cmp "source_timestamp_ns" wire.sourceTimestampNs re.sourceTimestampNs ++
      cmp "bid_price" wire.bidPrice re.bidPrice ++
      cmp "bid_qty" wire.bidQty re.bidQty ++
      cmp "ask_price" wire.askPrice re.askPrice ++
      cmp "ask_qty" wire.askQty re.askQty ++
      cmp "bid_source_count" wire.bidSourceCount re.bidSourceCount ++
      cmp "ask_source_count" wire.askSourceCount re.askSourceCount ++
      cmp "venue_update_id" wire.venueUpdateId re.venueUpdateId
  | .trade wire, .trade re =>
      cmp "instrument_id" wire.instrumentId re.instrumentId ++
      cmp "source_id" wire.sourceId re.sourceId ++
      cmpByte "aggressor_side" wire.aggressorSide re.aggressorSide ++
      cmpByte "trade_flags" wire.tradeFlags re.tradeFlags ++
      cmp "source_timestamp_ns" wire.sourceTimestampNs re.sourceTimestampNs ++
      cmp "trade_price" wire.tradePrice re.tradePrice ++
      cmp "trade_qty" wire.tradeQty re.tradeQty ++
      cmp "trade_id" wire.tradeId re.tradeId ++
      cmp "cumulative_volume" wire.cumulativeVolume re.cumulativeVolume
  | .level wire, .level re =>
      cmp "instrument_id" wire.instrumentId re.instrumentId ++
      cmp "source_id" wire.sourceId re.sourceId ++
      cmpByte "side" wire.side re.side ++
      cmpByte "action" wire.action re.action ++
      cmp "per_instrument_seq" wire.perInstrumentSeq re.perInstrumentSeq ++
      cmp "price_raw" wire.priceRaw re.priceRaw ++
      cmp "qty_raw" wire.qtyRaw re.qtyRaw ++
      cmp "timestamp_ns" wire.timestampNs re.timestampNs ++
      cmp "order_count" wire.orderCount re.orderCount ++
      cmp "level_index" wire.levelIndex re.levelIndex ++
      cmpByte "update_reason" wire.updateReason re.updateReason ++
      cmpByte "level_flags" wire.levelFlags re.levelFlags
  | .clear wire, .clear re =>
      cmp "instrument_id" wire.instrumentId re.instrumentId ++
      cmp "source_id" wire.sourceId re.sourceId ++
      cmpByte "clear_side" wire.clearSide re.clearSide ++
      cmpByte "scope" wire.scope re.scope ++
      cmp "per_instrument_seq" wire.perInstrumentSeq re.perInstrumentSeq ++
      cmp "from_price_raw" wire.fromPriceRaw re.fromPriceRaw ++
      cmp "timestamp_ns" wire.timestampNs re.timestampNs ++
      cmpByte "clear_reason" wire.clearReason re.clearReason
  -- two message types at one join key
  | wire, re => [⟨"message_type", wire.messageType, re.messageType⟩]

@[simp] theorem cmp_eq_nil {α : Type*} [DecidableEq α] [ToString α] {field : String} {wire re : α} :
    cmp field wire re = [] ↔ wire = re := by
  rw [cmp]
  split
  next h => exact iff_of_false (List.cons_ne_nil _ _) h
  next h => exact iff_of_true rfl (not_not.mp h)

@[simp] theorem cmpByte_eq_nil {field : String} {wire re : Byte} :
    cmpByte field wire re = [] ↔ wire = re := by
  rw [cmpByte]
  split
  next h => exact iff_of_false (List.cons_ne_nil _ _) h
  next h => exact iff_of_true rfl (not_not.mp h)

/-- The list of fields leaves none out: nothing differs exactly when the bodies are the same. -/
theorem diff_eq_nil {a b : MessageBody} : diff a b = [] ↔ a = b := by
  cases a with
  | quote q =>
      cases b with
      | quote q' => cases q; cases q'; simp [diff]
      | trade | level | clear => simp [diff]
  | trade t =>
      cases b with
      | trade t' => cases t; cases t'; simp [diff]
      | quote | level | clear => simp [diff]
  | level l =>
      cases b with
      | level l' => cases l; cases l'; simp [diff]
      | quote | trade | clear => simp [diff]
  | clear c =>
      cases b with
      | clear c' => cases c; cases c'; simp [diff]
      | quote | trade | level => simp [diff]

/-! ## What a comparison concludes -/

inductive Outcome where
  | reLoweredNotOnWire | onWireNotReLowered | fieldsDiffer | identicalDifferentTiming
deriving DecidableEq, Repr

/-- Whether an outcome is reported as a finding. -/
def Outcome.isFinding (outcome : Outcome) : Bool := outcome != .identicalDifferentTiming

/-- One thing wrong, at one join key. -/
inductive Finding (P Q : Type*) where
  | reLoweredNotOnWire (key : JoinKey) (messageType : String) (reLowered : Q)
  | onWireNotReLowered (key : JoinKey) (messageType : String) (wire : P)
  | fieldsDiffer (key : JoinKey) (messageType : String) (fields : List FieldDiff)
      (wire : P) (reLowered : Q)
deriving Repr

namespace Finding

variable {P Q : Type*}

def outcome : Finding P Q → Outcome
  | .reLoweredNotOnWire .. => .reLoweredNotOnWire
  | .onWireNotReLowered .. => .onWireNotReLowered
  | .fieldsDiffer .. => .fieldsDiffer

def key : Finding P Q → JoinKey
  | .reLoweredNotOnWire key .. | .onWireNotReLowered key .. | .fieldsDiffer key .. => key

def messageType : Finding P Q → String
  | .reLoweredNotOnWire _ messageType _ | .onWireNotReLowered _ messageType _
  | .fieldsDiffer _ messageType .. => messageType

def fields : Finding P Q → List FieldDiff
  | .fieldsDiffer _ _ fields .. => fields
  | _ => []

end Finding

/-- Something the comparison could not establish, or had to choose. -/
inductive Caveat where
  | referenceDataIncomplete (channelId : Byte) (manifestSeq : UInt16) (declared : UInt32)
      (reconstructed : ℕ)
  | scaleRestated (instrumentId : UInt32) (kept later : Int8 × Int8)
  | symbolRepublishedUnderANewId (kept later : UInt32)
  | idSharedByTwoSymbols (instrumentId : UInt32)
  | contractFactorNotOnTheWire (instrumentId : UInt32)
  | eraChangeInsideWindow (channelId : Byte)
  | windowMayNotStartAtEraBoundary (instrumentId firstSeq : UInt32)
  | instrumentAdmittedInsideWindow (instrumentId : UInt32) (atPayload : ℕ)
  | ambiguousJoinKey (key : JoinKey) (onWire reLowered : ℕ)
deriving DecidableEq, Repr

/-- An event the re-lowering could not turn into a message. -/
structure Refusal where
  payloadIndex : ℕ
  eventIndex : ℕ
  messageType : String
  instrumentId : Option UInt32
  reason : String
  field : Option String
deriving DecidableEq, Repr

/-- A payload the adapter could not parse. -/
structure ParseFailure where
  payloadIndex : ℕ
  reason : String
  detail : String
deriving DecidableEq, Repr

/-- An instrument an adapter offered that the archive has no definition for. -/
structure MissingDefinition where
  symbol : List Byte
  offers : ℕ
deriving DecidableEq, Repr

/-- What the wire side read and did not join. -/
structure Skipped where
  foreignMagic : ℕ := 0
  undecodable : ℕ := 0
  control : ℕ := 0
  referenceData : ℕ := 0
  snapshot : ℕ := 0
  reset : ℕ := 0
  unknownType : ℕ := 0
deriving DecidableEq, Repr

/-- What a comparison reads of a capture. -/
structure WireCapture (P : Type*) where
  messages : List (Message P)
  caveats : List Caveat := []
  skipped : Skipped := {}

/-- What a comparison reads of a re-lowered stream. -/
structure ReLowered (Q : Type*) where
  messages : List (Message Q)
  refusals : List Refusal := []
  parseFailures : List ParseFailure := []
  missingDefinitions : List MissingDefinition := []
  caveats : List Caveat := []

/-- How much of each of the four outcomes the join reached. -/
structure Summary where
  onWire : ℕ := 0
  reLowered : ℕ := 0
  keys : ℕ := 0
  identical : ℕ := 0
  fieldsDiffer : ℕ := 0
  reLoweredNotOnWire : ℕ := 0
  onWireNotReLowered : ℕ := 0
deriving DecidableEq, Repr

/-- How many of one outcome the join reached. -/
def Summary.of (s : Summary) : Outcome → ℕ
  | .reLoweredNotOnWire => s.reLoweredNotOnWire
  | .onWireNotReLowered => s.onWireNotReLowered
  | .fieldsDiffer => s.fieldsDiffer
  | .identicalDifferentTiming => s.identical

structure RelowerReport (P Q : Type*) where
  findings : List (Finding P Q) := []
  summary : Summary := {}
  caveats : List Caveat := []
  refusals : List Refusal := []
  parseFailures : List ParseFailure := []
  missingDefinitions : List MissingDefinition := []
  skipped : Skipped := {}

/-! ## The comparison -/

/-- Both copies of the messages at one key. -/
structure Sides (P Q : Type*) where
  onWire : List (Message P) := []
  reLowered : List (Message Q) := []

section

variable {P Q : Type*}

/-- The sides filed under a key, both empty where there are none. -/
def sidesAt (m : ExtTreeMap JoinKey (Sides P Q)) (key : JoinKey) : Sides P Q :=
  (m[key]?).getD {}

/-- File a message with the others of its key. -/
def fileAt (m : ExtTreeMap JoinKey (Sides P Q)) (key : JoinKey) (push : Sides P Q → Sides P Q) :
    ExtTreeMap JoinKey (Sides P Q) :=
  m.insert key (push (sidesAt m key))

def fileWire (m : ExtTreeMap JoinKey (Sides P Q)) (w : Message P) :
    ExtTreeMap JoinKey (Sides P Q) :=
  fileAt m w.body.joinKey fun sides ↦ { sides with onWire := sides.onWire ++ [w] }

def fileReLowered (m : ExtTreeMap JoinKey (Sides P Q)) (r : Message Q) :
    ExtTreeMap JoinKey (Sides P Q) :=
  fileAt m r.body.joinKey fun sides ↦ { sides with reLowered := sides.reLowered ++ [r] }

/-- Both sides, grouped by join key. -/
def byKey (wire : List (Message P)) (re : List (Message Q)) : ExtTreeMap JoinKey (Sides P Q) :=
  re.foldl fileReLowered (wire.foldl fileWire ∅)

/-- Compare a pair of copies. -/
def comparePair (key : JoinKey) (report : RelowerReport P Q) (pair : Message P × Message Q) :
    RelowerReport P Q :=
  let fields := diff pair.1.body pair.2.body
  if fields.isEmpty then
    { report with summary := { report.summary with identical := report.summary.identical + 1 } }
  else
    { report with
      summary := { report.summary with fieldsDiffer := report.summary.fieldsDiffer + 1 }
      findings := report.findings ++ [.fieldsDiffer key pair.1.body.messageType fields
        pair.1.provenance pair.2.provenance] }

def wireSurplus (key : JoinKey) (report : RelowerReport P Q) (w : Message P) :
    RelowerReport P Q :=
  { report with
    summary := { report.summary with
      onWireNotReLowered := report.summary.onWireNotReLowered + 1 }
    findings := report.findings ++ [.onWireNotReLowered key w.body.messageType w.provenance] }

def reLoweredSurplus (key : JoinKey) (report : RelowerReport P Q) (r : Message Q) :
    RelowerReport P Q :=
  { report with
    summary := { report.summary with
      reLoweredNotOnWire := report.summary.reLoweredNotOnWire + 1 }
    findings := report.findings ++ [.reLoweredNotOnWire key r.body.messageType r.provenance] }

/-- Match the copies of one key: the pairs in arrival order, then the surplus of either side. -/
def matchKey (report : RelowerReport P Q) (group : JoinKey × Sides P Q) : RelowerReport P Q :=
  let key := group.1
  let sides := group.2
  let report :=
    if 1 < sides.onWire.length ∨ 1 < sides.reLowered.length then
      { report with caveats := report.caveats ++
        [.ambiguousJoinKey key sides.onWire.length sides.reLowered.length] }
    else report
  let paired := min sides.onWire.length sides.reLowered.length
  let report := ((sides.onWire.zip sides.reLowered).take paired).foldl (comparePair key) report
  let report := (sides.onWire.drop paired).foldl (wireSurplus key) report
  (sides.reLowered.drop paired).foldl (reLoweredSurplus key) report

/-- The instrument and the Per-Instrument Seq of a depth message. -/
def depthSeq : MessageBody → Option (UInt32 × UInt32)
  | .level l => some (l.instrumentId, l.perInstrumentSeq)
  | .clear c => some (c.instrumentId, c.perInstrumentSeq)
  | .quote _ | .trade _ => none

/-- The instruments whose lowest Per-Instrument Seq on the wire is above one. -/
def eraCaveats (wire : List (Message P)) : List Caveat :=
  let firstSeq : ExtTreeMap UInt32 UInt32 :=
    (wire.filterMap fun w ↦ depthSeq w.body).foldl
      (fun m x ↦ m.insert x.1 (min ((m[x.1]?).getD x.2) x.2)) ∅
  (firstSeq.toList.filter fun x ↦ decide (1 < x.2)).map fun x ↦
    .windowMayNotStartAtEraBoundary x.1 x.2

/-- Join a capture against a re-lowered stream. -/
def RelowerReport.compare (wire : WireCapture P) (reLowered : ReLowered Q) : RelowerReport P Q :=
  let groups := byKey wire.messages reLowered.messages
  let report := groups.toList.foldl matchKey
    { caveats := wire.caveats ++ reLowered.caveats
      refusals := reLowered.refusals
      parseFailures := reLowered.parseFailures
      missingDefinitions := reLowered.missingDefinitions
      skipped := wire.skipped
      summary :=
        { onWire := wire.messages.length
          reLowered := reLowered.messages.length
          keys := groups.size } }
  { report with caveats := report.caveats ++ eraCaveats wire.messages }

/-! ## The copies at a key -/

variable {wire : List (Message P)} {re : List (Message Q)} {k : JoinKey}

/-- The messages of a key, in the order they arrived. -/
def copiesAt (k : JoinKey) (l : List (Message P)) : List (Message P) :=
  l.filter fun m ↦ decide (m.body.joinKey = k)

/-- The pairs of copies at a key: the first of either side, the second of either, and so on. -/
def pairsAt (k : JoinKey) (wire : List (Message P)) (re : List (Message Q)) :
    List (Message P × Message Q) := (copiesAt k wire).zip (copiesAt k re)

/-- The keys that either side names. -/
def joinKeys (wire : List (Message P)) (re : List (Message Q)) : Finset JoinKey :=
  (wire.map fun m ↦ m.body.joinKey).toFinset ∪ (re.map fun m ↦ m.body.joinKey).toFinset

/-- Whether the bodies of a pair differ. -/
def differ (pair : Message P × Message Q) : Bool := decide (pair.1.body ≠ pair.2.body)

theorem copiesAt_cons (k : JoinKey) (m : Message P) (l : List (Message P)) :
    copiesAt k (m :: l) = if m.body.joinKey = k then m :: copiesAt k l else copiesAt k l := by
  rw [copiesAt, List.filter_cons]
  simp only [decide_eq_true_eq]
  rfl

theorem getElem?_fileAt (m : ExtTreeMap JoinKey (Sides P Q)) (key : JoinKey)
    (push : Sides P Q → Sides P Q) (k : JoinKey) :
    (fileAt m key push)[k]? = if key = k then some (push (sidesAt m k)) else m[k]? := by
  rw [fileAt, getElem?_insert_eq]
  split
  next h => rw [h]
  next => rfl

theorem sidesAt_fileAt (m : ExtTreeMap JoinKey (Sides P Q)) (key : JoinKey)
    (push : Sides P Q → Sides P Q) (k : JoinKey) :
    sidesAt (fileAt m key push) k = if key = k then push (sidesAt m k) else sidesAt m k := by
  rw [sidesAt, getElem?_fileAt]
  split <;> rfl

theorem getElem?_foldl_fileWire (l : List (Message P)) (m : ExtTreeMap JoinKey (Sides P Q))
    (k : JoinKey) : (l.foldl fileWire m)[k]? =
      if copiesAt k l = [] then m[k]?
      else some { sidesAt m k with onWire := (sidesAt m k).onWire ++ copiesAt k l } := by
  induction l generalizing m with
  | nil => rfl
  | cons w l ih =>
      rw [List.foldl_cons, ih, fileWire, getElem?_fileAt, sidesAt_fileAt, copiesAt_cons]
      split_ifs <;> simp_all

theorem getElem?_foldl_fileReLowered (l : List (Message Q)) (m : ExtTreeMap JoinKey (Sides P Q))
    (k : JoinKey) : (l.foldl fileReLowered m)[k]? =
      if copiesAt k l = [] then m[k]?
      else some { sidesAt m k with reLowered := (sidesAt m k).reLowered ++ copiesAt k l } := by
  induction l generalizing m with
  | nil => rfl
  | cons r l ih =>
      rw [List.foldl_cons, ih, fileReLowered, getElem?_fileAt, sidesAt_fileAt, copiesAt_cons]
      split_ifs <;> simp_all

/-- A key that either side names is filed with its copies on both. -/
theorem getElem?_byKey (wire : List (Message P)) (re : List (Message Q)) (k : JoinKey) :
    (byKey wire re)[k]? = if copiesAt k wire = [] ∧ copiesAt k re = [] then none
      else some ⟨copiesAt k wire, copiesAt k re⟩ := by
  rw [byKey, getElem?_foldl_fileReLowered, sidesAt, getElem?_foldl_fileWire]
  by_cases hw : copiesAt k wire = [] <;> by_cases hr : copiesAt k re = [] <;>
    simp [hw, hr, sidesAt]

theorem copiesAt_eq_nil {l : List (Message P)} :
    copiesAt k l = [] ↔ k ∉ (l.map fun m ↦ m.body.joinKey).toFinset := by
  rw [copiesAt, List.filter_eq_nil_iff, List.mem_toFinset, List.mem_map]
  simp

theorem mem_keys_byKey : k ∈ (byKey wire re).keys ↔ k ∈ joinKeys wire re := by
  rw [ExtTreeMap.mem_keys, ExtTreeMap.mem_iff_isSome_getElem?, getElem?_byKey, joinKeys,
    Finset.mem_union]
  have hw := copiesAt_eq_nil (k := k) (l := wire)
  have hr := copiesAt_eq_nil (k := k) (l := re)
  split
  next h => exact iff_of_false Bool.noConfusion fun hor ↦ hor.elim (hw.mp h.1) (hr.mp h.2)
  next h =>
      refine iff_of_true rfl ?_
      by_contra hnot
      rw [not_or] at hnot
      exact h ⟨hw.mpr hnot.1, hr.mpr hnot.2⟩

theorem toList_byKey (wire : List (Message P)) (re : List (Message Q)) :
    (byKey wire re).toList =
      (byKey wire re).keys.map fun k ↦ (k, ⟨copiesAt k wire, copiesAt k re⟩) := by
  rw [← ExtTreeMap.map_fst_toList_eq_keys, List.map_map]
  refine (List.map_id _).symm.trans (List.map_congr_left fun x hx ↦ ?_)
  have hget := ExtTreeMap.mem_toList_iff_getElem?_eq_some.mp hx
  rw [getElem?_byKey] at hget
  split at hget
  next => exact absurd hget (by simp)
  next => exact Prod.ext rfl (Option.some.inj hget).symm

theorem nodup_keys_byKey : (byKey wire re).keys.Nodup := ExtTreeMap.nodup_keys

/-- The loop over the groups adds up a measure of the copies at each key. -/
theorem sum_toList_byKey (f : JoinKey → Sides P Q → ℕ) :
    ((byKey wire re).toList.map fun g ↦ f g.1 g.2).sum =
      ∑ k ∈ joinKeys wire re, f k ⟨copiesAt k wire, copiesAt k re⟩ := by
  have hkeys : joinKeys wire re = (byKey wire re).keys.toFinset := by
    ext k
    rw [List.mem_toFinset, mem_keys_byKey]
  rw [toList_byKey, List.map_map, hkeys, List.sum_toFinset _ nodup_keys_byKey]
  rfl

/-- The copies at the keys are all the messages. -/
theorem sum_copiesAt {s : Finset JoinKey} (l : List (Message P))
    (h : ∀ m ∈ l, m.body.joinKey ∈ s) : ∑ k ∈ s, (copiesAt k l).length = l.length := by
  induction l with
  | nil => simp [copiesAt]
  | cons m l ih =>
      have hone (k : JoinKey) : (copiesAt k (m :: l)).length =
          (copiesAt k l).length + if m.body.joinKey = k then 1 else 0 := by
        rw [copiesAt_cons]
        split <;> rfl
      rw [Finset.sum_congr rfl fun k _ ↦ hone k, Finset.sum_add_distrib,
        ih fun m' hm' ↦ h m' (List.mem_cons_of_mem m hm'), Finset.sum_ite_eq,
        if_pos (h m List.mem_cons_self), List.length_cons]

/-! ## What the loops add to the report -/

variable {report : RelowerReport P Q}

/-- The finding about a pair whose bodies differ. -/
def pairFinding (k : JoinKey) (pair : Message P × Message Q) : Finding P Q :=
  .fieldsDiffer k pair.1.body.messageType (diff pair.1.body pair.2.body) pair.1.provenance
    pair.2.provenance

/-- The findings at a key: the pairs that differ, then the surplus of either side. -/
def findingsAt (k : JoinKey) (sides : Sides P Q) : List (Finding P Q) :=
  ((sides.onWire.zip sides.reLowered).filter differ).map (pairFinding k) ++
    (sides.onWire.drop sides.reLowered.length).map
      (fun w ↦ .onWireNotReLowered k w.body.messageType w.provenance) ++
    (sides.reLowered.drop sides.onWire.length).map
      fun r ↦ .reLoweredNotOnWire k r.body.messageType r.provenance

theorem foldl_comparePair (k : JoinKey) (l : List (Message P × Message Q))
    (report : RelowerReport P Q) : l.foldl (comparePair k) report =
      { report with
        summary := { report.summary with
          identical := report.summary.identical + l.countP (!differ ·)
          fieldsDiffer := report.summary.fieldsDiffer + l.countP differ }
        findings := report.findings ++ (l.filter differ).map (pairFinding k) } := by
  induction l generalizing report with
  | nil => simp
  | cons pair l ih =>
      rw [List.foldl_cons, ih, comparePair]
      by_cases h : pair.1.body = pair.2.body
      · simp [differ, h, diff_eq_nil, Nat.add_assoc, Nat.add_comm 1]
      · simp [differ, h, diff_eq_nil, pairFinding, Nat.add_assoc, Nat.add_comm 1]

theorem foldl_wireSurplus (k : JoinKey) (l : List (Message P)) (report : RelowerReport P Q) :
    l.foldl (wireSurplus k) report =
      { report with
        summary := { report.summary with
          onWireNotReLowered := report.summary.onWireNotReLowered + l.length }
        findings := report.findings ++
          l.map fun w ↦ .onWireNotReLowered k w.body.messageType w.provenance } := by
  induction l generalizing report with
  | nil => simp
  | cons w l ih =>
      rw [List.foldl_cons, ih, wireSurplus]
      simp [Nat.add_assoc, Nat.add_comm 1]

theorem foldl_reLoweredSurplus (k : JoinKey) (l : List (Message Q))
    (report : RelowerReport P Q) : l.foldl (reLoweredSurplus k) report =
      { report with
        summary := { report.summary with
          reLoweredNotOnWire := report.summary.reLoweredNotOnWire + l.length }
        findings := report.findings ++
          l.map fun r ↦ .reLoweredNotOnWire k r.body.messageType r.provenance } := by
  induction l generalizing report with
  | nil => simp
  | cons r l ih =>
      rw [List.foldl_cons, ih, reLoweredSurplus]
      simp [Nat.add_assoc, Nat.add_comm 1]

/-- What the copies of one key add to the summary. -/
def Summary.at (s : Summary) (sides : Sides P Q) : Summary :=
  { s with
    identical := s.identical + (sides.onWire.zip sides.reLowered).countP (!differ ·)
    fieldsDiffer := s.fieldsDiffer + (sides.onWire.zip sides.reLowered).countP differ
    onWireNotReLowered := s.onWireNotReLowered + (sides.onWire.length - sides.reLowered.length)
    reLoweredNotOnWire := s.reLoweredNotOnWire + (sides.reLowered.length - sides.onWire.length) }

theorem drop_min_left {α : Type*} (l : List α) (n : ℕ) : l.drop (min l.length n) = l.drop n := by
  rcases Nat.le_total l.length n with h | h
  · rw [min_eq_left h, List.drop_length, List.drop_eq_nil_of_le h]
  · rw [min_eq_right h]

/-- What matching the copies of one key adds to the report, besides a caveat. -/
theorem matchKey_eq (report : RelowerReport P Q) (g : JoinKey × Sides P Q) :
    (matchKey report g).summary = report.summary.at g.2 ∧
      (matchKey report g).findings = report.findings ++ findingsAt g.1 g.2 := by
  have htake : (g.2.onWire.zip g.2.reLowered).take
      (min g.2.onWire.length g.2.reLowered.length) = g.2.onWire.zip g.2.reLowered :=
    List.take_of_length_le List.length_zip.le
  have hwire : g.2.onWire.drop (min g.2.onWire.length g.2.reLowered.length) =
      g.2.onWire.drop g.2.reLowered.length := drop_min_left _ _
  have hre : g.2.reLowered.drop (min g.2.onWire.length g.2.reLowered.length) =
      g.2.reLowered.drop g.2.onWire.length := by rw [min_comm, drop_min_left]
  simp only [matchKey, htake, hwire, hre, foldl_comparePair, foldl_wireSurplus,
    foldl_reLoweredSurplus, List.length_drop]
  split <;> simp [Summary.at, findingsAt]

theorem findings_foldl_matchKey (l : List (JoinKey × Sides P Q)) (report : RelowerReport P Q) :
    (l.foldl matchKey report).findings =
      report.findings ++ l.flatMap fun g ↦ findingsAt g.1 g.2 := by
  induction l generalizing report with
  | nil => simp
  | cons g l ih =>
      rw [List.foldl_cons, ih, (matchKey_eq report g).2, List.flatMap_cons, List.append_assoc]

theorem summary_foldl_matchKey (l : List (JoinKey × Sides P Q)) (report : RelowerReport P Q) :
    (l.foldl matchKey report).summary =
      { report.summary with
        identical := report.summary.identical +
          (l.map fun g ↦ (g.2.onWire.zip g.2.reLowered).countP (!differ ·)).sum
        fieldsDiffer := report.summary.fieldsDiffer +
          (l.map fun g ↦ (g.2.onWire.zip g.2.reLowered).countP differ).sum
        onWireNotReLowered := report.summary.onWireNotReLowered +
          (l.map fun g ↦ g.2.onWire.length - g.2.reLowered.length).sum
        reLoweredNotOnWire := report.summary.reLoweredNotOnWire +
          (l.map fun g ↦ g.2.reLowered.length - g.2.onWire.length).sum } := by
  induction l generalizing report with
  | nil => simp
  | cons g l ih =>
      rw [List.foldl_cons, ih, (matchKey_eq report g).1]
      simp [Summary.at, Nat.add_assoc]

theorem refusals_foldl_matchKey (l : List (JoinKey × Sides P Q)) (report : RelowerReport P Q) :
    (l.foldl matchKey report).refusals = report.refusals := by
  induction l generalizing report with
  | nil => rfl
  | cons g l ih =>
      rw [List.foldl_cons, ih]
      simp only [matchKey, foldl_comparePair, foldl_wireSurplus, foldl_reLoweredSurplus]
      split <;> rfl

/-! ## The report -/

variable (wire : WireCapture P) (re : ReLowered Q)

theorem summary_compare : (RelowerReport.compare wire re).summary =
    { onWire := wire.messages.length
      reLowered := re.messages.length
      keys := (byKey wire.messages re.messages).size
      identical := ∑ k ∈ joinKeys wire.messages re.messages,
        (pairsAt k wire.messages re.messages).countP (!differ ·)
      fieldsDiffer := ∑ k ∈ joinKeys wire.messages re.messages,
        (pairsAt k wire.messages re.messages).countP differ
      onWireNotReLowered := ∑ k ∈ joinKeys wire.messages re.messages,
        ((copiesAt k wire.messages).length - (copiesAt k re.messages).length)
      reLoweredNotOnWire := ∑ k ∈ joinKeys wire.messages re.messages,
        ((copiesAt k re.messages).length - (copiesAt k wire.messages).length) } := by
  simp only [RelowerReport.compare, summary_foldl_matchKey, Nat.zero_add]
  rw [sum_toList_byKey fun _ s ↦ (s.onWire.zip s.reLowered).countP (!differ ·),
    sum_toList_byKey fun _ s ↦ (s.onWire.zip s.reLowered).countP differ,
    sum_toList_byKey fun _ s ↦ s.onWire.length - s.reLowered.length,
    sum_toList_byKey fun _ s ↦ s.reLowered.length - s.onWire.length]
  rfl

/-- The refusals are those of the re-lowering. -/
theorem refusals_compare : (RelowerReport.compare wire re).refusals = re.refusals :=
  refusals_foldl_matchKey _ _

theorem findings_compare : (RelowerReport.compare wire re).findings =
    (byKey wire.messages re.messages).keys.flatMap fun k ↦
      findingsAt k ⟨copiesAt k wire.messages, copiesAt k re.messages⟩ := by
  simp only [RelowerReport.compare, findings_foldl_matchKey, List.nil_append, toList_byKey,
    List.flatMap_map]

theorem length_pairsAt (k : JoinKey) (w : List (Message P)) (r : List (Message Q)) :
    (pairsAt k w r).length = min (copiesAt k w).length (copiesAt k r).length := List.length_zip

/-- Every copy at a key is paired or surplus. -/
theorem countP_pairsAt (k : JoinKey) (w : List (Message P)) (r : List (Message Q)) :
    (pairsAt k w r).countP (!differ ·) + (pairsAt k w r).countP differ =
      min (copiesAt k w).length (copiesAt k r).length := by
  rw [← length_pairsAt, List.length_eq_countP_add_countP differ, Nat.add_comm]
  congr 2
  funext pair
  simp

theorem summary_onWire : (RelowerReport.compare wire re).summary.onWire =
    (RelowerReport.compare wire re).summary.identical +
      (RelowerReport.compare wire re).summary.fieldsDiffer +
      (RelowerReport.compare wire re).summary.onWireNotReLowered := by
  rw [summary_compare]
  dsimp only
  rw [← Finset.sum_add_distrib, ← Finset.sum_add_distrib,
    ← sum_copiesAt (s := joinKeys wire.messages re.messages) wire.messages fun m hm ↦
      Finset.mem_union_left _ (List.mem_toFinset.mpr (List.mem_map_of_mem hm))]
  refine Finset.sum_congr rfl fun k _ ↦ ?_
  rw [countP_pairsAt]
  omega

theorem summary_reLowered : (RelowerReport.compare wire re).summary.reLowered =
    (RelowerReport.compare wire re).summary.identical +
      (RelowerReport.compare wire re).summary.fieldsDiffer +
      (RelowerReport.compare wire re).summary.reLoweredNotOnWire := by
  rw [summary_compare]
  dsimp only
  rw [← Finset.sum_add_distrib, ← Finset.sum_add_distrib,
    ← sum_copiesAt (s := joinKeys wire.messages re.messages) re.messages fun m hm ↦
      Finset.mem_union_right _ (List.mem_toFinset.mpr (List.mem_map_of_mem hm))]
  refine Finset.sum_congr rfl fun k _ ↦ ?_
  rw [countP_pairsAt]
  omega

/-- How many findings of an outcome a key has. -/
theorem countP_findingsAt (k : JoinKey) (sides : Sides P Q) (o : Outcome) :
    (findingsAt k sides).countP (fun f ↦ decide (f.outcome = o)) =
      (match o with
        | .fieldsDiffer => (sides.onWire.zip sides.reLowered).countP differ
        | .onWireNotReLowered => sides.onWire.length - sides.reLowered.length
        | .reLoweredNotOnWire => sides.reLowered.length - sides.onWire.length
        | .identicalDifferentTiming => 0) := by
  rw [findingsAt, List.countP_append, List.countP_append, List.countP_map, List.countP_map,
    List.countP_map, List.countP_eq_length_filter]
  cases o <;>
    simp [Function.comp_def, Finding.outcome, pairFinding, List.countP_eq_length_filter]

theorem countP_findings (o : Outcome) (h : o.isFinding = true) :
    (RelowerReport.compare wire re).findings.countP (fun f ↦ decide (f.outcome = o)) =
      (RelowerReport.compare wire re).summary.of o := by
  have hkeys : joinKeys wire.messages re.messages =
      (byKey wire.messages re.messages).keys.toFinset := by
    ext k
    rw [List.mem_toFinset, mem_keys_byKey]
  rw [findings_compare, List.countP_flatMap, summary_compare, hkeys]
  simp only [List.sum_toFinset _ nodup_keys_byKey, Function.comp_def, countP_findingsAt]
  cases o with
  | identicalDifferentTiming => exact absurd h (by decide)
  | reLoweredNotOnWire | onWireNotReLowered | fieldsDiffer => rfl

theorem key_of_mem_findingsAt {sides : Sides P Q} {f : Finding P Q} (h : f ∈ findingsAt k sides) :
    f.key = k := by
  rw [findingsAt, List.mem_append, List.mem_append] at h
  rcases h with (h | h) | h <;> obtain ⟨_, _, rfl⟩ := List.mem_map.mp h <;> rfl

theorem filter_findingsAt (k k' : JoinKey) (sides : Sides P Q) :
    (findingsAt k' sides).filter (fun f ↦ decide (f.key = k)) =
      if k' = k then findingsAt k' sides else [] := by
  split
  next h =>
      exact List.filter_eq_self.mpr fun f hf ↦ decide_eq_true ((key_of_mem_findingsAt hf).trans h)
  next h =>
      refine List.filter_eq_nil_iff.mpr fun f hf hk ↦ h ?_
      exact (key_of_mem_findingsAt hf).symm.trans (of_decide_eq_true hk)

/-- Of the loop over distinct keys, only the round of one key counts for it. -/
theorem flatMap_ite_of_nodup {α : Type*} {g : JoinKey → List α} {keys : List JoinKey}
    (h : keys.Nodup) (hnot : k ∉ keys → g k = []) :
    keys.flatMap (fun k' ↦ if k' = k then g k' else []) = g k := by
  induction keys with
  | nil => exact (hnot List.not_mem_nil).symm
  | cons x keys ih =>
      obtain ⟨hx, hkeys⟩ := List.nodup_cons.mp h
      rw [List.flatMap_cons]
      by_cases hk : x = k
      · subst hk
        have hrest : keys.flatMap (fun k' ↦ if k' = x then g k' else []) = [] := by
          refine List.flatMap_eq_nil_iff.mpr fun k' hk' ↦ if_neg ?_
          rintro rfl
          exact hx hk'
        rw [if_pos rfl, hrest, List.append_nil]
      · rw [if_neg hk, List.nil_append]
        exact ih hkeys fun hnot' ↦ hnot (List.not_mem_cons_of_ne_of_not_mem (Ne.symm hk) hnot')

/-- The findings at a key are those of its copies, and of no other message. -/
theorem filter_findings (k : JoinKey) :
    (RelowerReport.compare wire re).findings.filter (fun f ↦ decide (f.key = k)) =
      findingsAt k ⟨copiesAt k wire.messages, copiesAt k re.messages⟩ := by
  rw [findings_compare, List.filter_flatMap]
  simp only [filter_findingsAt]
  refine flatMap_ite_of_nodup
    (g := fun k ↦ findingsAt k ⟨copiesAt k wire.messages, copiesAt k re.messages⟩)
    nodup_keys_byKey fun hnot ↦ ?_
  rw [mem_keys_byKey, joinKeys, Finset.mem_union, not_or, ← copiesAt_eq_nil, ← copiesAt_eq_nil]
    at hnot
  rw [hnot.1, hnot.2]
  rfl

/-! ## What the report depends on -/

/-- Two streams that carry the same bodies at every key, in the same order within the key. -/
def SameCopies (l l' : List (Message P)) : Prop :=
  ∀ k, (copiesAt k l).map Message.body = (copiesAt k l').map Message.body

/-- A finding without provenance. -/
def Finding.told (f : Finding P Q) : Outcome × JoinKey × String × List FieldDiff :=
  (f.outcome, f.key, f.messageType, f.fields)

/-- What the bodies at a key tell, without provenance. -/
def toldAt (k : JoinKey) (w r : List MessageBody) :
    List (Outcome × JoinKey × String × List FieldDiff) :=
  ((w.zip r).filter fun pair ↦ decide (pair.1 ≠ pair.2)).map
      (fun pair ↦ (.fieldsDiffer, k, pair.1.messageType, diff pair.1 pair.2)) ++
    (w.drop r.length).map (fun b ↦ (.onWireNotReLowered, k, b.messageType, [])) ++
    (r.drop w.length).map fun b ↦ (.reLoweredNotOnWire, k, b.messageType, [])

theorem map_told_findingsAt (k : JoinKey) (w : List (Message P)) (r : List (Message Q)) :
    (findingsAt k ⟨w, r⟩).map Finding.told =
      toldAt k (w.map Message.body) (r.map Message.body) := by
  rw [findingsAt, toldAt, List.zip_map, List.filter_map]
  simp only [List.map_append, List.map_map, List.map_drop, List.length_map]
  rfl

theorem countP_zip_body (p : MessageBody → MessageBody → Bool) (w : List (Message P))
    (r : List (Message Q)) : (w.zip r).countP (fun pair ↦ p pair.1.body pair.2.body) =
      ((w.map Message.body).zip (r.map Message.body)).countP fun pair ↦ p pair.1 pair.2 := by
  rw [List.zip_map, List.countP_map]
  rfl

theorem SameCopies.length {l l' : List (Message P)} (h : SameCopies l l') (k : JoinKey) :
    (copiesAt k l).length = (copiesAt k l').length := by
  simpa only [List.length_map] using congrArg List.length (h k)

theorem SameCopies.nil_iff {l l' : List (Message P)} (h : SameCopies l l') (k : JoinKey) :
    copiesAt k l = [] ↔ copiesAt k l' = [] := by
  rw [← List.length_eq_zero_iff, ← List.length_eq_zero_iff, h.length]

variable {wire re} {wire' : WireCapture P} {re' : ReLowered Q}

/-- The keys are visited in one order, whichever order the messages are in. -/
theorem keys_byKey_congr (hwire : SameCopies wire.messages wire'.messages)
    (hre : SameCopies re.messages re'.messages) :
    (byKey wire.messages re.messages).keys = (byKey wire'.messages re'.messages).keys := by
  have hmap : (byKey wire.messages re.messages).map (fun _ _ ↦ ()) =
      (byKey wire'.messages re'.messages).map fun _ _ ↦ () := by
    refine ExtTreeMap.ext_getElem? fun k ↦ ?_
    rw [ExtTreeMap.getElem?_map, ExtTreeMap.getElem?_map, getElem?_byKey, getElem?_byKey]
    simp only [hwire.nil_iff k, hre.nil_iff k]
    split <;> rfl
  rw [← ExtTreeMap.keys_map (f := fun _ _ ↦ ()), hmap, ExtTreeMap.keys_map]

theorem joinKeys_congr (hwire : SameCopies wire.messages wire'.messages)
    (hre : SameCopies re.messages re'.messages) :
    joinKeys wire.messages re.messages = joinKeys wire'.messages re'.messages := by
  ext k
  rw [← mem_keys_byKey, ← mem_keys_byKey, keys_byKey_congr hwire hre]

theorem told_congr (hwire : SameCopies wire.messages wire'.messages)
    (hre : SameCopies re.messages re'.messages) :
    (RelowerReport.compare wire re).findings.map Finding.told =
      (RelowerReport.compare wire' re').findings.map Finding.told := by
  rw [findings_compare, findings_compare, List.map_flatMap, List.map_flatMap,
    keys_byKey_congr hwire hre]
  simp only [map_told_findingsAt, hwire _, hre _]

theorem summary_congr (hwire : SameCopies wire.messages wire'.messages)
    (hre : SameCopies re.messages re'.messages) :
    (RelowerReport.compare wire re).summary = (RelowerReport.compare wire' re').summary := by
  have hkeys := joinKeys_congr hwire hre
  have hpairs (p : MessageBody → MessageBody → Bool) (k : JoinKey) :
      (pairsAt k wire.messages re.messages).countP (fun pair ↦ p pair.1.body pair.2.body) =
        (pairsAt k wire'.messages re'.messages).countP fun pair ↦
          p pair.1.body pair.2.body := by
    rw [pairsAt, pairsAt, countP_zip_body, countP_zip_body, hwire k, hre k]
  have hsize : (byKey wire.messages re.messages).size =
      (byKey wire'.messages re'.messages).size := by
    rw [← ExtTreeMap.length_keys, ← ExtTreeMap.length_keys, keys_byKey_congr hwire hre]
  have honWire : wire.messages.length = wire'.messages.length := by
    rw [← sum_copiesAt (s := joinKeys wire.messages re.messages) wire.messages fun m hm ↦
        Finset.mem_union_left _ (List.mem_toFinset.mpr (List.mem_map_of_mem hm)),
      ← sum_copiesAt (s := joinKeys wire'.messages re'.messages) wire'.messages fun m hm ↦
        Finset.mem_union_left _ (List.mem_toFinset.mpr (List.mem_map_of_mem hm)), hkeys]
    exact Finset.sum_congr rfl fun k _ ↦ hwire.length k
  have hreLowered : re.messages.length = re'.messages.length := by
    rw [← sum_copiesAt (s := joinKeys wire.messages re.messages) re.messages fun m hm ↦
        Finset.mem_union_right _ (List.mem_toFinset.mpr (List.mem_map_of_mem hm)),
      ← sum_copiesAt (s := joinKeys wire'.messages re'.messages) re'.messages fun m hm ↦
        Finset.mem_union_right _ (List.mem_toFinset.mpr (List.mem_map_of_mem hm)), hkeys]
    exact Finset.sum_congr rfl fun k _ ↦ hre.length k
  rw [summary_compare, summary_compare, honWire, hreLowered, hsize, hkeys]
  simp only [Summary.mk.injEq, true_and]
  refine ⟨Finset.sum_congr rfl fun k _ ↦ hpairs (fun a b ↦ !decide (a ≠ b)) k,
    Finset.sum_congr rfl fun k _ ↦ hpairs (fun a b ↦ decide (a ≠ b)) k, ?_, ?_⟩
  · exact Finset.sum_congr rfl fun k _ ↦ by rw [hwire.length, hre.length]
  · exact Finset.sum_congr rfl fun k _ ↦ by rw [hwire.length, hre.length]

theorem map_body_copiesAt (k : JoinKey) (l : List (Message P)) :
    (copiesAt k l).map Message.body = (l.map Message.body).filter fun b ↦ decide (b.joinKey = k) := by
  rw [List.filter_map]
  rfl

/-- Two streams with the same bodies at every key, in the same order within the key, have no
finding. -/
theorem findings_eq_nil (h : ∀ k, (copiesAt k wire.messages).map Message.body =
    (copiesAt k re.messages).map Message.body) : (RelowerReport.compare wire re).findings = [] := by
  have htold : (RelowerReport.compare wire re).findings.map Finding.told = [] := by
    rw [findings_compare, List.map_flatMap, List.flatMap_eq_nil_iff]
    intro k _
    rw [map_told_findingsAt, h k, toldAt, List.drop_length, List.map_nil, List.map_nil,
      List.append_nil, List.append_nil, List.map_eq_nil_iff, List.filter_eq_nil_iff]
    intro pair hpair
    obtain ⟨i, hi, rfl⟩ := List.mem_iff_getElem.mp hpair
    simp
  exact List.map_eq_nil_iff.mp htold

/-- Every message of two such streams is counted as identical. -/
theorem summary_of_same (h : ∀ k, (copiesAt k wire.messages).map Message.body =
    (copiesAt k re.messages).map Message.body) :
    let summary := (RelowerReport.compare wire re).summary
    (summary.identical = wire.messages.length ∧ summary.identical = re.messages.length) ∧
      summary.fieldsDiffer = 0 ∧ summary.reLoweredNotOnWire = 0 ∧ summary.onWireNotReLowered = 0 := by
  have hnone (o : Outcome) (ho : o.isFinding = true) :
      (RelowerReport.compare wire re).summary.of o = 0 := by
    rw [← countP_findings wire re o ho, findings_eq_nil h]
    rfl
  have hdiffer := hnone .fieldsDiffer rfl
  have hre := hnone .reLoweredNotOnWire rfl
  have hwire := hnone .onWireNotReLowered rfl
  dsimp only [Summary.of] at hdiffer hre hwire
  refine ⟨⟨?_, ?_⟩, hdiffer, hre, hwire⟩
  · have hsum := summary_onWire wire re
    rw [hdiffer, hwire, Nat.add_zero] at hsum
    rw [← hsum, summary_compare]
  · have hsum := summary_reLowered wire re
    rw [hdiffer, hre, Nat.add_zero] at hsum
    rw [← hsum, summary_compare]

/-- A stream compared with its own bodies has no finding. -/
theorem findings_self (h : wire.messages.map Message.body = re.messages.map Message.body) :
    (RelowerReport.compare wire re).findings = [] := by
  refine findings_eq_nil fun k ↦ ?_
  rw [map_body_copiesAt, map_body_copiesAt, h]

/-- The comparison accounts for every message on either side, pairs the copies of a key as far as
they go, and depends on nothing but the bodies and their order within a key. -/
theorem compare_accounts (wire wire' : WireCapture P) (re re' : ReLowered Q) :
    let report := RelowerReport.compare wire re
    (report.summary.onWire = wire.messages.length ∧
        report.summary.reLowered = re.messages.length ∧
        report.summary.onWire = report.summary.identical + report.summary.fieldsDiffer +
          report.summary.onWireNotReLowered ∧
        report.summary.reLowered = report.summary.identical + report.summary.fieldsDiffer +
          report.summary.reLoweredNotOnWire) ∧
      (∀ o : Outcome, o.isFinding = true →
        report.findings.countP (fun f ↦ decide (f.outcome = o)) = report.summary.of o) ∧
      ((∀ k, (pairsAt k wire.messages re.messages).length =
            min (copiesAt k wire.messages).length (copiesAt k re.messages).length ∧
          report.findings.filter (fun f ↦ decide (f.key = k)) =
            findingsAt k ⟨copiesAt k wire.messages, copiesAt k re.messages⟩) ∧
        report.summary.identical = ∑ k ∈ joinKeys wire.messages re.messages,
          (pairsAt k wire.messages re.messages).countP (!differ ·) ∧
        report.summary.fieldsDiffer = ∑ k ∈ joinKeys wire.messages re.messages,
          (pairsAt k wire.messages re.messages).countP differ) ∧
      (SameCopies wire.messages wire'.messages → SameCopies re.messages re'.messages →
        (RelowerReport.compare wire' re').summary = report.summary ∧
          (RelowerReport.compare wire' re').findings.map Finding.told =
            report.findings.map Finding.told) ∧
      (∀ a b : MessageBody, diff a b = [] ↔ a = b) ∧
      (wire.messages.map Message.body = re.messages.map Message.body → report.findings = []) := by
  have hsummary := summary_compare wire re
  refine ⟨⟨by rw [hsummary], by rw [hsummary], summary_onWire wire re, summary_reLowered wire re⟩,
    countP_findings wire re, ⟨fun k ↦ ⟨length_pairsAt k _ _, filter_findings wire re k⟩, ?_, ?_⟩,
    fun hwire hre ↦ ⟨(summary_congr hwire hre).symm, (told_congr hwire hre).symm⟩,
    fun _ _ ↦ diff_eq_nil, findings_self⟩
  · rw [hsummary]
  · rw [hsummary]

end

end EdgeMulticast.Relower
