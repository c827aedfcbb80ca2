import EdgeMulticast.Lowering.Depth
import EdgeMulticast.Lowering.Unscaled

/-!
# A framed snapshot

`snapshot.rs` (`dz-publisher-lowering`): an adapter writes the levels of its book one by one, and
cannot be refused.  What `finish` returns is the first refusal, or every level exactly as it was
stated (`finish_states`).

A level of quantity zero is among those that are framed, while the rule of the feed leaves such a
level out: `framed_iff`.
-/

namespace EdgeMulticast.Lowering

open EdgeMulticast.Lib
open EdgeMulticast.Codec

/-- How many levels a side of a snapshot holds. -/
inductive DepthBound
  | complete
  | levels (bound : UInt32) (bound_ne_zero : bound ≠ 0)
deriving DecidableEq

/-- What the wire carries for it. -/
def DepthBound.encoded : DepthBound → UInt32
  | complete => 0
  | levels bound _ => bound

/-! ## Prices and quantities -/

/-- What one unit of a quantity stands for. -/
def Instrument.factor (inst : Instrument) : ℚ :=
  inst.quotedPerContract.elim 1 fun c ↦ scaled c.mantissa.toInt c.exponent.toInt

variable {inst : Instrument} {s : Scalar} {field : String} {r : ℤ}

/-- A price is published exactly, or not at all. -/
theorem priceFor_exact (h : priceFor inst s field = .ok r) :
    s.Is (scaled r inst.priceExponent.toInt * inst.factor) := by
  rw [Instrument.factor]
  cases hc : inst.quotedPerContract with
  | none =>
      rw [Option.elim_none, mul_one]
      exact is_of_priceAt ((priceFor_plain hc).mp h)
  | some c =>
      obtain ⟨m, e, hparts, _, hvalue⟩ := priceFor_scaled hc h
      rw [Option.elim_some, ← hvalue]
      exact is_of_fixedParts hparts

/-- So is a quantity. -/
theorem qtyFor_exact (h : qtyFor inst s field = .ok r) :
    ∃ qty, s.Is qty ∧ scaled r inst.qtyExponent.toInt = qty * inst.factor := by
  rw [Instrument.factor]
  cases hc : inst.quotedPerContract with
  | none =>
      refine ⟨_, is_of_qtyAt ((qtyFor_plain hc).mp h), ?_⟩
      rw [Option.elim_none, mul_one]
  | some c =>
      obtain ⟨m, e, hparts, _, _, hvalue⟩ := qtyFor_scaled hc h
      exact ⟨_, is_of_fixedParts hparts, hvalue⟩

/-! ## One level -/

/-- A call of `SnapshotSink::level`. -/
structure LevelCall where
  side : Side
  px : Scalar
  qty : Scalar
  orderCount : Option UInt16
deriving DecidableEq

/-- The refusal of a level. -/
def LevelCall.refusal (c : LevelCall) (inst : Instrument) : Option LoweringError :=
  match priceFor inst c.px "snapshot_price" with
  | .error e => some e
  | .ok _ =>
      match qtyFor inst c.qty "snapshot_qty" with
      | .error e => some e
      | .ok _ => none

/-- A framed level states what the adapter wrote: the price is per unit of the underlying and the
quantity in such units. -/
structure States (inst : Instrument) (c : LevelCall) (l : SnapshotLevel) : Prop where
  price : c.px.Is (scaled l.priceRaw.toInt inst.priceExponent.toInt * inst.factor)
  qty : ∃ qty, c.qty.Is qty ∧ scaled l.qtyRaw.toNat inst.qtyExponent.toInt = qty * inst.factor
  side : l.side = c.side.byte
  orderCount : l.orderCount = c.orderCount.getD U16_UNAVAILABLE

namespace SnapshotFramer

variable {f : SnapshotFramer} {c : LevelCall} {calls : List LevelCall}

/-- The levels of a book, written in order. -/
def write (f : SnapshotFramer) (calls : List LevelCall) : SnapshotFramer :=
  calls.foldl (fun f c ↦ f.level c.side c.px c.qty c.orderCount) f

theorem write_cons (c : LevelCall) (calls : List LevelCall) :
    f.write (c :: calls) = (f.level c.side c.px c.qty c.orderCount).write calls := rfl

theorem write_of_refused {e : LoweringError} (h : f.refused = some e) :
    (f.write calls).refused = some e := by
  induction calls generalizing f with
  | nil => exact h
  | cons c calls ih =>
      refine ih ?_
      show (f.level c.side c.px c.qty c.orderCount).refused = some e
      rw [level, h]
      exact h

theorem level_of_refusal {e : LoweringError} (h : f.refused = none)
    (he : c.refusal f.instrument = some e) :
    (f.level c.side c.px c.qty c.orderCount).refused = some e := by
  rw [level, h]
  rw [LevelCall.refusal] at he
  cases hp : priceFor f.instrument c.px "snapshot_price" with
  | error e' =>
      rw [hp] at he
      exact he
  | ok price =>
      rw [hp] at he
      cases hq : qtyFor f.instrument c.qty "snapshot_qty" with
      | error e' =>
          rw [hq] at he
          exact he
      | ok qty =>
          rw [hq] at he
          cases he

/-- A level that is not refused is framed, and its quantity is zero only where zero is stated. -/
theorem level_of_not_refusal (h : f.refused = none) (hc : c.refusal f.instrument = none) :
    ∃ l, f.level c.side c.px c.qty c.orderCount = { f with levels := f.levels ++ [l] } ∧
      l.snapshotId = f.snapshotId ∧ States f.instrument c l ∧
      (l.qtyRaw = 0 ↔ c.qty.isZero = true) := by
  rw [LevelCall.refusal] at hc
  cases hp : priceFor f.instrument c.px "snapshot_price" with
  | error e =>
      rw [hp] at hc
      cases hc
  | ok price =>
      rw [hp] at hc
      cases hq : qtyFor f.instrument c.qty "snapshot_qty" with
      | error e =>
          rw [hq] at hc
          cases hc
      | ok qty =>
          obtain ⟨⟨hplow, hphigh⟩, -, -⟩ := priceFor_spec hp
          obtain ⟨⟨hqlow, hqhigh⟩, hzero, -⟩ := qtyFor_spec hq
          have hprice : (Int64.ofInt price).toInt = price :=
            Int64.toInt_ofInt_of_le hplow (Int.lt_of_le_sub_one hphigh)
          have hroom : qty.toNat < 2 ^ 64 := by
            rw [U64_MAX] at hqhigh
            omega
          have hqty : ((UInt64.ofNat qty.toNat).toNat : ℤ) = qty := by
            rw [UInt64.toNat_ofNat_of_lt' hroom]
            exact Int.toNat_of_nonneg hqlow
          let l : SnapshotLevel := {
            snapshotId := f.snapshotId
            priceRaw := Int64.ofInt price
            qtyRaw := UInt64.ofNat qty.toNat
            orderCount := c.orderCount.getD U16_UNAVAILABLE
            side := c.side.byte
            levelFlags := 0 }
          refine ⟨l, ?_, rfl, ⟨?_, ?_, rfl, rfl⟩, ?_⟩
          · rw [level, h, hp]
            dsimp only
            rw [hq]
            rfl
          · rw [hprice]
            exact priceFor_exact hp
          · rw [hqty]
            exact qtyFor_exact hq
          · rw [← hzero, ← hqty, Int.natCast_eq_zero, ← UInt64.toNat_inj]
            exact Iff.rfl

/-! ## A book -/

/-- The levels framed for those written, none of them refused. -/
theorem write_of_not_refusal (h : f.refused = none)
    (hc : ∀ c ∈ calls, c.refusal f.instrument = none) :
    ∃ levels, f.write calls = { f with levels := f.levels ++ levels } ∧
      (∀ l ∈ levels, l.snapshotId = f.snapshotId) ∧
      List.Forall₂ (States f.instrument) calls levels ∧
      ((∀ l ∈ levels, l.qtyRaw ≠ 0) ↔ ∀ c ∈ calls, c.qty.isZero = false) := by
  induction calls generalizing f with
  | nil =>
      refine ⟨[], ?_, fun l hl ↦ absurd hl List.not_mem_nil, .nil,
        iff_of_true (fun l hl ↦ absurd hl List.not_mem_nil) fun c hc ↦ absurd hc List.not_mem_nil⟩
      rw [List.append_nil]
      rfl
  | cons c calls ih =>
      obtain ⟨hfirst, hrest⟩ := List.forall_mem_cons.mp hc
      obtain ⟨l, hlevel, hid, hstates, hzero⟩ := level_of_not_refusal h hfirst
      obtain ⟨levels, hwrite, hids, hall, hzeros⟩ :=
        ih (f := { f with levels := f.levels ++ [l] }) h hrest
      refine ⟨l :: levels, ?_, List.forall_mem_cons.mpr ⟨hid, hids⟩, .cons hstates hall, ?_⟩
      · rw [write_cons, hlevel, hwrite]
        dsimp only
        rw [List.append_assoc, List.singleton_append]
      · rw [List.forall_mem_cons, List.forall_mem_cons, hzeros, ne_eq, hzero, Bool.not_eq_true]

/-- The refusal of the first level that is refused. -/
theorem write_of_findSome {e : LoweringError} (h : f.refused = none)
    (he : calls.findSome? (·.refusal f.instrument) = some e) :
    (f.write calls).refused = some e := by
  induction calls generalizing f with
  | nil => cases he
  | cons c calls ih =>
      rw [List.findSome?_cons] at he
      cases hc : c.refusal f.instrument with
      | some e' =>
          rw [hc] at he
          rw [write_cons]
          exact write_of_refused ((level_of_refusal h hc).trans he)
      | none =>
          rw [hc] at he
          obtain ⟨l, hlevel, -⟩ := level_of_not_refusal h hc
          rw [write_cons, hlevel]
          exact ih h he

/-- The first refusal of a snapshot: of a level, or of more levels than its begin can count. -/
def firstRefusal (inst : Instrument) (calls : List LevelCall) : Option LoweringError :=
  (calls.findSome? (·.refusal inst)).or
    (if 2 ^ 32 ≤ calls.length then some (.scale "total_levels" .overflow) else none)

/-- A snapshot that a subscriber can apply to hold the book that was written. -/
structure Applies (f : SnapshotFramer) (calls : List LevelCall) (bound : DepthBound)
    (group : Snapshot) : Prop where
  total : group.start.totalLevels.toNat = group.levels.length
  start : group.start.snapshotId = f.snapshotId
  ids : ∀ l ∈ group.levels, l.snapshotId = group.start.snapshotId
  finish : group.finish.snapshotId = group.start.snapshotId
  depth : group.start.depthBound = bound.encoded
  states : List.Forall₂ (States f.instrument) calls group.levels
  nonzero : ∀ l ∈ group.levels, l.qtyRaw ≠ 0

/-- What `finish` has to return for the book that was written. -/
def Framed (f : SnapshotFramer) (calls : List LevelCall) (bound : DepthBound) :
    Except LoweringError Snapshot → Prop
  | .error e => firstRefusal f.instrument calls = some e
  | .ok group => firstRefusal f.instrument calls = none ∧ f.Applies calls bound group

/-- A framer that `open_snapshot` returned has no levels, and has refused none. -/
structure Opened (f : SnapshotFramer) : Prop where
  levels : f.levels = []
  refused : f.refused = none

theorem opened_openSnapshot {d : DepthLowering} {instruments : InstrumentTable} {h : InstrumentRef}
    {anchorSeq timestampNs : UInt64}
    (hopen : (d.openSnapshot instruments h anchorSeq timestampNs).1 = .ok f) : f.Opened := by
  rw [DepthLowering.openSnapshot] at hopen
  split at hopen
  next => cases hopen
  next =>
      cases hopen
      exact ⟨rfl, rfl⟩

/-- A refusal is what comes back, and nothing else. -/
theorem finish_of_firstRefusal {e : LoweringError} (hf : f.Opened)
    (he : firstRefusal f.instrument calls = some e) (depthBound : UInt32) :
    (f.write calls).finish depthBound = .error e := by
  rw [firstRefusal, Option.or_eq_some_iff] at he
  rcases he with he | ⟨hnone, hmany⟩
  · rw [finish, write_of_findSome hf.refused he]
  · obtain ⟨levels, hwrite, -, hall, -⟩ := write_of_not_refusal hf.refused
      (List.findSome?_eq_none_iff.mp hnone)
    split at hmany
    next hle =>
        rw [hwrite, finish, hf.refused, hf.levels, List.nil_append]
        dsimp only
        rw [if_pos (hall.length_eq ▸ hle), Option.some.inj hmany]
    next => cases hmany

/-- Every level is framed exactly, when none is refused. -/
theorem finish_states (hf : f.Opened) (hnone : firstRefusal f.instrument calls = none)
    (bound : DepthBound) :
    ∃ group, (f.write calls).finish bound.encoded = .ok group ∧
      (f.Applies calls bound group ↔ ∀ c ∈ calls, c.qty.isZero = false) := by
  rw [firstRefusal, Option.or_eq_none_iff] at hnone
  obtain ⟨levels, hwrite, hids, hall, hzeros⟩ := write_of_not_refusal hf.refused
    (List.findSome?_eq_none_iff.mp hnone.1)
  have hfew : levels.length < 2 ^ 32 := by
    rw [← hall.length_eq]
    by_contra hle
    rw [if_pos (not_lt.mp hle)] at hnone
    exact absurd hnone.2 (Option.some_ne_none _)
  rw [hwrite, finish, hf.refused, hf.levels, List.nil_append]
  dsimp only
  rw [if_neg (not_le.mpr hfew)]
  refine ⟨_, rfl, fun happlies ↦ hzeros.mp happlies.nonzero, fun hnonzero ↦ ?_⟩
  exact {
    total := UInt32.toNat_ofNat_of_lt' hfew
    start := rfl
    ids := hids
    finish := rfl
    depth := rfl
    states := hall
    nonzero := hzeros.mpr hnonzero }

/-- A snapshot is framed as it has to be, unless every level of it is accepted and one of them is
of quantity zero. -/
theorem framed_iff {d : DepthLowering} {instruments : InstrumentTable} {h : InstrumentRef}
    {anchorSeq timestampNs : UInt64}
    (hopen : (d.openSnapshot instruments h anchorSeq timestampNs).1 = .ok f)
    (calls : List LevelCall) (bound : DepthBound) :
    f.Framed calls bound ((f.write calls).finish bound.encoded) ↔
      firstRefusal f.instrument calls ≠ none ∨ ∀ c ∈ calls, c.qty.isZero = false := by
  have hf := opened_openSnapshot hopen
  cases hfirst : firstRefusal f.instrument calls with
  | some e =>
      rw [finish_of_firstRefusal hf hfirst]
      exact iff_of_true hfirst (.inl (Option.some_ne_none e))
  | none =>
      obtain ⟨group, hgroup, happlies⟩ := finish_states hf hfirst bound
      rw [hgroup, Framed, and_iff_right hfirst, happlies, or_iff_right (not_not.mpr rfl)]

/-- An instrument priced in hundredths, whole units traded. -/
def exampleInstrument : Instrument := ⟨7, -2, 0, none⟩

def exampleFramer : SnapshotFramer := ⟨exampleInstrument, 40, 1, 0, 1000, [], none⟩

theorem openSnapshot_example :
    ((⟨.first, {}, 1⟩ : DepthLowering).openSnapshot
      (InstrumentTable.new.admitInstrument exampleInstrument).2 ⟨0⟩ 40 1000).1 =
      .ok exampleFramer := rfl

/-- A bid of five at 1.25 is framed. -/
theorem framed_iff_example :
    exampleFramer.Framed [⟨.bid, .fixed 125 (-2), .fixed 5 0, none⟩] .complete
      ((exampleFramer.write [⟨.bid, .fixed 125 (-2), .fixed 5 0, none⟩]).finish 0) :=
  (framed_iff openSnapshot_example _ .complete).mpr (.inr (by decide))

/-- So is a bid of zero, and the group holds a level that no snapshot has. -/
theorem not_framed_example :
    firstRefusal exampleInstrument [⟨.bid, .fixed 125 (-2), .fixed 0 0, none⟩] = none ∧
      ¬exampleFramer.Framed [⟨.bid, .fixed 125 (-2), .fixed 0 0, none⟩] .complete
        ((exampleFramer.write [⟨.bid, .fixed 125 (-2), .fixed 0 0, none⟩]).finish 0) := by
  have hnone : firstRefusal exampleInstrument [⟨.bid, .fixed 125 (-2), .fixed 0 0, none⟩] = none := by
    decide
  obtain ⟨group, hgroup, happlies⟩ := finish_states (opened_openSnapshot openSnapshot_example)
    hnone .complete
  refine ⟨hnone, fun hframed ↦ ?_⟩
  rw [show (0 : UInt32) = DepthBound.complete.encoded from rfl, hgroup] at hframed
  exact absurd (happlies.mp hframed.2) (by decide)

end SnapshotFramer

end EdgeMulticast.Lowering
