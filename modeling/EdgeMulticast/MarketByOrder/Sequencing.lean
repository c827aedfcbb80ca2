import EdgeMulticast.Lib.FiniteMap
import EdgeMulticast.Lib.Loops
import EdgeMulticast.MarketByOrder.Shard

/-!
# Sequencing one instrument of the market-by-order book-builder

What applying a record, draining the reorder window and ending a snapshot do to an instrument,
and the four ways in which a delta is classified.
-/

namespace EdgeMulticast.MarketByOrder

open Std (ExtTreeMap)
open EdgeMulticast.Lib

namespace Instrument

/-! ## Applying -/

/-- The book mutation of a record, without the trackers. -/
def mutate (i : Instrument) (rec : Record) : Instrument :=
  let f := rec.fields
  match rec.type with
  | .orderAdd => i.applyOrderAdd rec.orderID (sideFromString f.side) (toUint8 f.orderFlags)
      f.enterTs (toInt64 f.priceRaw) (toUint64 f.qtyRaw)
  | .orderCancel => i.applyOrderCancel rec.orderID
  | .orderExecute =>
      i.applyOrderExecute rec.orderID (toUint8 f.execFlags) (toUint64 f.execQtyRaw)
  | _ => i

/-- A mutation writes the two sides and nothing else. -/
theorem mutate_frame (i : Instrument) (rec : Record) :
    i.mutate rec = { i with bids := (i.mutate rec).bids, asks := (i.mutate rec).asks } := by
  obtain ⟨bids, asks, h⟩ : ∃ bids asks, i.mutate rec = { i with bids := bids, asks := asks } := by
    simp only [mutate, applyOrderAdd, applyOrderCancel, applyOrderExecute]
    repeat' split
    all_goals exact ⟨_, _, rfl⟩
  rw [h]

/-- The instrument after a record was applied. -/
def applied (i : Instrument) (rec : Record) : Instrument :=
  { i.mutate rec with
      lastAppliedMktdataSeq := rec.sequenceNumber
      lastAppliedInstrumentSeq := rec.perInstrumentSeq }

section

variable (i : Instrument) (rec : Record)

@[simp] theorem applied_id : (i.applied rec).id = i.id := by
  rw [applied, mutate_frame]

@[simp] theorem applied_symbol : (i.applied rec).symbol = i.symbol := by
  rw [applied, mutate_frame]

@[simp] theorem applied_status : (i.applied rec).status = i.status := by
  rw [applied, mutate_frame]

@[simp] theorem applied_openSnapshot : (i.applied rec).openSnapshot = i.openSnapshot := by
  rw [applied, mutate_frame]

@[simp] theorem applied_pending : (i.applied rec).pending = i.pending := by
  rw [applied, mutate_frame]

@[simp] theorem applied_lastAppliedInstrumentSeq :
    (i.applied rec).lastAppliedInstrumentSeq = rec.perInstrumentSeq := rfl

@[simp] theorem applied_lastAppliedMktdataSeq :
    (i.applied rec).lastAppliedMktdataSeq = rec.sequenceNumber := rfl

theorem applyOne_eq : i.applyOne rec = (i.applied rec, ⟨.appliedDelta, i.id, i.symbol, rec⟩) := by
  have hevent : (i.applyOne rec).2 =
      ⟨.appliedDelta, (i.applied rec).id, (i.applied rec).symbol, rec⟩ := by
    cases htype : rec.type <;> simp only [applyOne, applied, mutate, htype]
  rw [applied_id, applied_symbol] at hevent
  refine Prod.ext ?_ hevent
  cases htype : rec.type <;> simp only [applyOne, applied, mutate, htype]

end

/-! ## Draining -/

/-- The Per-Instrument Seq the instrument is waiting for. -/
def expected (i : Instrument) : ℕ := (i.lastAppliedInstrumentSeq + 1) % 2 ^ 32

/-- The held record under the expected number. -/
def next (i : Instrument) : Option Record := (i.pending.getD ∅)[i.expected]?

/-- Take the record under the expected number out of the window and apply it. -/
def take (i : Instrument) (pr : Record) : Instrument :=
  let held := (i.pending.getD ∅).erase i.expected
  let j := { i with pending := some held }.applied pr
  if held.isEmpty then { j with pending := none } else j

section

variable (i : Instrument) (pr : Record)

@[simp] theorem take_id : (i.take pr).id = i.id := by
  simp only [take]; split <;> simp

@[simp] theorem take_symbol : (i.take pr).symbol = i.symbol := by
  simp only [take]; split <;> simp

@[simp] theorem take_status : (i.take pr).status = i.status := by
  simp only [take]; split <;> simp

@[simp] theorem take_openSnapshot : (i.take pr).openSnapshot = i.openSnapshot := by
  simp only [take]; split <;> simp

@[simp] theorem take_lastAppliedInstrumentSeq :
    (i.take pr).lastAppliedInstrumentSeq = pr.perInstrumentSeq := by
  simp only [take]; split <;> simp

@[simp] theorem take_lastAppliedMktdataSeq :
    (i.take pr).lastAppliedMktdataSeq = pr.sequenceNumber := by
  simp only [take]; split <;> simp

/-- A round takes the expected number out of the window. -/
@[simp] theorem take_window : (i.take pr).pending.getD ∅ = (i.pending.getD ∅).erase i.expected := by
  simp only [take]
  split
  next hempty =>
      rw [ExtTreeMap.isEmpty_iff] at hempty
      rw [hempty]
      rfl
  next => simp

/-- A round changes the book as its record says. -/
theorem take_book : (i.take pr).bids = (i.mutate pr).bids ∧ (i.take pr).asks = (i.mutate pr).asks := by
  have hframe : ({ i with pending := some ((i.pending.getD ∅).erase i.expected) }.mutate pr).bids =
      (i.mutate pr).bids ∧
      ({ i with pending := some ((i.pending.getD ∅).erase i.expected) }.mutate pr).asks =
        (i.mutate pr).asks := by
    simp only [mutate, applyOrderAdd, applyOrderCancel, applyOrderExecute]
    repeat' split
    all_goals exact ⟨rfl, rfl⟩
  simp only [take]
  split <;> exact hframe

end

/-- The drain takes what is held under the expected number, over and over. -/
theorem drainPending_eq (fuel : ℕ) (i : Instrument) :
    i.drainPending fuel = ((exhaust next take fuel i).1,
      (exhaust next take fuel i).2.map fun pr ↦ ⟨.appliedDelta, i.id, i.symbol, pr⟩) := by
  induction fuel generalizing i with
  | zero => rfl
  | succ fuel ih =>
      rw [drainPending]
      cases hpending : i.pending with
      | none =>
          have hnext : i.next = none := by simp [next, hpending]
          rw [exhaust_of_none _ hnext]
          rfl
      | some held =>
          have hnext : i.next = held[i.expected]? := by rw [next, hpending, Option.getD_some]
          dsimp only
          rw [← expected]
          cases hpr : held[i.expected]? with
          | none =>
              rw [exhaust_of_none _ (hnext.trans hpr)]
              rfl
          | some pr =>
              have htake : (if (held.erase i.expected).isEmpty then
                  { ({ i with pending := some (held.erase i.expected) }.applied pr) with
                    pending := none }
                else { i with pending := some (held.erase i.expected) }.applied pr) = i.take pr := by
                rw [take, hpending, Option.getD_some]
              rw [exhaust_succ _ (hnext.trans hpr)]
              simp only [applyOne_eq]
              rw [htake, ih (i.take pr), take_id, take_symbol]
              rfl

/-- A round shrinks the window. -/
theorem pendingSize_take {i : Instrument} {pr : Record} (h : i.next = some pr) :
    (i.take pr).pendingSize < i.pendingSize := by
  have hsize := size_erase_add_one h
  rw [pendingSize, pendingSize, take_window]
  omega

/-- What a round of the drain preserves, the drain preserves. -/
theorem drainPending_induction {P : Instrument → Prop}
    (round : ∀ i pr, P i → i.next = some pr → P (i.take pr)) (fuel : ℕ) {i : Instrument}
    (h : P i) : P (i.drainPending fuel).1 := by
  rw [drainPending_eq]
  exact exhaust_induction round fuel h

/-- Apply a contiguous record and drain what it frees. -/
def catchUp (i : Instrument) (rec : Record) : Instrument :=
  ((i.applied rec).drainPending (i.applied rec).pendingSize).1

/-- After a contiguous record the expected number is not held. -/
theorem catchUp_stops (i : Instrument) (rec : Record) : (i.catchUp rec).next = none := by
  rw [catchUp, drainPending_eq]
  exact exhaust_stops pendingSize (fun _ _ h ↦ pendingSize_take h) _ (le_refl _)

section

variable (i : Instrument) (rec : Record)

@[simp] theorem catchUp_id : (i.catchUp rec).id = i.id :=
  drainPending_induction (P := fun j ↦ j.id = i.id) (fun _ _ h _ ↦ (take_id ..).trans h) _
    (applied_id ..)

@[simp] theorem catchUp_status : (i.catchUp rec).status = i.status :=
  drainPending_induction (P := fun j ↦ j.status = i.status)
    (fun _ _ h _ ↦ (take_status ..).trans h) _ (applied_status ..)

@[simp] theorem catchUp_openSnapshot : (i.catchUp rec).openSnapshot = i.openSnapshot :=
  drainPending_induction (P := fun j ↦ j.openSnapshot = i.openSnapshot)
    (fun _ _ h _ ↦ (take_openSnapshot ..).trans h) _ (applied_openSnapshot ..)

/-! ## Holding and demoting -/

/-- Demote on a gap: what was held is dropped. -/
def declareGap (i : Instrument) : Instrument := { i with status := .gap, pending := none }

@[simp] theorem hold_window : (i.hold rec).pending.getD ∅ =
    (i.pending.getD ∅).insert rec.perInstrumentSeq rec := rfl

/-! ## Ending a snapshot -/

end

end Instrument

/-- What a shadow has to satisfy to be committed by an end. -/
structure PendingSnapshot.Committable (p : PendingSnapshot) (rec : Record) : Prop where
  snapshotID : p.snapshotID = rec.snapshotID
  anchorSeq : p.anchorSeq = toUint64 rec.fields.anchorSeq
  count : p.receivedOrders = p.totalOrders

instance (p : PendingSnapshot) (rec : Record) : Decidable (p.Committable rec) :=
  decidable_of_iff (p.snapshotID = rec.snapshotID ∧ p.anchorSeq = toUint64 rec.fields.anchorSeq ∧
      p.receivedOrders = p.totalOrders)
    ⟨fun ⟨hid, hanchor, hcount⟩ ↦ ⟨hid, hanchor, hcount⟩,
      fun h ↦ ⟨h.snapshotID, h.anchorSeq, h.count⟩⟩

namespace Instrument

variable {i : Instrument} {p : PendingSnapshot} {rec : Record}

theorem endSnapshot_of_commit (hopen : i.openSnapshot = some p) (h : p.Committable rec) :
    i.endSnapshot rec.snapshotID (toUint64 rec.fields.anchorSeq) = (i.commitSnapshot p, none) := by
  have hid : ¬(p.snapshotID ≠ rec.snapshotID ∨ p.anchorSeq ≠ toUint64 rec.fields.anchorSeq) := by
    simp [h.snapshotID, h.anchorSeq]
  simp only [endSnapshot, hopen, if_neg hid, h.count, ne_eq, not_true_eq_false, if_false]

/-- A discarded shadow is all that a failed end takes. -/
theorem endSnapshot_of_not (hopen : i.openSnapshot = some p) (h : ¬p.Committable rec) :
    ∃ err, i.endSnapshot rec.snapshotID (toUint64 rec.fields.anchorSeq) =
      ({ i with openSnapshot := none }, some err) := by
  simp only [endSnapshot, hopen]
  by_cases hid : p.snapshotID ≠ rec.snapshotID ∨ p.anchorSeq ≠ toUint64 rec.fields.anchorSeq
  · exact ⟨_, if_pos hid⟩
  by_cases hcount : p.receivedOrders ≠ p.totalOrders
  · exact ⟨_, by rw [if_neg hid, if_pos hcount]⟩
  · push Not at hid hcount
    exact absurd ⟨hid.1, hid.2, hcount⟩ h

/-- What an end makes of the instrument, short of the replay. -/
def ended (i : Instrument) (rec : Record) : Instrument :=
  match i.openSnapshot with
  | none => i
  | some p =>
      -- a delayed end leaves a later group's shadow alone
      if rec.snapshotID < p.snapshotID then i
      else (i.endSnapshot rec.snapshotID (toUint64 rec.fields.anchorSeq)).1

/-- The instrument is left alone, loses its shadow, or is the shadow's from here on. -/
theorem ended_cases (i : Instrument) (rec : Record) :
    i.ended rec = i ∨ i.ended rec = { i with openSnapshot := none } ∨
      ∃ p, i.openSnapshot = some p ∧ p.Committable rec ∧ i.ended rec = i.commitSnapshot p := by
  rw [ended]
  cases hopen : i.openSnapshot with
  | none => exact Or.inl rfl
  | some p =>
      dsimp only
      split
      · exact Or.inl rfl
      · by_cases hcommit : p.Committable rec
        · rw [endSnapshot_of_commit hopen hcommit]
          exact Or.inr (Or.inr ⟨p, rfl, hcommit, rfl⟩)
        · obtain ⟨err, herr⟩ := endSnapshot_of_not hopen hcommit
          rw [herr]
          exact Or.inr (Or.inl rfl)

end Instrument

namespace Shard

variable (s : Shard) (k : InstKey) (i : Instrument) (rec : Record)

/-! ## Classifying a delta -/

theorem applyDeltaToReady_of_lt (σ : BufferChoice) (h : rec.perInstrumentSeq < i.expected) :
    s.applyDeltaToReady σ k i rec = (s, []) := by
  rw [applyDeltaToReady]
  exact if_pos h

theorem applyDeltaToReady_of_hold (σ : BufferChoice) (h : i.expected < rec.perInstrumentSeq)
    (hsize : (i.hold rec).pendingSize ≤ reorderWindow)
    (hnear : rec.perInstrumentSeq - i.expected ≤ reorderWindow) :
    s.applyDeltaToReady σ k i rec = (s.setInst k (i.hold rec), []) := by
  simp only [applyDeltaToReady, ← Instrument.expected.eq_1]
  rw [if_neg (Nat.not_lt_of_lt h), if_pos h, if_pos ⟨hsize, hnear⟩]

theorem applyDeltaToReady_of_gap (σ : BufferChoice) (h : i.expected < rec.perInstrumentSeq)
    (hover : ¬((i.hold rec).pendingSize ≤ reorderWindow ∧
      rec.perInstrumentSeq - i.expected ≤ reorderWindow)) :
    s.applyDeltaToReady σ k i rec = ((s.setInst k i.declareGap).bufferDelta σ k rec,
      [⟨.perInstrumentGap, i.id, i.symbol, rec⟩]) := by
  simp only [applyDeltaToReady, ← Instrument.expected.eq_1]
  rw [if_neg (Nat.not_lt_of_lt h), if_pos h, if_neg hover]
  rfl

theorem applyDeltaToReady_of_eq (σ : BufferChoice) (h : rec.perInstrumentSeq = i.expected) :
    (s.applyDeltaToReady σ k i rec).1 = s.setInst k (i.catchUp rec) := by
  simp only [applyDeltaToReady, ← Instrument.expected.eq_1, Instrument.applyOne_eq]
  rw [if_neg (by omega), if_neg (by omega)]
  rfl

/-- Buffering pushes on the slice of the instrument. -/
theorem bufferDelta_eq (σ : BufferChoice) : s.bufferDelta σ k rec =
    { s with deltaBuf := s.deltaBuf.insert k ((s.buffered k).push σ.ties
        maxBufferedDeltasPerInstrument σ.grown ⟨rec.sequenceNumber, rec⟩) } := rfl

end Shard

end EdgeMulticast.MarketByOrder
