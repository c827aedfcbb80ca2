import EdgeMulticast.Lib.Loops
import EdgeMulticast.MarketByPrice.Dispatch

/-!
# Sequencing one instrument: what applying, draining and committing do

The facts about `applyOne`, `drainPending` and the snapshot calls that everything after this file uses.

* A well-formed record is applied: the book changes as the record says (`mutate`), the trackers
  move to the record, and nothing else of the instrument changes.
* Only well-formed records are ever held, since a record is classified on receipt.  A drain over
  such a window never meets a malformed one, so the demotion the source keeps as a backstop inside
  the drain is not reached and the drain is a plain loop (`drainPending_eq`).
* A drain with as much fuel as there are held records stops because the next expected number is
  not held (`drainPending_stops`).
* A begin opens an empty shadow or nothing (`snapshotBegin_cases`), and an end commits exactly
  the committable shadows (`snapshotEnd_eq_none_iff`).
-/

namespace EdgeMulticast.MarketByPrice

open Std (ExtTreeMap)
open EdgeMulticast.Lib

namespace Instrument

/-! ## The book mutation -/

/-- The book mutation of a record, without the trackers. -/
def mutate (i : Instrument) (rec : Record) : Instrument :=
  let f := rec.fields
  match rec.type with
  | .levelUpdate => (i.applyLevelUpdate (sideFromString f.side) (toInt64 f.priceRaw)
      (toUint64 f.qtyRaw) (orderCountFrom f) (toUint8 f.levelFlags) (actionFromString f.action)).1
  | .bookClear => (i.applyBookClear (clearSideFromString f.clearSide) (scopeFromString f.scope)
      (toInt64 f.fromPriceRaw)).1
  | _ => i

/-- A level update writes the two sides and nothing else. -/
theorem applyLevelUpdate_frame (i : Instrument) (sideByte : ℕ) (priceRaw : ℤ)
    (qtyRaw orderCount flags action : ℕ) :
    ∃ bids asks, (i.applyLevelUpdate sideByte priceRaw qtyRaw orderCount flags action).1 =
      { i with bids := bids, asks := asks } := by
  simp only [applyLevelUpdate, setSide]
  split <;> split <;> exact ⟨_, _, rfl⟩

/-- A clear writes the two sides and nothing else. -/
theorem applyBookClear_frame (i : Instrument) (clearSide scope : ℕ) (fromPriceRaw : ℤ) :
    ∃ bids asks, (i.applyBookClear clearSide scope fromPriceRaw).1 =
      { i with bids := bids, asks := asks } := by
  simp only [applyBookClear]
  split
  · exact ⟨_, _, rfl⟩
  · split <;> split <;> exact ⟨_, _, rfl⟩

/-- A mutation writes the two sides and nothing else. -/
theorem mutate_frame (i : Instrument) (rec : Record) :
    i.mutate rec = { i with bids := (i.mutate rec).bids, asks := (i.mutate rec).asks } := by
  obtain ⟨bids, asks, h⟩ : ∃ bids asks, i.mutate rec = { i with bids := bids, asks := asks } := by
    simp only [mutate]
    split
    · exact applyLevelUpdate_frame ..
    · exact applyBookClear_frame ..
    · exact ⟨_, _, rfl⟩
  rw [h]

section

variable (i : Instrument) (rec : Record)

@[simp] theorem mutate_id : (i.mutate rec).id = i.id := by rw [mutate_frame]

@[simp] theorem mutate_symbol : (i.mutate rec).symbol = i.symbol := by rw [mutate_frame]

@[simp] theorem mutate_status : (i.mutate rec).status = i.status := by rw [mutate_frame]

@[simp] theorem mutate_pending : (i.mutate rec).pending = i.pending := by rw [mutate_frame]

@[simp] theorem mutate_openSnapshot : (i.mutate rec).openSnapshot = i.openSnapshot := by
  rw [mutate_frame]

@[simp] theorem mutate_lost : (i.mutate rec).lostInstrumentSeq = i.lostInstrumentSeq := by
  rw [mutate_frame]

@[simp] theorem mutate_requiredInstrumentSeq :
    (i.mutate rec).requiredInstrumentSeq = i.requiredInstrumentSeq := by rw [mutate_frame]

@[simp] theorem advance_id : (i.advance rec).id = i.id := rfl

@[simp] theorem advance_symbol : (i.advance rec).symbol = i.symbol := rfl

@[simp] theorem advance_status : (i.advance rec).status = i.status := rfl

@[simp] theorem advance_pending : (i.advance rec).pending = i.pending := rfl

@[simp] theorem advance_openSnapshot : (i.advance rec).openSnapshot = i.openSnapshot := rfl

@[simp] theorem advance_lastAppliedInstrumentSeq :
    (i.advance rec).lastAppliedInstrumentSeq = rec.perInstrumentSeq := rfl

@[simp] theorem advance_requiredInstrumentSeq :
    (i.advance rec).requiredInstrumentSeq = i.requiredInstrumentSeq := rfl

@[simp] theorem advance_lastAppliedMktdataSeq :
    (i.advance rec).lastAppliedMktdataSeq = rec.sequenceNumber := rfl

@[simp] theorem advance_lost : (i.advance rec).lostInstrumentSeq =
    i.lostInstrumentSeq.filter (rec.perInstrumentSeq < ·) := rfl

end

/-- A well-formed record is applied. -/
theorem applyOne_eq {i : Instrument} {rec : Record} (h : malformedRecord rec = none) :
    i.applyOne rec = ((i.mutate rec).advance rec, ⟨.appliedDelta, i.id, i.symbol, rec⟩, none) := by
  cases htype : rec.type with
  | bookClear =>
      rw [malformedRecord, if_neg (by simp [htype])] at h
      simp only [applyOne, mutate, htype, applyBookClear, h]
  | _ => simp only [applyOne, mutate, htype]

/-! ## The expected number -/

/-- Without lost numbers the expected one is the successor of the last applied. -/
theorem nextExpected_of_lost_empty {i : Instrument} (h : i.lostInstrumentSeq = ∅) :
    i.nextExpectedInstrumentSeq = (i.lastAppliedInstrumentSeq + 1) % 2 ^ 32 := by
  rw [nextExpectedInstrumentSeq, h]
  rfl

/-! ## Draining -/

/-- One round of the drain: the record under the expected number leaves the window and is
applied, and an emptied window is dropped. -/
def drainStep (i : Instrument) (held : ExtTreeMap ℕ Record) (pr : Record) : Instrument :=
  let held := held.erase i.nextExpectedInstrumentSeq
  let j := ({ i with pending := some held }.mutate pr).advance pr
  if held.isEmpty then { j with pending := none } else j

section

variable (i : Instrument) (held : ExtTreeMap ℕ Record) (pr : Record)

@[simp] theorem drainStep_id : (i.drainStep held pr).id = i.id := by
  simp only [drainStep]; split <;> simp

@[simp] theorem drainStep_symbol : (i.drainStep held pr).symbol = i.symbol := by
  simp only [drainStep]; split <;> simp

@[simp] theorem drainStep_status : (i.drainStep held pr).status = i.status := by
  simp only [drainStep]; split <;> simp

@[simp] theorem drainStep_openSnapshot : (i.drainStep held pr).openSnapshot = i.openSnapshot := by
  simp only [drainStep]; split <;> simp

@[simp] theorem drainStep_requiredInstrumentSeq :
    (i.drainStep held pr).requiredInstrumentSeq = i.requiredInstrumentSeq := by
  simp only [drainStep]; split <;> simp

@[simp] theorem drainStep_lastAppliedInstrumentSeq :
    (i.drainStep held pr).lastAppliedInstrumentSeq = pr.perInstrumentSeq := by
  simp only [drainStep]; split <;> simp

@[simp] theorem drainStep_lastAppliedMktdataSeq :
    (i.drainStep held pr).lastAppliedMktdataSeq = pr.sequenceNumber := by
  simp only [drainStep]; split <;> simp

@[simp] theorem drainStep_lost : (i.drainStep held pr).lostInstrumentSeq =
    i.lostInstrumentSeq.filter (pr.perInstrumentSeq < ·) := by
  simp only [drainStep]; split <;> simp

/-- A round takes the expected number out of the window. -/
theorem drainStep_window : ((i.drainStep held pr).pending.getD ∅) =
    held.erase i.nextExpectedInstrumentSeq := by
  simp only [drainStep]
  split
  next hempty =>
      rw [ExtTreeMap.isEmpty_iff] at hempty
      rw [hempty]
      rfl
  next => simp

end

/-- What is held after a round is held before it, under another number than the expected. -/
theorem drainStep_held {i : Instrument} {held held' : ExtTreeMap ℕ Record} {pr r : Record} {p : ℕ}
    (h : (i.drainStep held pr).pending = some held') (hp : held'[p]? = some r) :
    p ≠ i.nextExpectedInstrumentSeq ∧ held[p]? = some r := by
  obtain rfl : held.erase i.nextExpectedInstrumentSeq = held' := by
    simp only [drainStep] at h
    split at h
    · exact absurd h (by simp)
    · simpa using h
  rw [getElem?_erase_eq] at hp
  split at hp
  · exact absurd hp (by simp)
  · exact ⟨Ne.symm ‹_›, hp⟩

/-- Every held record is well-formed. -/
def HeldWellFormed (i : Instrument) : Prop :=
  ∀ held, i.pending = some held → ∀ (p : ℕ) (r : Record), held[p]? = some r →
    malformedRecord r = none

theorem HeldWellFormed.drainStep {i : Instrument} (h : i.HeldWellFormed)
    {held : ExtTreeMap ℕ Record} (hheld : i.pending = some held) (pr : Record) :
    (i.drainStep held pr).HeldWellFormed := by
  intro held' h' p r hr
  exact h held hheld p r (drainStep_held h' hr).2

/-- The held record under the expected number. -/
def next (i : Instrument) : Option Record := (i.pending.getD ∅)[i.nextExpectedInstrumentSeq]?

/-- The round that takes it. -/
def take (i : Instrument) (pr : Record) : Instrument := i.drainStep (i.pending.getD ∅) pr

theorem next_eq_some {i : Instrument} {pr : Record} (h : i.next = some pr) :
    ∃ held, i.pending = some held ∧ held[i.nextExpectedInstrumentSeq]? = some pr := by
  cases hpending : i.pending with
  | none => simp [next, hpending] at h
  | some held => exact ⟨held, rfl, by rwa [next, hpending] at h⟩

theorem take_eq {i : Instrument} {held : ExtTreeMap ℕ Record} (h : i.pending = some held)
    (pr : Record) : i.take pr = i.drainStep held pr := by
  rw [take, h, Option.getD_some]

/-- Over a well-formed window the drain takes what is held under the expected number, over and
over, and its backstop is never reached. -/
theorem drainPending_eq (fuel : ℕ) {i : Instrument} (hwf : i.HeldWellFormed) :
    i.drainPending fuel = ((exhaust next take fuel i).1,
      (exhaust next take fuel i).2.map fun pr ↦ ⟨.appliedDelta, i.id, i.symbol, pr⟩, none) := by
  induction fuel generalizing i with
  | zero => rfl
  | succ fuel ih =>
      cases hnext : i.next with
      | none =>
          rw [exhaust_of_none _ hnext]
          cases hpending : i.pending with
          | none => simp only [drainPending, hpending, List.map_nil]
          | some held =>
              rw [next, hpending, Option.getD_some] at hnext
              simp only [drainPending, hpending, hnext, List.map_nil]
      | some pr =>
          obtain ⟨held, hheld, hpr⟩ := next_eq_some hnext
          have hround : i.drainPending (fuel + 1) = (((i.take pr).drainPending fuel).1,
              ⟨.appliedDelta, i.id, i.symbol, pr⟩ :: ((i.take pr).drainPending fuel).2.1,
              ((i.take pr).drainPending fuel).2.2) := by
            simp only [drainPending, hheld, hpr, applyOne_eq (hwf held hheld _ pr hpr),
              take_eq hheld, drainStep]
          have htake : (i.take pr).HeldWellFormed := by
            rw [take_eq hheld]
            exact hwf.drainStep hheld pr
          have hid : (i.take pr).id = i.id := drainStep_id ..
          have hsymbol : (i.take pr).symbol = i.symbol := drainStep_symbol ..
          rw [hround, exhaust_succ _ hnext, ih htake, hid, hsymbol, List.map_cons]

/-- What a round and its event preserve, the drain preserves. -/
theorem drainPending_trace {P : Instrument → List ChannelEvent → Prop}
    (round : ∀ i held pr evs, P i evs → i.pending = some held →
      held[i.nextExpectedInstrumentSeq]? = some pr → malformedRecord pr = none →
      P (i.drainStep held pr) (evs ++ [⟨.appliedDelta, i.id, i.symbol, pr⟩]))
    (fuel : ℕ) {i : Instrument} (hwf : i.HeldWellFormed) (evs : List ChannelEvent)
    (hi : P i evs) : P (i.drainPending fuel).1 (evs ++ (i.drainPending fuel).2.1) := by
  rw [drainPending_eq fuel hwf]
  refine (exhaust_trace (P := fun j prs ↦ j.HeldWellFormed ∧ j.id = i.id ∧ j.symbol = i.symbol ∧
    P j (evs ++ prs.map fun pr ↦ ⟨.appliedDelta, i.id, i.symbol, pr⟩)) ?_ fuel []
      ⟨hwf, rfl, rfl, by simpa using hi⟩).2.2.2
  rintro j pr prs ⟨hj, hid, hsymbol, hP⟩ hnext
  obtain ⟨held, hheld, hpr⟩ := next_eq_some hnext
  rw [take_eq hheld, drainStep_id, drainStep_symbol, List.map_append, ← List.append_assoc]
  refine ⟨hj.drainStep hheld pr, hid, hsymbol, ?_⟩
  have hround := round j held pr _ hP hheld hpr (hj held hheld _ pr hpr)
  rwa [hid, hsymbol] at hround

/-- What a round preserves, the drain preserves. -/
theorem drainPending_induction {P : Instrument → Prop}
    (round : ∀ i held pr, P i → i.pending = some held →
      held[i.nextExpectedInstrumentSeq]? = some pr → malformedRecord pr = none →
      P (i.drainStep held pr))
    (fuel : ℕ) {i : Instrument} (hwf : i.HeldWellFormed) (hi : P i) :
    P (i.drainPending fuel).1 :=
  drainPending_trace (P := fun i _ ↦ P i) (fun i held pr _ ↦ round i held pr) fuel hwf [] hi

/-- A round shortens the window. -/
theorem pendingSize_take {i : Instrument} {pr : Record} (h : i.next = some pr) :
    (i.take pr).pendingSize < i.pendingSize := by
  have hsize := size_erase_add_one h
  rw [pendingSize, pendingSize, take, drainStep_window]
  omega

/-- With enough fuel a drain stops because the expected number is not held. -/
theorem drainPending_stops (fuel : ℕ) {i : Instrument} (hwf : i.HeldWellFormed)
    (hfuel : i.pendingSize ≤ fuel) :
    ∀ held, (i.drainPending fuel).1.pending = some held →
      held[(i.drainPending fuel).1.nextExpectedInstrumentSeq]? = none := by
  intro held hheld
  have hstop : (i.drainPending fuel).1.next = none := by
    rw [drainPending_eq fuel hwf]
    exact exhaust_stops pendingSize (fun _ _ h ↦ pendingSize_take h) fuel hfuel
  rwa [next, hheld, Option.getD_some] at hstop

/-! ## Beginning and ending a snapshot -/

/-- What a begin does depends on whether its group is acceptable. -/
theorem snapshotBegin_eq (i : Instrument) (rec : Record) :
    i.snapshotBegin rec =
      match i.snapshotAcceptable rec.snapshotGroup.anchorSeq rec.snapshotGroup.lastInstrumentSeq with
      | (true, none) => { i with lastBegin := some rec.snapshotGroup }.beginSnapshot
          rec.snapshotGroup.snapshotID rec.snapshotGroup.anchorSeq rec.snapshotGroup.totalLevels
          rec.snapshotGroup.lastInstrumentSeq rec.snapshotGroup.depthBound
      | _ => { i with lastBegin := some rec.snapshotGroup } := by
  have hsame (anchorSeq lastInstrumentSeq : ℕ) :
      { i with lastBegin := some rec.snapshotGroup }.snapshotAcceptable anchorSeq
        lastInstrumentSeq = i.snapshotAcceptable anchorSeq lastInstrumentSeq := rfl
  simp only [snapshotBegin, hsame]
  rcases i.snapshotAcceptable rec.snapshotGroup.anchorSeq rec.snapshotGroup.lastInstrumentSeq with
    ⟨_ | _, _ | _⟩ <;> rfl

/-- A begin records its group and at most opens an empty shadow for it. -/
theorem snapshotBegin_cases (i : Instrument) (rec : Record) :
    i.snapshotBegin rec = { i with lastBegin := some rec.snapshotGroup } ∨
      ((i.status ≠ .ready ∨ i.lastAppliedInstrumentSeq < rec.snapshotGroup.lastInstrumentSeq) ∧
        (∀ r, i.requiredAnchorSeq = some r → r ≤ rec.snapshotGroup.anchorSeq) ∧
        (∀ r, i.requiredInstrumentSeq = some r → r ≤ rec.snapshotGroup.lastInstrumentSeq) ∧
        i.snapshotBegin rec = { i with
          lastBegin := some rec.snapshotGroup
          openSnapshot := some
            { snapshotID := rec.snapshotGroup.snapshotID
              anchorSeq := rec.snapshotGroup.anchorSeq
              totalLevels := rec.snapshotGroup.totalLevels
              lastInstrumentSeq := rec.snapshotGroup.lastInstrumentSeq
              depthBound := rec.snapshotGroup.depthBound
              receivedLevels := 0, bids := ∅, asks := ∅ } }) := by
  generalize hg : rec.snapshotGroup = g
  simp only [snapshotBegin, hg]
  by_cases hanchor : ∃ r ∈ i.requiredAnchorSeq, g.anchorSeq < r
  · exact Or.inl (by simp only [snapshotAcceptable, if_pos hanchor])
  by_cases hseq : ∃ r ∈ i.requiredInstrumentSeq, g.lastInstrumentSeq < r
  · exact Or.inl (by simp only [snapshotAcceptable, if_neg hanchor, if_pos hseq])
  have hanchor' : ∀ r, i.requiredAnchorSeq = some r → r ≤ g.anchorSeq :=
    fun r hr ↦ not_lt.mp fun hlt ↦ hanchor ⟨r, hr, hlt⟩
  have hseq' : ∀ r, i.requiredInstrumentSeq = some r → r ≤ g.lastInstrumentSeq :=
    fun r hr ↦ not_lt.mp fun hlt ↦ hseq ⟨r, hr, hlt⟩
  by_cases hstatus : i.status ≠ .ready
  · refine Or.inr ⟨Or.inl hstatus, hanchor', hseq', ?_⟩
    simp only [snapshotAcceptable, if_neg hanchor, if_neg hseq, if_pos hstatus, beginSnapshot]
  · by_cases hlt : i.lastAppliedInstrumentSeq < g.lastInstrumentSeq
    · refine Or.inr ⟨Or.inr hlt, hanchor', hseq', ?_⟩
      simp only [snapshotAcceptable, if_neg hanchor, if_neg hseq, if_neg hstatus,
        decide_eq_true hlt, beginSnapshot]
    · exact Or.inl (by simp only [snapshotAcceptable, if_neg hanchor, if_neg hseq,
        if_neg hstatus, decide_eq_false hlt])

/-- A discarded shadow is all that a failed end takes. -/
theorem snapshotEnd_of_err {i : Instrument} {rec : Record} {err : SnapshotError}
    (h : (i.snapshotEnd rec).2 = some err) :
    (i.snapshotEnd rec).1 = { i with openSnapshot := none } := by
  simp only [snapshotEnd, endSnapshot] at h ⊢
  cases hopen : i.openSnapshot with
  | none => simp only [← hopen]
  | some p =>
      simp only [hopen] at h
      by_cases hid : p.snapshotID ≠ toUint32 rec.fields.snapshotId ∨
          p.anchorSeq ≠ toUint64 rec.fields.anchorSeq
      · simp only [if_pos hid]
      by_cases hcount : p.receivedLevels ≠ p.totalLevels
      · simp only [if_neg hid, if_pos hcount]
      by_cases hseq : ∃ r ∈ i.requiredInstrumentSeq, p.lastInstrumentSeq < r
      · simp only [if_neg hid, if_neg hcount, if_pos hseq]
      · simp only [if_neg hid, if_neg hcount, if_neg hseq] at h
        exact absurd h (by simp)

/-- What a shadow has to satisfy to be committed by an end. -/
structure Committable (i : Instrument) (p : PendingSnapshot) (rec : Record) : Prop where
  snapshotID : p.snapshotID = toUint32 rec.fields.snapshotId
  anchorSeq : p.anchorSeq = toUint64 rec.fields.anchorSeq
  count : p.receivedLevels = p.totalLevels
  covers : ∀ r, i.requiredInstrumentSeq = some r → r ≤ p.lastInstrumentSeq

instance (i : Instrument) (p : PendingSnapshot) (rec : Record) : Decidable (i.Committable p rec) :=
  decidable_of_iff (p.snapshotID = toUint32 rec.fields.snapshotId ∧
      p.anchorSeq = toUint64 rec.fields.anchorSeq ∧ p.receivedLevels = p.totalLevels ∧
      ∀ r ∈ i.requiredInstrumentSeq, r ≤ p.lastInstrumentSeq)
    ⟨fun ⟨hid, hanchor, hcount, hcovers⟩ ↦ ⟨hid, hanchor, hcount, hcovers⟩,
      fun h ↦ ⟨h.snapshotID, h.anchorSeq, h.count, h.covers⟩⟩

/-- The end of an open group commits exactly the committable shadows. -/
theorem snapshotEnd_eq_none_iff {i : Instrument} {p : PendingSnapshot} (rec : Record)
    (hopen : i.openSnapshot = some p) : (i.snapshotEnd rec).2 = none ↔ i.Committable p rec := by
  simp only [snapshotEnd, endSnapshot, hopen]
  by_cases hid : p.snapshotID ≠ toUint32 rec.fields.snapshotId ∨
      p.anchorSeq ≠ toUint64 rec.fields.anchorSeq
  · simp only [if_pos hid]
    refine ⟨fun h ↦ absurd h (by simp), fun h ↦ ?_⟩
    rcases hid with hid | hid
    · exact absurd h.snapshotID hid
    · exact absurd h.anchorSeq hid
  by_cases hcount : p.receivedLevels ≠ p.totalLevels
  · simp only [if_neg hid, if_pos hcount]
    exact ⟨fun h ↦ absurd h (by simp), fun h ↦ absurd h.count hcount⟩
  by_cases hseq : ∃ r ∈ i.requiredInstrumentSeq, p.lastInstrumentSeq < r
  · simp only [if_neg hid, if_neg hcount, if_pos hseq]
    refine ⟨fun h ↦ absurd h (by simp), fun h ↦ ?_⟩
    obtain ⟨r, hr, hlt⟩ := hseq
    exact absurd (h.covers r hr) (by omega)
  · simp only [if_neg hid, if_neg hcount, if_neg hseq, true_iff]
    push Not at hid hcount
    exact ⟨hid.1, hid.2, hcount, fun r hr ↦ not_lt.mp fun hlt ↦ hseq ⟨r, hr, hlt⟩⟩

/-- The instrument after a commit. -/
theorem snapshotEnd_of_commit {i : Instrument} {p : PendingSnapshot} {rec : Record}
    (hopen : i.openSnapshot = some p) (h : i.Committable p rec) :
    (i.snapshotEnd rec).1 = { i.commitSnapshot p with lastAppliedSendTS := some rec.sendTime } := by
  have hid : ¬(p.snapshotID ≠ toUint32 rec.fields.snapshotId ∨
      p.anchorSeq ≠ toUint64 rec.fields.anchorSeq) := by
    simp [h.snapshotID, h.anchorSeq]
  have hseq : ¬∃ r ∈ i.requiredInstrumentSeq, p.lastInstrumentSeq < r := by
    rintro ⟨r, hr, hlt⟩
    exact absurd (h.covers r hr) (by omega)
  simp only [snapshotEnd, endSnapshot, hopen, if_neg hid, h.count, if_neg hseq, ne_eq,
    not_true_eq_false, if_false]

section

variable (i : Instrument) (p : PendingSnapshot)

@[simp] theorem commitSnapshot_lost : (i.commitSnapshot p).lostInstrumentSeq =
    i.lostInstrumentSeq.filter (p.lastInstrumentSeq < ·) := rfl

@[simp] theorem commitSnapshot_pending : (i.commitSnapshot p).pending = none := rfl

@[simp] theorem commitSnapshot_bids : (i.commitSnapshot p).bids = p.bids := rfl

@[simp] theorem commitSnapshot_asks : (i.commitSnapshot p).asks = p.asks := rfl

@[simp] theorem commitSnapshot_openSnapshot : (i.commitSnapshot p).openSnapshot = none := rfl

@[simp] theorem commitSnapshot_lastAppliedInstrumentSeq :
    (i.commitSnapshot p).lastAppliedInstrumentSeq = p.lastInstrumentSeq := rfl

end

end Instrument

end EdgeMulticast.MarketByPrice
