import EdgeMulticast.MarketByPrice.Accounting

/-!
# The structural invariant of a shard

Five facts tie the fields of a shard together.  Two are about the buffers: the running total is
the number of buffered deltas and stays within the budget, and each buffer is sorted by mktdata
sequence.  Three are about an instrument: a ready one owes nothing, a reorder window is held only
by a ready one and only just ahead of the expected number, and every number given up as lost is
covered by what recovery requires.

The instrument's part is a property of the view (`View.Inv`), so it is checked against each move; the accounting comes from the shard's own writes (`Shard.run_accounted`).
-/

namespace EdgeMulticast.MarketByPrice

open Std (ExtTreeMap)
open EdgeMulticast.Lib

/-- A delta whose number is below a bound.  The window's part of the invariant holds while the
numbers stay clear of the wrap; the rest holds for the bound that every number meets. -/
def Bounded (B : ℕ) (rec : Record) : Prop := rec.perInstrumentSeq < B

variable {B : ℕ}

/-! ## One instrument -/

/-- What ties the fields of one instrument together. -/
structure Instrument.Inv (B : ℕ) (i : Instrument) : Prop where
  ready : i.status = .ready → i.requiredInstrumentSeq = none ∧ i.lostInstrumentSeq = ∅
  window : ∀ held, i.pending = some held → i.status = .ready ∧
    ∀ (p : ℕ) (r : Record), held[p]? = some r → p ≠ 0 ∧
      (B < 2 ^ 32 → i.nextExpectedInstrumentSeq < p ∧
        p ≤ i.nextExpectedInstrumentSeq + reorderWindow)
  lost : ∀ p ∈ i.lostInstrumentSeq, ∃ r, i.requiredInstrumentSeq = some r ∧ p ≤ r
  bound : i.lastAppliedInstrumentSeq < B
  shadow : ∀ p, i.openSnapshot = some p → p.lastInstrumentSeq < B

namespace Instrument

variable {i : Instrument} {rec : Record}

theorem new_inv (pos : 0 < B) (id : ℕ) (symbol : String) (priceExp qtyExp : ℤ) :
    (new id symbol priceExp qtyExp).Inv B where
  ready := by rintro ⟨⟩
  window := by rintro held ⟨⟩
  lost := by simp [new]
  bound := pos
  shadow := by rintro p ⟨⟩

theorem Inv.hold (h : i.Inv B) (ready : i.status = .ready)
    (ahead : i.nextExpectedInstrumentSeq < rec.perInstrumentSeq)
    (near : rec.perInstrumentSeq - i.nextExpectedInstrumentSeq ≤ reorderWindow) :
    (i.hold rec).Inv B where
  ready := h.ready
  window := by
    rintro held hheld
    refine ⟨ready, fun p r hr ↦ ?_⟩
    obtain rfl : (i.pending.getD ∅).insert rec.perInstrumentSeq rec = held := by
      simpa [Instrument.hold] using hheld
    change p ≠ 0 ∧ (B < 2 ^ 32 → i.nextExpectedInstrumentSeq < p ∧
      p ≤ i.nextExpectedInstrumentSeq + reorderWindow)
    rw [getElem?_insert_eq] at hr
    split at hr
    · omega
    · cases hpending : i.pending with
      | none => simp [hpending] at hr
      | some held' =>
          rw [hpending, Option.getD_some] at hr
          exact (h.window held' hpending).2 p r hr
  lost := h.lost
  bound := h.bound
  shadow := h.shadow

theorem Inv.declareGap (h : i.Inv B) (ready : i.status = .ready) (n : ℕ) :
    ((i.hold rec).declareGap n).Inv B := by
  obtain ⟨r, hr, -, -⟩ := requireSnapshotAtLeast_spec
    { i.hold rec with status := .gap, pending := none } ((i.hold rec).gapRequirement n)
  rw [Instrument.declareGap, hr]
  refine ⟨by rintro ⟨⟩, by rintro held ⟨⟩, fun p hp ↦ ?_, h.bound, h.shadow⟩
  have hlost : i.lostInstrumentSeq = ∅ := (h.ready ready).2
  have hp' : p ∈ i.lostInstrumentSeq := hp
  rw [hlost] at hp'
  exact absurd hp' (Finset.notMem_empty p)

theorem Inv.demote (h : i.Inv B) (ready : i.status = .ready) (n : ℕ) : (i.demote n).Inv B := by
  obtain ⟨r, hr, hn, -⟩ := requireSnapshotAtLeast_spec
    ({ i with status := .gap }.markInstrumentSeqLost n) n
  rw [Instrument.demote, hr]
  refine ⟨by rintro ⟨⟩, by rintro held ⟨⟩, fun p hp ↦ ⟨r, rfl, ?_⟩, h.bound, h.shadow⟩
  have hp' : p ∈ insert n i.lostInstrumentSeq := hp
  rw [(h.ready ready).2] at hp'
  obtain rfl : p = n := by simpa using hp'
  exact hn

/-! ### Catching up -/

/-- The window while it is drained: the expected number itself may be held. -/
structure Draining (B : ℕ) (i : Instrument) : Prop where
  status : i.status = .ready
  required : i.requiredInstrumentSeq = none
  lost : i.lostInstrumentSeq = ∅
  bound : i.lastAppliedInstrumentSeq < B
  shadow : ∀ p, i.openSnapshot = some p → p.lastInstrumentSeq < B
  holds : i.Holds (Bounded B)
  window : ∀ held, i.pending = some held → ∀ (p : ℕ) (r : Record), held[p]? = some r → p ≠ 0 ∧
    (B < 2 ^ 32 → i.nextExpectedInstrumentSeq ≤ p ∧
      p ≤ i.nextExpectedInstrumentSeq + reorderWindow)

/-- Applying the expected record moves the expected number by one. -/
theorem nextExpected_succ {j : Instrument} {n : ℕ} (hlost : j.lostInstrumentSeq = ∅)
    (hlast : j.lastAppliedInstrumentSeq = n) (hn : n < B) (hB : B < 2 ^ 32) :
    j.nextExpectedInstrumentSeq = n + 1 := by
  rw [nextExpected_of_lost_empty hlost, hlast]
  omega

theorem Draining.drainStep (h : i.Draining B) {held : ExtTreeMap ℕ Record} {pr : Record}
    (hheld : i.pending = some held) (hpr : held[i.nextExpectedInstrumentSeq]? = some pr) :
    (i.drainStep held pr).Draining B := by
  obtain ⟨hbound, -, hseq⟩ := h.holds held hheld _ pr hpr
  have hlost : (i.drainStep held pr).lostInstrumentSeq = ∅ := by simp [h.lost]
  refine ⟨by simp [h.status], by simp [h.required], hlost, ?_, by simpa using h.shadow,
    h.holds.drainStep hheld pr, ?_⟩
  · rw [drainStep_lastAppliedInstrumentSeq]
    exact hbound
  · rintro held' hheld' p r hr
    obtain ⟨hne, hr⟩ := drainStep_held hheld' hr
    obtain ⟨hpos, hwindow⟩ := h.window held hheld p r hr
    refine ⟨hpos, fun hB ↦ ?_⟩
    rw [nextExpected_succ hlost (drainStep_lastAppliedInstrumentSeq ..) hbound hB, hseq]
    have := hwindow hB
    omega

theorem Draining.inv_of_stopped (h : i.Draining B) (hstop : ∀ held, i.pending = some held →
    held[i.nextExpectedInstrumentSeq]? = none) : i.Inv B where
  ready := fun _ ↦ ⟨h.required, h.lost⟩
  window := by
    rintro held hheld
    refine ⟨h.status, fun p r hr ↦ ?_⟩
    have hne : p ≠ i.nextExpectedInstrumentSeq := by
      rintro rfl
      rw [hstop held hheld] at hr
      exact absurd hr (by simp)
    obtain ⟨hpos, hwindow⟩ := h.window held hheld p r hr
    refine ⟨hpos, fun hB ↦ ?_⟩
    have := hwindow hB
    omega
  lost := by simp [h.lost]
  bound := h.bound
  shadow := h.shadow

/-- The window right after the expected record was applied. -/
theorem Inv.draining (h : i.Inv B) (ready : i.status = .ready) (hi : i.Holds (Bounded B))
    (own : Bounded B rec) (next : rec.perInstrumentSeq = i.nextExpectedInstrumentSeq) :
    ((i.mutate rec).advance rec).Draining B := by
  have hlost : ((i.mutate rec).advance rec).lostInstrumentSeq = ∅ := by simp [(h.ready ready).2]
  refine ⟨by simpa using ready, by simpa using (h.ready ready).1, hlost, own,
    by simpa using h.shadow, hi.advance_mutate rec, ?_⟩
  rintro held hheld p r hr
  obtain ⟨hpos, hwindow⟩ := (h.window held (by simpa using hheld)).2 p r hr
  refine ⟨hpos, fun hB ↦ ?_⟩
  rw [nextExpected_succ hlost (advance_lastAppliedInstrumentSeq ..) own hB, next]
  have := hwindow hB
  omega

theorem Inv.catchUp (h : i.Inv B) (ready : i.status = .ready) (hi : i.Holds (Bounded B))
    (own : Bounded B rec) (next : rec.perInstrumentSeq = i.nextExpectedInstrumentSeq) :
    (i.catchUp rec).Inv B := by
  have hwf := (hi.advance_mutate rec).wellFormed
  refine Draining.inv_of_stopped ?_ (drainPending_stops _ hwf (le_refl _))
  exact drainPending_induction (P := Draining B)
    (fun _ _ _ hj hheld hpr _ ↦ hj.drainStep hheld hpr) _ hwf (h.draining ready hi own next)

end Instrument

theorem Transition.inv {i i' : Instrument} (h : Transition (Bounded B) i i')
    (hi : i.Holds (Bounded B)) (hinv : i.Inv B) : i'.Inv B := by
  cases h with
  | hold ready own wf ahead near => exact hinv.hold ready ahead near
  | gap ready => exact hinv.declareGap ready _
  | demote ready => exact hinv.demote ready _
  | contiguous ready own wf next => exact hinv.catchUp ready hi own next

/-! ### Snapshots, resets and evictions -/

namespace Instrument

variable {i j : Instrument} {rec : Record}

/-- The invariant reads the status, the trackers, the window and the shadow's number. -/
theorem Inv.congr (h : i.Inv B) (hstatus : j.status = i.status)
    (hrequired : j.requiredInstrumentSeq = i.requiredInstrumentSeq)
    (hlost : j.lostInstrumentSeq = i.lostInstrumentSeq) (hpending : j.pending = i.pending)
    (hlast : j.lastAppliedInstrumentSeq = i.lastAppliedInstrumentSeq)
    (hshadow : ∀ p, j.openSnapshot = some p → p.lastInstrumentSeq < B) : j.Inv B := by
  have hnext : j.nextExpectedInstrumentSeq = i.nextExpectedInstrumentSeq := by
    rw [nextExpectedInstrumentSeq, nextExpectedInstrumentSeq, hlost, hlast]
  refine ⟨?_, ?_, ?_, ?_, hshadow⟩
  · rw [hstatus, hrequired, hlost]
    exact h.ready
  · rw [hpending, hnext, hstatus]
    exact h.window
  · rw [hlost, hrequired]
    exact h.lost
  · rw [hlast]
    exact h.bound

theorem Inv.describe (h : i.Inv B) (d : InstrumentDef) : (i.describe d).Inv B :=
  h.congr rfl rfl rfl rfl rfl h.shadow

theorem Inv.dropShadow (h : i.Inv B) : ({ i with openSnapshot := none } : Instrument).Inv B :=
  h.congr rfl rfl rfl rfl rfl (by rintro p ⟨⟩)

theorem Inv.snapshotBegin (h : i.Inv B) (own : rec.snapshotGroup.lastInstrumentSeq < B) :
    (i.snapshotBegin rec).Inv B := by
  rcases i.snapshotBegin_cases rec with heq | ⟨-, -, -, heq⟩ <;> rw [heq]
  · exact h.congr rfl rfl rfl rfl rfl h.shadow
  · refine h.congr rfl rfl rfl rfl rfl ?_
    rintro p ⟨⟩
    exact own

@[simp] theorem shadowAfter_lastInstrumentSeq (rec : Record) (p : PendingSnapshot) :
    (shadowAfter rec p).lastInstrumentSeq = p.lastInstrumentSeq := by
  simp only [shadowAfter, PendingSnapshot.addLevel]
  split <;> [skip; split] <;> rfl

theorem Inv.snapshotLevel (h : i.Inv B) : (i.snapshotLevel rec).1.Inv B := by
  rw [snapshotLevel_eq]
  refine h.congr rfl rfl rfl rfl rfl fun p hp ↦ ?_
  obtain ⟨p', hp', rfl⟩ := Option.map_eq_some_iff.mp hp
  rw [shadowAfter_lastInstrumentSeq]
  exact h.shadow p' hp'

/-- A commit repairs every loss the instrument knew of. -/
theorem Inv.commit_lost (h : i.Inv B) {p : PendingSnapshot} (hp : i.Committable p rec) :
    (i.commitSnapshot p).lostInstrumentSeq = ∅ := by
  rw [commitSnapshot_lost, Finset.filter_eq_empty_iff]
  intro q hq
  obtain ⟨r, hr, hle⟩ := h.lost q hq
  have := hp.covers r hr
  omega

theorem Inv.snapshotEnd (h : i.Inv B) {p : PendingSnapshot} (hopen : i.openSnapshot = some p) :
    (i.snapshotEnd rec).1.Inv B := by
  cases hend : (i.snapshotEnd rec).2 with
  | some err =>
      rw [snapshotEnd_of_err hend]
      exact h.dropShadow
  | none =>
      have hp := (snapshotEnd_eq_none_iff rec hopen).mp hend
      rw [snapshotEnd_of_commit hopen hp]
      refine ⟨fun _ ↦ ⟨rfl, h.commit_lost hp⟩, by rintro held ⟨⟩, fun q hq ↦ ?_,
        h.shadow p hopen, by rintro p ⟨⟩⟩
      have hq' : q ∈ (i.commitSnapshot p).lostInstrumentSeq := hq
      rw [h.commit_lost hp] at hq'
      exact absurd hq' (Finset.notMem_empty q)

theorem reset_inv (pos : 0 < B) (i : Instrument) (anchor : Option ℕ) :
    (i.reset anchor).Inv B where
  ready := by rintro ⟨⟩
  window := by rintro held ⟨⟩
  lost := by simp [reset]
  bound := pos
  shadow := by rintro p ⟨⟩

theorem Inv.evict (h : i.Inv B) (buf : List BufferedDelta) :
    (Shard.evictInstrument i buf).Inv B := by
  obtain ⟨r, hr, -, hraise⟩ := requireSnapshotAtLeast_spec
    { i with status := .gap, pending := none }
    (Shard.highestSeq ((i.lastAppliedInstrumentSeq + 1) % 2 ^ 32) buf)
  rw [Shard.evictInstrument, hr]
  refine ⟨by rintro ⟨⟩, by rintro held ⟨⟩, fun p hp ↦ ?_, h.bound, h.shadow⟩
  obtain ⟨r', hr', hle⟩ := h.lost p hp
  exact ⟨r, rfl, hle.trans (hraise r' hr')⟩

end Instrument

/-! ## One view -/

theorem sortedBy_insertDelta {buf : List BufferedDelta}
    (h : SortedBy BufferedDelta.mktdataSeq buf) (d : BufferedDelta) :
    SortedBy BufferedDelta.mktdataSeq (Shard.insertDelta buf d) := by
  rw [Shard.insertDelta]
  split
  · exact h.splice d
  next hlast =>
    refine h.concat fun b hb ↦ ?_
    by_contra hlt
    exact hlast ⟨b, hb, not_le.mp hlt⟩

/-- The structural invariant, seen from one instrument. -/
structure View.Inv (B id : ℕ) (v : View) : Prop where
  inst : ∀ i, v.inst = some i → i.Inv B ∧ i.id = id
  sorted : ∀ buf, v.buf = some buf → SortedBy BufferedDelta.mktdataSeq buf
  idle : ∀ i, v.inst = some i → i.status = .ready → v.buf = none

/-- The numbers a message carries are below the bound. -/
def ShardMsg.Bounded (B : ℕ) : ShardMsg → Prop
  | .record rec => (rec.isDelta → MarketByPrice.Bounded B rec) ∧
      (rec.type = .snapshotBegin → rec.snapshotGroup.lastInstrumentSeq < B)
  | _ => True

instance (msg : ShardMsg) : Decidable (msg.Bounded B) :=
  match msg with
  | .record rec =>
      inferInstanceAs (Decidable ((rec.isDelta = true → rec.perInstrumentSeq < B) ∧
        (rec.type = .snapshotBegin → rec.snapshotGroup.lastInstrumentSeq < B)))
  | .reset _ | .fence | .manifestPrune _ | .clearShadows => inferInstanceAs (Decidable True)

/-- Every number is a 32-bit one. -/
theorem ShardMsg.bounded (msg : ShardMsg) : msg.Bounded (2 ^ 32) :=
  match msg with
  | .record rec => ⟨fun _ ↦ rec.perInstrumentSeq_lt, fun _ ↦ toUint32_lt _⟩
  | .reset _ | .fence | .manifestPrune _ | .clearShadows => trivial

namespace View

variable {id : ℕ} {v v' : View}

theorem Inv.empty : View.empty.Inv B id where
  inst := by rintro i ⟨⟩
  sorted := by rintro buf ⟨⟩
  idle := by rintro i ⟨⟩

theorem Inv.instrumentFor (pos : 0 < B) (h : v.Inv B id) :
    (v.instrumentFor id).Inv B ∧ (v.instrumentFor id).id = id := by
  rw [View.instrumentFor]
  split
  next i hi => exact h.inst i hi
  next => exact ⟨Instrument.new_inv pos .., rfl⟩

/-- A fresh instrument is not ready. -/
theorem instrumentFor_ready (ready : (v.instrumentFor id).status = .ready) :
    v.inst = some (v.instrumentFor id) := by
  rw [View.instrumentFor] at ready ⊢
  cases hinst : v.inst with
  | some i => rfl
  | none => simp [hinst, Instrument.new] at ready

theorem Inv.getD (h : v.Inv B id) : SortedBy BufferedDelta.mktdataSeq (v.buf.getD []) := by
  cases hbuf : v.buf with
  | none => exact List.Pairwise.nil
  | some buf => exact h.sorted buf hbuf

theorem Move.inv (pos : 0 < B) (hmove : Move (Bounded B) id v v') (hv : v.Holds (Bounded B)) (h : v.Inv B id) :
    v'.Inv B id := by
  cases hmove with
  | @turn i i' here transition =>
      obtain ⟨hi, hid⟩ := h.inst i here
      refine ⟨?_, h.sorted, ?_⟩
      · rintro j ⟨⟩
        exact ⟨transition.inv (hv.pending i here) hi, (transition.id (hv.pending i here)).trans hid⟩
      · rintro j ⟨⟩ -
        refine h.idle i here ?_
        cases transition <;> assumption
  | buffer own idle =>
      refine ⟨h.inst, ?_, fun i hi ready ↦ absurd ready (idle i hi)⟩
      rintro buf ⟨⟩
      exact sortedBy_insertDelta h.getD _
  | evict here =>
      refine ⟨?_, by rintro buf ⟨⟩, fun _ _ _ ↦ rfl⟩
      rintro j ⟨⟩
      exact ⟨(h.instrumentFor pos).1.evict _, by simpa using (h.instrumentFor pos).2⟩

theorem Inv.record (pos : 0 < B) (h : v.Inv B id) {rec : Record}
    (own : rec.type = .snapshotBegin → rec.snapshotGroup.lastInstrumentSeq < B) :
    (v.record id rec).Inv B id := by
  rw [View.record]
  split
  · refine ⟨?_, h.sorted, ?_⟩
    · rintro j ⟨⟩
      cases hinst : v.inst with
      | none => exact ⟨Instrument.new_inv pos .., rfl⟩
      | some i => exact ⟨(h.inst i hinst).1.describe _, (h.inst i hinst).2⟩
    · rintro j ⟨⟩ ready
      cases hinst : v.inst with
      | none => simp [hinst, Instrument.new] at ready
      | some i => exact h.idle i hinst (by simpa [hinst, Instrument.describe] using ready)
  · exact ⟨h.inst, h.sorted, h.idle⟩
  next htype =>
    refine ⟨?_, h.sorted, ?_⟩
    · rintro j ⟨⟩
      exact ⟨(h.instrumentFor pos).1.snapshotBegin (own htype), by simpa using (h.instrumentFor pos).2⟩
    · rintro j ⟨⟩ ready
      exact h.idle _ (instrumentFor_ready (by simpa using ready)) (by simpa using ready)
  · refine ⟨fun j hj ↦ ?_, h.sorted, fun j hj ready ↦ ?_⟩
    · obtain ⟨i, hi, rfl⟩ := Option.map_eq_some_iff.mp hj
      exact ⟨(h.inst i hi).1.snapshotLevel, by simpa using (h.inst i hi).2⟩
    · obtain ⟨i, hi, rfl⟩ := Option.map_eq_some_iff.mp hj
      exact h.idle i hi (by simpa using ready)
  · cases hinst : v.inst with
    | none => exact h
    | some i =>
        cases hopen : i.openSnapshot with
        | none => simpa [hopen] using h
        | some p =>
            obtain ⟨hi, hid⟩ := h.inst i hinst
            simp only [hopen, Option.isNone_some, Bool.false_eq_true, if_false]
            cases hend : (i.snapshotEnd rec).2 with
            | some err =>
                refine ⟨?_, h.sorted, ?_⟩
                · rintro j ⟨⟩
                  exact ⟨hi.snapshotEnd hopen, by rw [Instrument.snapshotEnd_of_err hend, ← hid]⟩
                · rintro j ⟨⟩ ready
                  rw [Instrument.snapshotEnd_of_err hend] at ready
                  exact h.idle i hinst ready
            | none =>
                refine ⟨?_, by rintro buf ⟨⟩, fun _ _ _ ↦ rfl⟩
                rintro j ⟨⟩
                refine ⟨hi.snapshotEnd hopen, ?_⟩
                rw [Instrument.snapshotEnd_of_commit hopen
                  ((Instrument.snapshotEnd_eq_none_iff rec hopen).mp hend), ← hid]
                rfl
  · refine ⟨?_, fun buf hbuf ↦ ?_, ?_⟩
    · rintro j ⟨⟩
      exact ⟨Instrument.reset_inv pos .., (h.instrumentFor pos).2⟩
    · dsimp only at hbuf
      split at hbuf
      · exact absurd hbuf (by simp)
      · obtain rfl := Option.some.inj hbuf
        exact h.getD.sublist List.filter_sublist
    · rintro j ⟨⟩ ready
      exact absurd ready (by simp [Instrument.reset])
  · exact h

theorem Inv.act {k : InstKey} (pos : 0 < B) (h : v.Inv B k.id) {msg : ShardMsg} (own : msg.Bounded B) :
    (v.act k msg).Inv B k.id := by
  cases msg with
  | record rec =>
      rw [View.act]
      split
      · exact h.record pos own.2
      · exact h
  | reset ch =>
      rw [View.act]
      split
      · exact Inv.empty
      · exact h
  | fence => exact h
  | manifestPrune seq =>
      rw [View.act]
      split
      · exact Inv.empty
      · exact h
  | clearShadows =>
      refine ⟨fun j hj ↦ ?_, h.sorted, fun j hj ready ↦ ?_⟩
      · obtain ⟨i, hi, rfl⟩ := Option.map_eq_some_iff.mp hj
        exact ⟨(h.inst i hi).1.dropShadow, (h.inst i hi).2⟩
      · obtain ⟨i, hi, rfl⟩ := Option.map_eq_some_iff.mp hj
        exact h.idle i hi ready

end View

/-! ## The whole shard -/

/-- **The structural invariant of a shard.** -/
structure Shard.StructuralInv (s : Shard) : Prop where
  total : s.bufferedN = tally List.length s.deltaBuf
  budget : s.bufferedN ≤ s.maxBuffered
  sorted : ∀ (k : InstKey) (buf : List BufferedDelta), s.deltaBuf[k]? = some buf →
    SortedBy BufferedDelta.mktdataSeq buf
  ready : ∀ (k : InstKey) (i : Instrument), s.instruments[k]? = some i → i.status = .ready →
    s.deltaBuf[k]? = none ∧ i.requiredInstrumentSeq = none ∧ i.lostInstrumentSeq = ∅
  window : ∀ (k : InstKey) (i : Instrument) (held : ExtTreeMap ℕ Record),
    s.instruments[k]? = some i → i.pending = some held → i.status = .ready ∧
      ∀ p ∈ held, i.nextExpectedInstrumentSeq < p ∧
        p ≤ i.nextExpectedInstrumentSeq + reorderWindow
  lost : ∀ (k : InstKey) (i : Instrument), s.instruments[k]? = some i →
    ∀ p ∈ i.lostInstrumentSeq, ∃ r, i.requiredInstrumentSeq = some r ∧ p ≤ r

namespace Shard

/-- Every instrument of every reachable shard satisfies its part of the invariant. -/
theorem run_inv (pos : 0 < B) (maxBuffered : ℤ) (symbols : Option (List String))
    {as : List Turn} (own : ∀ a ∈ as, a.2.Bounded B) (k : InstKey) :
    ((run step (new maxBuffered symbols) as).view k).Inv B k.id := by
  refine run_view (Q := fun _ ↦ Bounded B) (P := fun _ v ↦ v.Inv B k.id)
    (fun k ↦ new_holds maxBuffered symbols (Bounded B) k) (fun a ha rec hrec ↦ ?_) ?_ ?_ ?_
  · have hown := own a ha
    rw [hrec] at hown
    exact hown.1
  · rw [new_view]
    exact View.Inv.empty
  · intro pre a v hpre hv hinv
    exact hinv.act pos (own a (hpre.subset (by simp)))
  · intro pre v v' hpre hmove hv hinv
    exact hmove.inv pos hv hinv

/-- In every state reachable by records, prunes, channel resets, fences and shadow clears the
structural invariant holds, while the numbers stay clear of the wrap. -/
theorem structuralInv_run {maxBuffered : ℤ} (symbols : Option (List String)) {as : List Turn}
    (budget : 1 ≤ maxBuffered) (own : ∀ a ∈ as, a.2.Bounded (2 ^ 32 - 1)) :
    (run step (new maxBuffered symbols) as).StructuralInv := by
  have hinv := run_inv (by decide) maxBuffered symbols own
  have hacc := run_accounted symbols (Int.le_of_lt budget) as
  refine ⟨hacc.total, hacc.budget, fun k buf hbuf ↦ (hinv k).sorted buf hbuf,
    fun k i hi ready ↦ ?_, fun k i held hi hheld ↦ ?_, fun k i hi p hp ↦ ?_⟩
  · exact ⟨(hinv k).idle i hi ready, ((hinv k).inst i hi).1.ready ready⟩
  · obtain ⟨ready, hwindow⟩ := ((hinv k).inst i hi).1.window held hheld
    refine ⟨ready, fun p hp ↦ ?_⟩
    obtain ⟨r, hr⟩ := Option.isSome_iff_exists.mp (ExtTreeMap.mem_iff_isSome_getElem?.mp hp)
    exact (hwindow p r hr).2 (by decide)
  · exact ((hinv k).inst i hi).1.lost p hp

/-- Two instruments through a commit, a held delta and a buffered one, with a budget of one. -/
theorem structuralInv_run_two :
    (run step (new 1 none) ([.record (instDefRec ⟨0, 11⟩ "BTC" 5),
      .record (levelUpdateRec ⟨0, 11⟩ 40 7 .bid 900 3), .record (snapBeginRec ⟨0, 11⟩ 1 1 7 40),
      .record (snapLevelRec ⟨0, 11⟩ 1 .bid 900 3), .record (snapEndRec ⟨0, 11⟩ 1 40),
      .record (levelUpdateRec ⟨0, 11⟩ 42 9 .ask 1000 2),
      .record (levelUpdateRec ⟨0, 12⟩ 43 1 .ask 1000 2),
      .manifestPrune 3, .clearShadows].map fun msg ↦ (default, msg))).StructuralInv :=
  structuralInv_run none (by decide) (by decide)

end Shard

/-!
## The reorder window at a commit

A commit drops the whole reorder window of a ready instrument.  What the snapshot covers is in the
book it brings; a held delta behind the snapshot is neither applied nor kept
(`commit_keeps_iff`).
-/

namespace Shard

variable {k : InstKey} {i : Instrument} {p : PendingSnapshot} {e : Record}

/-- A delta has been applied, or is still held for the instrument. -/
def AppliedOrHeld (k : InstKey) (r : Record) (after : Shard × List ChannelEvent) : Prop :=
  (∃ ev ∈ after.2, ev.kind = .appliedDelta ∧ ev.record = r) ∨
  (∃ j, after.1.instruments[k]? = some j ∧
    ∃ (held : ExtTreeMap ℕ Record) (n : ℕ), j.pending = some held ∧ held[n]? = some r) ∨
  ∃ b ∈ after.1.buffered k, b.record = r

/-- What is claimed of a commit: no held delta behind the snapshot is lost. -/
def KeepsUncovered (k : InstKey) (i : Instrument) (last : ℕ)
    (after : Shard × List ChannelEvent) : Prop :=
  ∀ (n : ℕ) (r : Record), (i.pending.getD ∅)[n]? = some r → last < n → AppliedOrHeld k r after

/-- A commit on a ready instrument reports itself and leaves nothing held. -/
theorem commit_ready {maxBuffered : ℤ} {symbols : Option (List String)} {past : List Turn}
    (σ : Choices)
    (here : (run step (new maxBuffered symbols) past).instruments[k]? = some i)
    (ready : i.status = .ready) (hopen : i.openSnapshot = some p) (commit : i.Committable p e)
    (r : Record) :
    ¬AppliedOrHeld k r ((run step (new maxBuffered symbols) past).applySnapshotEnd σ k e) := by
  have hinv : ((run step (new maxBuffered symbols) past).view k).Inv (2 ^ 32) k.id :=
    run_inv (by decide) maxBuffered symbols (fun b _ ↦ b.2.bounded) k
  generalize run step (new maxBuffered symbols) past = s at here hinv ⊢
  have hbuf : s.deltaBuf[k]? = none := hinv.idle i here ready
  have hbuffered : s.buffered k = [] := by
    rw [buffered, hbuf]
    rfl
  have hend := (Instrument.snapshotEnd_eq_none_iff e hopen).mpr commit
  rcases s.applySnapshotEnd_cases σ k e with
    ⟨hnone, -⟩ | ⟨i', p', hinst, hopen', ⟨err, herr, -⟩ | ⟨-, evs, hevs, heq⟩⟩
  · rw [hnone i here] at hopen
    cases hopen
  · obtain rfl : i = i' := Option.some.inj (here.symm.trans hinst)
    rw [hend] at herr
    cases herr
  · obtain rfl : i = i' := Option.some.inj (here.symm.trans hinst)
    have hreplay : (s.setInst k (i.snapshotEnd e).1).replayBuffer σ k =
        ((s.setInst k (i.snapshotEnd e).1).takeBuffer k, []) := by
      have hempty : (s.setInst k (i.snapshotEnd e).1).buffered k = [] := hbuffered
      rw [replayBuffer, hempty, replayLoop]
    have hview : (s.applySnapshotEnd σ k e).1.view k =
        { s.view k with inst := some (i.snapshotEnd e).1, buf := none } := by
      rw [heq, hreplay, view_noteConsistencyPoint, view_takeBuffer, if_pos rfl, view_setInst,
        if_pos rfl]
    rintro (⟨ev, hev, hkind, -⟩ | ⟨j, hj, held', n, hheld, -⟩ | ⟨b, hb, -⟩)
    · rw [heq, hevs, hreplay] at hev
      obtain rfl := List.mem_singleton.mp hev
      cases hkind
    · have hj' : ((s.applySnapshotEnd σ k e).1.view k).inst = some j := hj
      rw [hview] at hj'
      obtain rfl := Option.some.inj hj'
      rw [Instrument.snapshotEnd_of_commit hopen commit] at hheld
      cases hheld
    · have hnone : ((s.applySnapshotEnd σ k e).1.view k).buf = none := by rw [hview]
      have hempty : (s.applySnapshotEnd σ k e).1.buffered k = [] := by
        rw [buffered, show (s.applySnapshotEnd σ k e).1.deltaBuf[k]? = none from hnone]
        rfl
      rw [hempty] at hb
      cases hb

/-- **What a commit keeps.**  In every reachable state, a commit on a ready instrument loses no held
delta behind its snapshot exactly when there is none. -/
theorem commit_keeps_iff {maxBuffered : ℤ} {symbols : Option (List String)} {past : List Turn}
    (σ : Choices)
    (here : (run step (new maxBuffered symbols) past).instruments[k]? = some i)
    (ready : i.status = .ready) (hopen : i.openSnapshot = some p) (commit : i.Committable p e) :
    KeepsUncovered k i p.lastInstrumentSeq
        ((run step (new maxBuffered symbols) past).applySnapshotEnd σ k e) ↔
      ∀ n ∈ i.pending.getD ∅, n ≤ p.lastInstrumentSeq := by
  constructor
  · intro hkeeps n hn
    obtain ⟨r, hr⟩ := Option.isSome_iff_exists.mp (ExtTreeMap.mem_iff_isSome_getElem?.mp hn)
    by_contra hlt
    exact commit_ready σ here ready hopen commit r (hkeeps n r hr (not_le.mp hlt))
  · intro hcovered n r hr hlt
    have hn : n ∈ i.pending.getD ∅ := ExtTreeMap.mem_iff_isSome_getElem?.mpr (by rw [hr]; rfl)
    exact absurd (hcovered n hn) (not_le.mpr hlt)

/-! ### A window that the snapshot covers, and one that it cuts in two -/

/-- A ready instrument at five holds seven and nine, when a snapshot for `last` is open. -/
def heldTwo (last : ℤ) : List Turn :=
  [.record (instDefRec ⟨0, 11⟩ "BTC" 5), .record (snapBeginRec ⟨0, 11⟩ 1 0 5 40),
    .record (snapEndRec ⟨0, 11⟩ 1 40), .record (levelUpdateRec ⟨0, 11⟩ 42 7 .bid 900 3),
    .record (levelUpdateRec ⟨0, 11⟩ 44 9 .ask 901 4),
    .record (snapBeginRec ⟨0, 11⟩ 2 0 last 45)].map fun msg ↦ (default, msg)

theorem heldTwo_state (last : ℤ) (h : last = 7 ∨ last = 9) :
    ∃ i p, (run step (new 10 none) (heldTwo last)).instruments[(⟨0, 11⟩ : InstKey)]? = some i ∧
      i.status = .ready ∧ (i.pending.getD ∅).keys = [7, 9] ∧ i.openSnapshot = some p ∧
      i.Committable p (snapEndRec ⟨0, 11⟩ 2 45) ∧ (p.lastInstrumentSeq : ℤ) = last := by
  have hstate : ((run step (new 10 none) (heldTwo last)).instruments[(⟨0, 11⟩ : InstKey)]?).any
      (fun i ↦ i.openSnapshot.any fun p ↦ decide
        (i.status = .ready ∧ (i.pending.getD ∅).keys = [7, 9] ∧
          i.Committable p (snapEndRec ⟨0, 11⟩ 2 45) ∧ (p.lastInstrumentSeq : ℤ) = last)) = true := by
    rcases h with rfl | rfl <;> decide +kernel
  simp only [Option.any_eq_true, decide_eq_true_iff] at hstate
  obtain ⟨i, hi, p, hp, ready, hkeys, hcommit, hlast⟩ := hstate
  exact ⟨i, p, hi, ready, hkeys, hp, hcommit, hlast⟩

theorem commit_keeps_iff_covered :
    ∃ i p, (run step (new 10 none) (heldTwo 9)).instruments[(⟨0, 11⟩ : InstKey)]? = some i ∧
      (i.pending.getD ∅).keys = [7, 9] ∧ i.openSnapshot = some p ∧
      KeepsUncovered ⟨0, 11⟩ i p.lastInstrumentSeq
        ((run step (new 10 none) (heldTwo 9)).applySnapshotEnd default ⟨0, 11⟩
          (snapEndRec ⟨0, 11⟩ 2 45)) := by
  obtain ⟨i, p, hi, ready, hkeys, hp, hcommit, hlast⟩ := heldTwo_state 9 (.inr rfl)
  refine ⟨i, p, hi, hkeys, hp, (commit_keeps_iff default hi ready hp hcommit).mpr ?_⟩
  intro n hn
  rw [← ExtTreeMap.mem_keys, hkeys] at hn
  simp only [List.mem_cons, List.not_mem_nil, or_false] at hn
  omega

/-- The snapshot covers seven and not nine, which is gone. -/
theorem commit_drops_nine :
    ∃ i p, (run step (new 10 none) (heldTwo 7)).instruments[(⟨0, 11⟩ : InstKey)]? = some i ∧
      i.status = .ready ∧ (i.pending.getD ∅).keys = [7, 9] ∧ i.openSnapshot = some p ∧
      i.Committable p (snapEndRec ⟨0, 11⟩ 2 45) ∧
      ¬KeepsUncovered ⟨0, 11⟩ i p.lastInstrumentSeq
        ((run step (new 10 none) (heldTwo 7)).applySnapshotEnd default ⟨0, 11⟩
          (snapEndRec ⟨0, 11⟩ 2 45)) := by
  obtain ⟨i, p, hi, ready, hkeys, hp, hcommit, hlast⟩ := heldTwo_state 7 (.inl rfl)
  refine ⟨i, p, hi, ready, hkeys, hp, hcommit, fun hkeeps ↦ ?_⟩
  have hn : 9 ∈ i.pending.getD ∅ := by
    rw [← ExtTreeMap.mem_keys, hkeys]
    exact List.mem_cons_of_mem _ List.mem_cons_self
  obtain ⟨r, hr⟩ := Option.isSome_iff_exists.mp (ExtTreeMap.mem_iff_isSome_getElem?.mp hn)
  exact commit_ready default hi ready hp hcommit r (hkeeps 9 r hr (by omega))

end Shard

end EdgeMulticast.MarketByPrice
