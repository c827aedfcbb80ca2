import EdgeMulticast.MarketByPrice.Sequencing
import Mathlib.Logic.Relation

/-!
# What a shard does to its instruments, one move at a time

Every invariant of the book-builder is about one instrument and its buffer, and every operation
of a shard is a short list of the same few moves.  This file says once which moves there are
and shows that each operation takes no others; an invariant then has one small case for a move.

* `Transition` is what the classification of a delta does to a ready instrument.
* `Work` is one write of a shard on behalf of the instrument it is serving: a transition, or a
  delta put in the buffer of an instrument that is not ready.
* `Move` is what either looks like from one instrument, which also sees its own buffer evicted
  while the shard serves another.

The moves carry a property `Q` of the deltas they involve.  A shard that holds only deltas
satisfying `Q` for an instrument, and is given only such, takes only such moves.
-/

namespace EdgeMulticast.MarketByPrice

open Std (ExtTreeMap)
open EdgeMulticast.Lib

variable {Q : Record → Prop}

/-! ## Transitions of a ready instrument -/

namespace Instrument

/-- Apply a contiguous record and drain what it frees. -/
def catchUp (i : Instrument) (rec : Record) : Instrument :=
  let j := (i.mutate rec).advance rec
  (j.drainPending j.pendingSize).1

end Instrument

/-- What the classification of a delta does to a ready instrument. -/
inductive Transition (Q : Record → Prop) : Instrument → Instrument → Prop
  | /-- The delta is ahead, within the reorder window. -/
    hold {i rec} (ready : i.status = .ready) (own : Q rec) (wf : malformedRecord rec = none)
      (ahead : i.nextExpectedInstrumentSeq < rec.perInstrumentSeq)
      (near : rec.perInstrumentSeq - i.nextExpectedInstrumentSeq ≤ reorderWindow) :
      Transition Q i (i.hold rec)
  | /-- The delta is ahead, beyond the reorder window. -/
    gap {i rec} (ready : i.status = .ready) (own : Q rec) (wf : malformedRecord rec = none)
      (ahead : i.nextExpectedInstrumentSeq < rec.perInstrumentSeq) :
      Transition Q i ((i.hold rec).declareGap rec.perInstrumentSeq)
  | /-- The delta is malformed, and its number will never be applied. -/
    demote {i rec} (ready : i.status = .ready) (own : Q rec)
      (malformed : malformedRecord rec ≠ none) :
      Transition Q i (i.demote rec.perInstrumentSeq)
  | /-- The delta is the expected one. -/
    contiguous {i rec} (ready : i.status = .ready) (own : Q rec)
      (wf : malformedRecord rec = none)
      (next : rec.perInstrumentSeq = i.nextExpectedInstrumentSeq) :
      Transition Q i (i.catchUp rec)

/-! ## What is held -/

/-- Every record in the reorder window is well-formed, satisfies `Q`, and stands under its own
number. -/
def Instrument.Holds (Q : Record → Prop) (i : Instrument) : Prop :=
  ∀ held, i.pending = some held → ∀ (p : ℕ) (r : Record), held[p]? = some r →
    Q r ∧ malformedRecord r = none ∧ r.perInstrumentSeq = p

/-- Every buffered record satisfies `Q` and is filed under its own datagram. -/
def BufferHolds (Q : Record → Prop) (buf : List BufferedDelta) : Prop :=
  ∀ b ∈ buf, Q b.record ∧ b.mktdataSeq = b.record.sequenceNumber

namespace Instrument

theorem Holds.wellFormed {i : Instrument} (h : i.Holds Q) : i.HeldWellFormed :=
  fun held hheld p r hr ↦ (h held hheld p r hr).2.1

theorem Holds.of_none {i : Instrument} (h : i.pending = none) : i.Holds Q := by
  intro held hheld
  rw [h] at hheld
  exact absurd hheld (by simp)

theorem Holds.congr {i j : Instrument} (h : i.Holds Q) (hpending : j.pending = i.pending) :
    j.Holds Q := by
  intro held hheld
  exact h held (hpending ▸ hheld)

/-- The records to look through when the window is dropped. -/
theorem Holds.getD {i : Instrument} (h : i.Holds Q) {p : ℕ} {r : Record}
    (hr : (i.pending.getD ∅)[p]? = some r) :
    Q r ∧ malformedRecord r = none ∧ r.perInstrumentSeq = p := by
  cases hpending : i.pending with
  | none =>
      rw [hpending, Option.getD_none] at hr
      exact absurd hr (by simp)
  | some held =>
      rw [hpending, Option.getD_some] at hr
      exact h held hpending p r hr

theorem Holds.hold {i : Instrument} (h : i.Holds Q) {rec : Record} (own : Q rec)
    (wf : malformedRecord rec = none) : (i.hold rec).Holds Q := by
  intro held hheld p r hr
  obtain rfl : (i.pending.getD ∅).insert rec.perInstrumentSeq rec = held := by
    simpa [Instrument.hold] using hheld
  rw [getElem?_insert_eq] at hr
  split at hr
  next hp =>
      obtain rfl := Option.some.inj hr
      exact ⟨own, wf, hp⟩
  next => exact h.getD hr

theorem Holds.drainStep {i : Instrument} (h : i.Holds Q) {held : ExtTreeMap ℕ Record}
    (hheld : i.pending = some held) (pr : Record) : (i.drainStep held pr).Holds Q :=
  fun _ hheld' p r hr ↦ h held hheld p r (drainStep_held hheld' hr).2

theorem Holds.drainPending {i : Instrument} (h : i.Holds Q) (fuel : ℕ) :
    (i.drainPending fuel).1.Holds Q :=
  drainPending_induction (P := Holds Q) (fun _ _ pr hi hheld _ _ ↦ hi.drainStep hheld pr) fuel
    h.wellFormed h

theorem Holds.advance_mutate {i : Instrument} (h : i.Holds Q) (rec : Record) :
    ((i.mutate rec).advance rec).Holds Q := h.congr (by simp)

theorem Holds.catchUp {i : Instrument} (h : i.Holds Q) (rec : Record) :
    (i.catchUp rec).Holds Q := (h.advance_mutate rec).drainPending _

/-! ### What each demotion leaves -/

/-- A requirement only rises, and covers what it was raised for. -/
theorem requireSnapshotAtLeast_spec (i : Instrument) (n : ℕ) :
    ∃ r, i.requireSnapshotAtLeast n = { i with requiredInstrumentSeq := some r } ∧ n ≤ r ∧
      ∀ r', i.requiredInstrumentSeq = some r' → r' ≤ r := by
  simp only [requireSnapshotAtLeast]
  cases hr : i.requiredInstrumentSeq with
  | none => exact ⟨n, rfl, le_refl n, by simp⟩
  | some r =>
      dsimp only
      split
      next hle =>
        refine ⟨r, ?_, hle, by simp⟩
        rw [← hr]
      next hlt =>
        refine ⟨n, rfl, le_refl n, ?_⟩
        rintro r' ⟨⟩
        omega

section

variable (i : Instrument) (n : ℕ)

@[simp] theorem requireSnapshotAtLeast_id : (i.requireSnapshotAtLeast n).id = i.id := by
  obtain ⟨r, hr, -⟩ := i.requireSnapshotAtLeast_spec n
  rw [hr]

@[simp] theorem requireSnapshotAtLeast_status :
    (i.requireSnapshotAtLeast n).status = i.status := by
  obtain ⟨r, hr, -⟩ := i.requireSnapshotAtLeast_spec n
  rw [hr]

@[simp] theorem requireSnapshotAtLeast_pending :
    (i.requireSnapshotAtLeast n).pending = i.pending := by
  obtain ⟨r, hr, -⟩ := i.requireSnapshotAtLeast_spec n
  rw [hr]

@[simp] theorem requireSnapshotAtLeast_lost :
    (i.requireSnapshotAtLeast n).lostInstrumentSeq = i.lostInstrumentSeq := by
  obtain ⟨r, hr, -⟩ := i.requireSnapshotAtLeast_spec n
  rw [hr]

@[simp] theorem requireSnapshotAtLeast_openSnapshot :
    (i.requireSnapshotAtLeast n).openSnapshot = i.openSnapshot := by
  obtain ⟨r, hr, -⟩ := i.requireSnapshotAtLeast_spec n
  rw [hr]

@[simp] theorem declareGap_id : (i.declareGap n).id = i.id := by simp [declareGap]

@[simp] theorem declareGap_status : (i.declareGap n).status = .gap := by simp [declareGap]

@[simp] theorem declareGap_pending : (i.declareGap n).pending = none := by simp [declareGap]

@[simp] theorem declareGap_lost :
    (i.declareGap n).lostInstrumentSeq = i.lostInstrumentSeq := by simp [declareGap]

@[simp] theorem declareGap_openSnapshot :
    (i.declareGap n).openSnapshot = i.openSnapshot := by simp [declareGap]

@[simp] theorem demote_id : (i.demote n).id = i.id := by simp [demote, markInstrumentSeqLost]

@[simp] theorem demote_status : (i.demote n).status = .gap := by
  simp [demote, markInstrumentSeqLost]

@[simp] theorem demote_pending : (i.demote n).pending = none := rfl

@[simp] theorem demote_openSnapshot : (i.demote n).openSnapshot = i.openSnapshot := by
  simp [demote, markInstrumentSeqLost]

@[simp] theorem evictInstrument_id (buf : List BufferedDelta) :
    (Shard.evictInstrument i buf).id = i.id := by simp [Shard.evictInstrument]

@[simp] theorem evictInstrument_status (buf : List BufferedDelta) :
    (Shard.evictInstrument i buf).status = .gap := by simp [Shard.evictInstrument]

@[simp] theorem evictInstrument_pending (buf : List BufferedDelta) :
    (Shard.evictInstrument i buf).pending = none := by simp [Shard.evictInstrument]

@[simp] theorem evictInstrument_lost (buf : List BufferedDelta) :
    (Shard.evictInstrument i buf).lostInstrumentSeq = i.lostInstrumentSeq := by
  simp [Shard.evictInstrument]

@[simp] theorem evictInstrument_openSnapshot (buf : List BufferedDelta) :
    (Shard.evictInstrument i buf).openSnapshot = i.openSnapshot := by simp [Shard.evictInstrument]

end

/-- Catching up stays on the same instrument. -/
theorem Holds.catchUp_id {i : Instrument} (h : i.Holds Q) (rec : Record) :
    (i.catchUp rec).id = i.id :=
  drainPending_induction (P := fun j ↦ j.id = i.id)
    (fun _ _ _ hj _ _ _ ↦ (drainStep_id ..).trans hj) _ (h.advance_mutate rec).wellFormed
    (by simp)

theorem Holds.catchUp_openSnapshot {i : Instrument} (h : i.Holds Q) (rec : Record) :
    (i.catchUp rec).openSnapshot = i.openSnapshot :=
  drainPending_induction (P := fun j ↦ j.openSnapshot = i.openSnapshot)
    (fun _ _ _ hj _ _ _ ↦ (drainStep_openSnapshot ..).trans hj) _ (h.advance_mutate rec).wellFormed
    (by simp)

end Instrument

theorem Transition.id {i i' : Instrument} (h : Transition Q i i') (hi : i.Holds Q) :
    i'.id = i.id := by
  cases h with
  | hold => rfl
  | gap => exact Instrument.declareGap_id ..
  | demote => exact Instrument.demote_id ..
  | contiguous => exact hi.catchUp_id _

/-- Classifying a delta leaves the shadow alone. -/
theorem Transition.openSnapshot {i i' : Instrument} (h : Transition Q i i') (hi : i.Holds Q) :
    i'.openSnapshot = i.openSnapshot := by
  cases h with
  | hold => rfl
  | gap => exact Instrument.declareGap_openSnapshot ..
  | demote => exact Instrument.demote_openSnapshot ..
  | contiguous => exact hi.catchUp_openSnapshot _

theorem Transition.holds {i i' : Instrument} (h : Transition Q i i') (hi : i.Holds Q) :
    i'.Holds Q := by
  cases h with
  | hold _ own wf => exact hi.hold own wf
  | gap => exact Instrument.Holds.of_none (by simp)
  | demote => exact Instrument.Holds.of_none (by simp)
  | contiguous => exact hi.catchUp _

/-! ## Lookups in an updated shard -/

namespace Shard

theorem getElem?_setInst (s : Shard) (k k' : InstKey) (i : Instrument) :
    (s.setInst k i).instruments[k']? = if k = k' then some i else s.instruments[k']? :=
  getElem?_insert_eq ..

@[simp] theorem setInst_self (s : Shard) (k : InstKey) (i : Instrument) :
    (s.setInst k i).instruments[k]? = some i := by
  rw [getElem?_setInst, if_pos rfl]

@[simp] theorem setInst_deltaBuf (s : Shard) (k : InstKey) (i : Instrument) :
    (s.setInst k i).deltaBuf = s.deltaBuf := rfl

@[simp] theorem setInst_refdata (s : Shard) (k : InstKey) (i : Instrument) :
    (s.setInst k i).refdata = s.refdata := rfl

@[simp] theorem setInst_bufferedN (s : Shard) (k : InstKey) (i : Instrument) :
    (s.setInst k i).bufferedN = s.bufferedN := rfl

@[simp] theorem setInst_maxBuffered (s : Shard) (k : InstKey) (i : Instrument) :
    (s.setInst k i).maxBuffered = s.maxBuffered := rfl

@[simp] theorem setInst_overflows (s : Shard) (k : InstKey) (i : Instrument) :
    (s.setInst k i).overflows = s.overflows := rfl

/-- `instrumentFor` writes the instrument it answers, if it writes at all. -/
theorem instrumentFor_fst (s : Shard) (k : InstKey) :
    (s.instrumentFor k).1 = s ∨ (s.instrumentFor k).1 = s.setInst k (s.instrumentFor k).2 := by
  rw [instrumentFor]
  split
  · exact Or.inl rfl
  · exact Or.inr rfl

@[simp] theorem instrumentFor_deltaBuf (s : Shard) (k : InstKey) :
    (s.instrumentFor k).1.deltaBuf = s.deltaBuf := by
  rcases s.instrumentFor_fst k with h | h <;> simp [h]

@[simp] theorem instrumentFor_refdata (s : Shard) (k : InstKey) :
    (s.instrumentFor k).1.refdata = s.refdata := by
  rcases s.instrumentFor_fst k with h | h <;> simp [h]

@[simp] theorem instrumentFor_bufferedN (s : Shard) (k : InstKey) :
    (s.instrumentFor k).1.bufferedN = s.bufferedN := by
  rcases s.instrumentFor_fst k with h | h <;> simp [h]

@[simp] theorem instrumentFor_maxBuffered (s : Shard) (k : InstKey) :
    (s.instrumentFor k).1.maxBuffered = s.maxBuffered := by
  rcases s.instrumentFor_fst k with h | h <;> simp [h]

@[simp] theorem instrumentFor_overflows (s : Shard) (k : InstKey) :
    (s.instrumentFor k).1.overflows = s.overflows := by
  rcases s.instrumentFor_fst k with h | h <;> simp [h]

theorem getElem?_instrumentFor_ne (s : Shard) {k k' : InstKey} (hk : k ≠ k') :
    (s.instrumentFor k).1.instruments[k']? = s.instruments[k']? := by
  rcases s.instrumentFor_fst k with h | h <;> rw [h]
  rw [getElem?_setInst, if_neg hk]

/-! ## Evictions -/

/-- The shard after the buffer `buf` of `victim` was evicted. -/
def evicted (s : Shard) (victim : InstKey) (buf : List BufferedDelta) : Shard :=
  let r := s.instrumentFor victim
  { r.1.setInst victim (evictInstrument r.2 buf) with
      bufferedN := s.bufferedN - buf.length
      deltaBuf := s.deltaBuf.erase victim
      overflows := s.overflows + 1 }

/-- The largest buffer is one of those visited, and none visited is longer. -/
theorem largestBuffer_spec (s : Shard) (ks : List InstKey) :
    (s.largestBuffer ks = (default, -1) ∨
      (s.largestBuffer ks).1 ∈ ks ∧
        (s.largestBuffer ks).2 = (s.buffered (s.largestBuffer ks).1).length) ∧
    ∀ k ∈ ks, ((s.buffered k).length : ℤ) ≤ (s.largestBuffer ks).2 := by
  obtain ⟨hfrom, -, hmax⟩ :=
    foldl_argmax (fun k ↦ ((s.buffered k).length : ℤ)) ks (default, -1)
  exact ⟨hfrom, hmax⟩

/-- An eviction drops a largest buffer, unless every buffer is empty. -/
theorem evictLargestBuffer_cases (σ : MapOrder) (s : Shard) :
    (s.evictLargestBuffer σ = s ∧ ∀ (k : InstKey) (buf : List BufferedDelta),
        s.deltaBuf[k]? = some buf → buf = []) ∨
      ∃ (k : InstKey) (buf : List BufferedDelta), s.deltaBuf[k]? = some buf ∧ buf ≠ [] ∧
        s.evictLargestBuffer σ = s.evicted k buf := by
  obtain ⟨hfrom, hmax⟩ := s.largestBuffer_spec (σ.buffers.visit s.deltaBuf.keys)
  have hevict : s.evictLargestBuffer σ =
      let r := s.largestBuffer (σ.buffers.visit s.deltaBuf.keys)
      if r.2 ≤ 0 then s else { s.evicted r.1 (s.buffered r.1) with
        bufferedN := s.bufferedN - r.2 } := by
    simp [evictLargestBuffer, evicted, buffered]
  rw [hevict]
  generalize s.largestBuffer (σ.buffers.visit s.deltaBuf.keys) = r at hfrom hmax
  obtain ⟨victim, best⟩ := r
  dsimp only at hfrom hmax ⊢
  by_cases hbest : best ≤ 0
  · refine Or.inl ⟨if_pos hbest, fun k buf hbuf ↦ ?_⟩
    have hk : k ∈ σ.buffers.visit s.deltaBuf.keys := by
      rw [RangeOrder.mem_visit, ExtTreeMap.mem_keys, ExtTreeMap.mem_iff_isSome_getElem?, hbuf]
      rfl
    have hle := hmax k hk
    rw [buffered, hbuf, Option.getD_some] at hle
    exact List.length_eq_zero_iff.mp (by omega)
  · rcases hfrom with h | ⟨hmem, hlen⟩
    · obtain ⟨-, rfl⟩ := Prod.mk.inj h
      exact absurd (by decide) hbest
    · rw [RangeOrder.mem_visit, ExtTreeMap.mem_keys, ExtTreeMap.mem_iff_isSome_getElem?] at hmem
      obtain ⟨buf, hbuf⟩ := Option.isSome_iff_exists.mp hmem
      have hbuffered : s.buffered victim = buf := by rw [buffered, hbuf]; rfl
      rw [hbuffered] at hlen
      refine Or.inr ⟨victim, buf, hbuf, ?_, ?_⟩
      · rintro rfl
        exact hbest (by simp [hlen])
      · rw [if_neg hbest, hbuffered, hlen]
        rfl

/-- The shard with a delta put in place, before the budget is enforced. -/
def enqueue (s : Shard) (k : InstKey) (rec : Record) : Shard :=
  { s with deltaBuf := s.deltaBuf.insert k (insertDelta (s.buffered k) ⟨rec.sequenceNumber, rec⟩)
           bufferedN := s.bufferedN + 1 }

/-- Buffering puts the delta in place and may then evict one buffer. -/
theorem bufferDelta_cases (σ : MapOrder) (s : Shard) (k : InstKey) (rec : Record) :
    (s.bufferDelta σ k rec = s.enqueue k rec ∧
        ((s.enqueue k rec).bufferedN ≤ s.maxBuffered ∨
          ∀ (k' : InstKey) (buf : List BufferedDelta),
            (s.enqueue k rec).deltaBuf[k']? = some buf → buf = [])) ∨
      ∃ (victim : InstKey) (buf : List BufferedDelta),
        (s.enqueue k rec).deltaBuf[victim]? = some buf ∧ buf ≠ [] ∧
          s.bufferDelta σ k rec = (s.enqueue k rec).evicted victim buf := by
  by_cases hover : s.maxBuffered < s.bufferedN + 1
  · have hbuffer : s.bufferDelta σ k rec = (s.enqueue k rec).evictLargestBuffer σ := by
      simp only [bufferDelta, if_pos hover, enqueue]
    rw [hbuffer]
    rcases (s.enqueue k rec).evictLargestBuffer_cases σ with ⟨h, hempty⟩ | h
    · exact Or.inl ⟨h, Or.inr hempty⟩
    · exact Or.inr h
  · exact Or.inl ⟨by simp only [bufferDelta, if_neg hover, enqueue], Or.inl (not_lt.mp hover)⟩

end Shard

/-! ## The work of a shard on one instrument -/

/-- One write of a shard on behalf of the instrument under `k`. -/
inductive Work (Q : Record → Prop) (k : InstKey) : Shard → Shard → Prop
  | /-- The instrument is ready and a delta is classified. -/
    turn {s i i'} (here : s.instruments[k]? = some i) (transition : Transition Q i i') :
      Work Q k s (s.setInst k i')
  | /-- The instrument is not ready and a delta is buffered. -/
    buffer {s rec} (σ : MapOrder) (own : Q rec)
      (idle : ∀ i, s.instruments[k]? = some i → i.status ≠ .ready) :
      Work Q k s (s.bufferDelta σ k rec)

/-- Any number of writes. -/
abbrev Works (Q : Record → Prop) (k : InstKey) := Relation.ReflTransGen (Work Q k)

namespace Shard

/-- What the shard holds for the instrument under `k`. -/
structure Holds (Q : Record → Prop) (s : Shard) (k : InstKey) : Prop where
  pending : ∀ i, s.instruments[k]? = some i → i.Holds Q
  buffer : ∀ buf, s.deltaBuf[k]? = some buf → BufferHolds Q buf

end Shard

theorem insertDelta_perm (buf : List BufferedDelta) (d : BufferedDelta) :
    (Shard.insertDelta buf d).Perm (d :: buf) := by
  rw [Shard.insertDelta]
  split
  · exact perm_splice ..
  · exact List.perm_append_singleton ..

theorem BufferHolds.insertDelta {buf : List BufferedDelta} (h : BufferHolds Q buf) {rec : Record}
    (own : Q rec) : BufferHolds Q (Shard.insertDelta buf ⟨rec.sequenceNumber, rec⟩) := by
  intro b hb
  rw [(insertDelta_perm _ _).mem_iff, List.mem_cons] at hb
  rcases hb with rfl | hb
  · exact ⟨own, rfl⟩
  · exact h b hb

namespace Shard

variable {s s' : Shard} {k : InstKey} {rec : Record}

theorem Holds.buffered (h : s.Holds Q k) : BufferHolds Q (s.buffered k) := by
  rw [Shard.buffered]
  cases hbuf : s.deltaBuf[k]? with
  | none => exact fun b hb ↦ absurd hb List.not_mem_nil
  | some buf => exact h.buffer buf hbuf

theorem Holds.enqueue (h : s.Holds Q k) (own : Q rec) : (s.enqueue k rec).Holds Q k where
  pending := h.pending
  buffer := by
    intro buf hbuf
    rw [Shard.enqueue, getElem?_insert_eq, if_pos rfl] at hbuf
    obtain rfl := Option.some.inj hbuf
    exact h.buffered.insertDelta own

theorem getElem?_evicted (s : Shard) (victim k : InstKey) (buf : List BufferedDelta) :
    (s.evicted victim buf).instruments[k]? =
      if victim = k then some (evictInstrument (s.instrumentFor victim).2 buf)
      else s.instruments[k]? := by
  rw [evicted, getElem?_setInst]
  split
  · rfl
  · exact getElem?_instrumentFor_ne s ‹_›

theorem Holds.evicted (h : s.Holds Q k) (victim : InstKey) (buf : List BufferedDelta) :
    (s.evicted victim buf).Holds Q k where
  pending := by
    intro i hi
    rw [getElem?_evicted] at hi
    split at hi
    · obtain rfl := Option.some.inj hi
      exact Instrument.Holds.of_none (by simp)
    · exact h.pending i hi
  buffer := by
    intro buf' hbuf'
    rw [Shard.evicted, getElem?_erase_eq] at hbuf'
    split at hbuf'
    · exact absurd hbuf' (by simp)
    · exact h.buffer buf' hbuf'

theorem Holds.bufferDelta (h : s.Holds Q k) (σ : MapOrder) (own : Q rec) :
    (s.bufferDelta σ k rec).Holds Q k := by
  rcases s.bufferDelta_cases σ k rec with ⟨heq, -⟩ | ⟨victim, buf, -, -, heq⟩ <;> rw [heq]
  · exact h.enqueue own
  · exact (h.enqueue own).evicted victim buf

theorem Holds.setInst (h : s.Holds Q k) {i : Instrument} (hi : i.Holds Q) :
    (s.setInst k i).Holds Q k where
  pending := by
    intro j hj
    rw [setInst_self] at hj
    exact Option.some.inj hj ▸ hi
  buffer := h.buffer

/-- Buffering leaves an instrument that is not ready not ready. -/
theorem bufferDelta_idle (σ : MapOrder)
    (idle : ∀ i, s.instruments[k]? = some i → i.status ≠ .ready) :
    ∀ i, (s.bufferDelta σ k rec).instruments[k]? = some i → i.status ≠ .ready := by
  intro i hi
  rcases s.bufferDelta_cases σ k rec with ⟨heq, -⟩ | ⟨victim, buf, -, -, heq⟩ <;> rw [heq] at hi
  · exact idle i hi
  · rw [getElem?_evicted] at hi
    split at hi
    · obtain rfl := Option.some.inj hi
      simp
    · exact idle i hi

end Shard

theorem Work.holds {s s' : Shard} {k : InstKey} (h : Work Q k s s') (hs : s.Holds Q k) :
    s'.Holds Q k := by
  cases h with
  | turn here transition => exact hs.setInst (transition.holds (hs.pending _ here))
  | buffer σ own => exact hs.bufferDelta σ own

theorem Works.holds {s s' : Shard} {k : InstKey} (h : Works Q k s s') (hs : s.Holds Q k) :
    s'.Holds Q k := by
  induction h with
  | refl => exact hs
  | tail _ hwork ih => exact hwork.holds ih

namespace Shard

variable {s : Shard} {k : InstKey} {i : Instrument} {rec : Record}

/-! ## Every operation on a delta is such work -/

/-- Buffering a list of deltas. -/
theorem bufferAll_works (σ : Choices) {recs : List Record} (own : ∀ r ∈ recs, Q r)
    (idle : ∀ i, s.instruments[k]? = some i → i.status ≠ .ready) :
    Works Q k s (bufferAll σ s k recs) := by
  induction recs generalizing σ s with
  | nil => exact Relation.ReflTransGen.refl
  | cons r recs ih =>
      refine Relation.ReflTransGen.head
        (Work.buffer (σ.sub 0).here (own r List.mem_cons_self) idle) ?_
      exact ih (σ.sub 1) (fun r' hr' ↦ own r' (List.mem_cons_of_mem r hr'))
        (bufferDelta_idle _ idle)

theorem mem_heldRecords (σ : MapOrder) {r : Record} :
    r ∈ heldRecords σ i ↔ ∃ p : ℕ, (i.pending.getD ∅)[p]? = some r := by
  simp only [heldRecords, List.mem_filterMap, RangeOrder.mem_visit]
  constructor
  · rintro ⟨p, -, hp⟩
    exact ⟨p, hp⟩
  · rintro ⟨p, hp⟩
    refine ⟨p, ?_, hp⟩
    rw [ExtTreeMap.mem_keys, ExtTreeMap.mem_iff_isSome_getElem?, hp]
    rfl

/-- Demoting on a malformed record. -/
theorem demoteMalformed_works (σ : Choices) (here : s.instruments[k]? = some i)
    (ready : i.status = .ready) (hi : i.Holds Q) (own : Q rec)
    (malformed : malformedRecord rec ≠ none) : Works Q k s (s.demoteMalformed σ k i rec) := by
  refine Relation.ReflTransGen.head
    (Work.turn here (Transition.demote ready own malformed)) ?_
  refine bufferAll_works _ (fun r hr ↦ ?_) (fun j hj ↦ ?_)
  · obtain ⟨p, hp⟩ := (mem_heldRecords _).mp hr
    exact (hi.getD hp).1
  · rw [setInst_self] at hj
    simp [← Option.some.inj hj]

/-- A contiguous record over a well-formed window is applied and the window drained. -/
theorem applyContiguous_eq (σ : Choices) (hi : i.HeldWellFormed)
    (wf : malformedRecord rec = none) :
    s.applyContiguous σ k i rec = (s.setInst k (i.catchUp rec),
      ⟨.appliedDelta, i.id, i.symbol, rec⟩ ::
        (((i.mutate rec).advance rec).drainPending
          ((i.mutate rec).advance rec).pendingSize).2.1) := by
  have hwf : ((i.mutate rec).advance rec).HeldWellFormed := by
    intro held hheld
    exact hi held (by simpa using hheld)
  simp only [applyContiguous, Instrument.applyOne_eq wf, Instrument.catchUp,
    Instrument.drainPending_eq _ hwf]

/-- Classifying a delta of a ready instrument. -/
theorem applyDeltaToReady_works (σ : Choices) (here : s.instruments[k]? = some i)
    (ready : i.status = .ready) (hi : i.Holds Q) (own : Q rec) :
    Works Q k s (s.applyDeltaToReady σ k i rec).1 := by
  simp only [applyDeltaToReady]
  split
  · exact Relation.ReflTransGen.refl
  · split
    next hmal => exact demoteMalformed_works σ here ready hi own (Option.isSome_iff_ne_none.mp hmal)
    next hmal =>
      have wf : malformedRecord rec = none := by simpa using hmal
      split
      next ahead =>
        split
        next near =>
          exact Relation.ReflTransGen.single
            (Work.turn here (Transition.hold ready own wf ahead near.2))
        next =>
          refine Relation.ReflTransGen.head
            (Work.turn here (Transition.gap ready own wf ahead)) ?_
          refine Relation.ReflTransGen.single (Work.buffer _ own fun j hj ↦ ?_)
          rw [setInst_self] at hj
          simp [← Option.some.inj hj]
      next =>
        rw [applyContiguous_eq σ hi.wellFormed wf]
        exact Relation.ReflTransGen.single
          (Work.turn here (Transition.contiguous ready own wf (by omega)))

/-- Classifying a delta. -/
theorem applyDelta_works (σ : Choices) (hs : s.Holds Q k) (own : Q rec) :
    Works Q k s (s.applyDelta σ k rec).1 := by
  simp only [applyDelta]
  split
  next hnone =>
    refine Relation.ReflTransGen.single (Work.buffer _ own fun i hi ↦ ?_)
    rw [hnone] at hi
    exact absurd hi (by simp)
  next i here =>
    split
    next hstatus =>
      refine Relation.ReflTransGen.single (Work.buffer _ own fun j hj ↦ ?_)
      rw [here] at hj
      exact Option.some.inj hj ▸ hstatus
    next hstatus =>
      exact applyDeltaToReady_works σ here (not_not.mp hstatus) (hs.pending i here) own

/-- Replaying a buffer. -/
theorem replayLoop_works (σ : Choices) {bs : List BufferedDelta} (hbs : BufferHolds Q bs)
    (hs : s.Holds Q k) : Works Q k s (replayLoop σ s k bs).1 := by
  induction bs generalizing σ s with
  | nil => exact Relation.ReflTransGen.refl
  | cons b bs ih =>
      have hbs' : BufferHolds Q bs := fun b' hb' ↦ hbs b' (List.mem_cons_of_mem b hb')
      have own := (hbs b List.mem_cons_self).1
      rw [replayLoop]
      split
      next => exact Relation.ReflTransGen.refl
      next i here =>
        split
        next => exact ih (σ.sub 1) hbs' hs
        next =>
          split
          next hstatus =>
            have hwork : Work Q k s (s.bufferDelta (σ.sub 0).here k b.record) := by
              refine Work.buffer _ own fun j hj ↦ ?_
              rw [here] at hj
              exact Option.some.inj hj ▸ hstatus
            exact Relation.ReflTransGen.head hwork (ih (σ.sub 1) hbs' (hwork.holds hs))
          next hstatus =>
            have hworks := applyDeltaToReady_works (σ.sub 0) here (not_not.mp hstatus)
              (hs.pending i here) own
            exact hworks.trans (ih (σ.sub 1) hbs' (hworks.holds hs))

end Shard

end EdgeMulticast.MarketByPrice
