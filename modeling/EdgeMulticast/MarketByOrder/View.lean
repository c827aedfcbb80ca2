import EdgeMulticast.MarketByOrder.Sequencing
import Mathlib.Logic.Relation

/-!
# A market-by-order shard seen from one instrument

`Shard.view` projects a shard to what it knows of one instrument and of the group open on its
channel.  Whatever classifies or buffers a delta is a short list of moves of that view
(`View.Move`), and leaves every other instrument alone (`Serves`); an invariant then has one
small case for a move.

A delta is classified while the instrument is ready, and also in a replay, which goes on when a
gap was found in it; a move says which of the two it needs.  The replay ranges over a slice that
it may push to.  `Slice.Ranging` is what keeps its loop on entries that were buffered, in
datagram order.
-/

namespace EdgeMulticast.MarketByOrder

open Std (ExtTreeMap)
open EdgeMulticast.Lib

/-- What a shard knows of one instrument. -/
@[ext] structure View where
  inst : Option Instrument
  buf : List BufferedDelta
  /-- The group open on the channel. -/
  group : Option OpenGroup

/-- What the classification of a delta does to an instrument. -/
inductive Transition (Q : Record → Prop) : Instrument → Instrument → Prop
  | /-- The delta is ahead, within the reorder window. -/
    hold {i rec} (own : Q rec) (ahead : i.expected < rec.perInstrumentSeq) :
      Transition Q i (i.hold rec)
  | /-- The delta is ahead, beyond the reorder window. -/
    gap {i} : Transition Q i i.declareGap
  | /-- The delta is the expected one. -/
    contiguous {i rec} (own : Q rec) (next : rec.perInstrumentSeq = i.expected) :
      Transition Q i (i.catchUp rec)

namespace View

/-- Nothing is known, of the channel either. -/
def empty : View := ⟨none, [], none⟩

/-! ## Moves -/

/-- One move of an instrument.  `Replay` says whether a replay is on. -/
inductive Move (Q : Record → Prop) (Replay : Prop) : View → View → Prop
  | /-- A delta is classified. -/
    turn {v i i'} (here : v.inst = some i) (live : i.status = .ready ∨ Replay)
      (transition : Transition Q i i') : Move Q Replay v { v with inst := some i' }
  | /-- A delta is buffered. -/
    buffer {v rec buf} (own : Q rec) (sorted : SortedBy BufferedDelta.mktdataSeq buf)
      (mem : ∀ b ∈ buf, b ∈ v.buf ∨ b = ⟨rec.sequenceNumber, rec⟩) :
      Move Q Replay v { v with buf := buf }
  | /-- The buffer is dropped behind a replay. -/
    drop {v} : Move Q Replay v { v with buf := [] }

/-- Any number of moves. -/
abbrev Moves (Q : Record → Prop) (Replay : Prop) := Relation.ReflTransGen (Move Q Replay)

section

variable {Q Q' : Record → Prop} {R R' : Prop} {v v' : View}

theorem Move.mono (hQ : ∀ r, Q r → Q' r) (hR : R → R') (h : Move Q R v v') : Move Q' R' v v' := by
  cases h with
  | turn here live transition =>
      refine Move.turn here (live.imp_right hR) ?_
      cases transition with
      | hold own ahead => exact Transition.hold (hQ _ own) ahead
      | gap => exact Transition.gap
      | contiguous own next => exact Transition.contiguous (hQ _ own) next
  | buffer own sorted mem => exact Move.buffer (hQ _ own) sorted mem
  | drop => exact Move.drop

theorem Moves.mono (hQ : ∀ r, Q r → Q' r) (hR : R → R') (h : Moves Q R v v') :
    Moves Q' R' v v' := by
  induction h with
  | refl => exact Relation.ReflTransGen.refl
  | tail _ hmove ih => exact ih.tail (hmove.mono hQ hR)

/-- What the moves preserve. -/
theorem Moves.induction {P : View → Prop} (h : Moves Q R v v') (hv : P v)
    (next : ∀ v v', Move Q R v v' → P v → P v') : P v' := by
  induction h with
  | refl => exact hv
  | tail _ hmove ih => exact next _ _ hmove ih

end

end View

namespace Shard

/-- The shard seen from one instrument. -/
def view (s : Shard) (k : InstKey) : View :=
  ⟨s.instruments[k]?, (s.buffered k).toList, s.openGroups[k.ch]?⟩

/-- Every open group is on the channel of its instrument. -/
def GroupsFiled (s : Shard) : Prop :=
  ∀ (ch : ℕ) (g : OpenGroup), s.openGroups[ch]? = some g → g.inst.ch = ch

variable (s : Shard) {k k' : InstKey}

@[simp] theorem view_inst : (s.view k).inst = s.instruments[k]? := rfl

@[simp] theorem view_buf : (s.view k).buf = (s.buffered k).toList := rfl

@[simp] theorem view_group : (s.view k).group = s.openGroups[k.ch]? := rfl

theorem view_setInst (i : Instrument) : (s.setInst k i).view k' =
    if k = k' then { s.view k' with inst := some i } else s.view k' := by
  rw [view, setInst, getElem?_insert_eq]
  split <;> rfl

@[simp] theorem setInst_self (i : Instrument) : (s.setInst k i).instruments[k]? = some i := by
  rw [setInst, getElem?_insert_eq, if_pos rfl]

theorem buffered_bufferDelta (σ : BufferChoice) (rec : Record) :
    (s.bufferDelta σ k rec).buffered k' =
      if k = k' then (s.buffered k).push σ.ties maxBufferedDeltasPerInstrument σ.grown
        ⟨rec.sequenceNumber, rec⟩ else s.buffered k' := by
  rw [bufferDelta_eq, buffered, getElem?_insert_eq]
  split <;> rfl

theorem view_bufferDelta (σ : BufferChoice) (rec : Record) :
    (s.bufferDelta σ k rec).view k' =
      if k = k' then { s.view k' with
        buf := ((s.buffered k).push σ.ties maxBufferedDeltasPerInstrument σ.grown
          ⟨rec.sequenceNumber, rec⟩).toList } else s.view k' := by
  rw [view, buffered_bufferDelta]
  split <;> rfl

theorem view_dropBuffer : ({ s with deltaBuf := s.deltaBuf.erase k } : Shard).view k' =
    if k = k' then { s.view k' with buf := [] } else s.view k' := by
  rw [view, buffered, getElem?_erase_eq]
  split <;> rfl

end Shard

/-! ## The simulation -/

open View

/-- The shard works on the instrument under `k`: that instrument moves, and the others stay. -/
structure Serves (Q : Record → Prop) (R : Prop) (k : InstKey) (s s' : Shard) : Prop where
  moves : Moves Q R (s.view k) (s'.view k)
  frame : ∀ k', k ≠ k' → s'.view k' = s.view k'

section

variable {Q : Record → Prop} {R R' : Prop} {k : InstKey} {s s' s'' : Shard} {i : Instrument}
  {rec : Record}

theorem Serves.refl : Serves Q R k s s := ⟨Relation.ReflTransGen.refl, fun _ _ ↦ rfl⟩

theorem Serves.trans (h : Serves Q R k s s') (h' : Serves Q R k s' s'') : Serves Q R k s s'' :=
  ⟨h.moves.trans h'.moves, fun k' hk ↦ (h'.frame k' hk).trans (h.frame k' hk)⟩

namespace Shard

theorem setInst_serves (here : s.instruments[k]? = some i) {i' : Instrument}
    (live : i.status = .ready ∨ R) (transition : Transition Q i i') :
    Serves Q R k s (s.setInst k i') := by
  constructor
  · rw [view_setInst, if_pos rfl]
    exact Relation.ReflTransGen.single (Move.turn here live transition)
  · intro k' hk
    rw [view_setInst, if_neg hk]

theorem bufferDelta_serves (σ : BufferChoice) (own : Q rec) :
    Serves Q R k s (s.bufferDelta σ k rec) := by
  constructor
  · rw [view_bufferDelta, if_pos rfl]
    exact Relation.ReflTransGen.single
      (Move.buffer own (Slice.push_sorted ..) fun b hb ↦ Slice.mem_push _ _ _ _ _ hb)
  · intro k' hk
    rw [view_bufferDelta, if_neg hk]

theorem applyDeltaToReady_serves (σ : BufferChoice) (here : s.instruments[k]? = some i)
    (live : i.status = .ready ∨ R) (own : Q rec) :
    Serves Q R k s (s.applyDeltaToReady σ k i rec).1 := by
  rcases Nat.lt_trichotomy rec.perInstrumentSeq i.expected with hlt | heq | hgt
  · rw [applyDeltaToReady_of_lt s k i rec σ hlt]
    exact Serves.refl
  · rw [applyDeltaToReady_of_eq s k i rec σ heq]
    exact setInst_serves here live (Transition.contiguous own heq)
  · by_cases hover : (i.hold rec).pendingSize ≤ reorderWindow ∧
        rec.perInstrumentSeq - i.expected ≤ reorderWindow
    · rw [applyDeltaToReady_of_hold s k i rec σ hgt hover.1 hover.2]
      exact setInst_serves here live (Transition.hold own hgt)
    · rw [applyDeltaToReady_of_gap s k i rec σ hgt hover]
      exact (setInst_serves here live Transition.gap).trans (bufferDelta_serves σ own)

theorem applyDelta_serves (σ : BufferChoice) (own : Q rec) :
    Serves Q False k s (s.applyDelta σ k rec).1 := by
  rw [applyDelta]
  split
  next => exact bufferDelta_serves σ own
  next i here =>
    split
    next hready => exact applyDeltaToReady_serves σ here (Or.inl hready) own
    next => exact bufferDelta_serves σ own

/-! ### The replay -/

/-- A buffered delta satisfies `Q` and is filed under its own datagram. -/
def Filed (Q : Record → Prop) (b : BufferedDelta) : Prop :=
  Q b.record ∧ b.mktdataSeq = b.record.sequenceNumber

/-- The replay at turn `t` of its loop over the slice `h`. -/
abbrev Replays (Q : Record → Prop) (bound : ℕ) (k : InstKey) (h : Slice BufferedDelta)
    (s : Shard) (arr : List BufferedDelta) (t : ℕ) : Prop :=
  Slice.Ranging BufferedDelta.mktdataSeq (Filed Q) bound h (s.buffered k) arr (h.off + t)

theorem buffered_applyDeltaToReady (σ : BufferChoice) :
    (s.applyDeltaToReady σ k i rec).1.buffered k = s.buffered k ∨
      (s.applyDeltaToReady σ k i rec).1.buffered k = (s.buffered k).push σ.ties
        maxBufferedDeltasPerInstrument σ.grown ⟨rec.sequenceNumber, rec⟩ := by
  rcases Nat.lt_trichotomy rec.perInstrumentSeq i.expected with hlt | heq | hgt
  · rw [applyDeltaToReady_of_lt s k i rec σ hlt]
    exact Or.inl rfl
  · rw [applyDeltaToReady_of_eq s k i rec σ heq]
    exact Or.inl rfl
  · by_cases hover : (i.hold rec).pendingSize ≤ reorderWindow ∧
        rec.perInstrumentSeq - i.expected ≤ reorderWindow
    · rw [applyDeltaToReady_of_hold s k i rec σ hgt hover.1 hover.2]
      exact Or.inl rfl
    · rw [applyDeltaToReady_of_gap s k i rec σ hgt hover, buffered_bufferDelta, if_pos rfl]
      exact Or.inr rfl

section

variable {bound turns t : ℕ} {h : Slice BufferedDelta} {arr : List BufferedDelta}
  {b : BufferedDelta}

/-- Classifying the visited entry keeps the loop on a sorted rest. -/
theorem Replays.classify (hr : Replays Q bound k h s arr t) (σ : BufferChoice)
    (hb : (Slice.ranged h (s.buffered k) arr)[h.off + t]? = some b) :
    Replays Q b.mktdataSeq k h (s.applyDeltaToReady σ k i b.record).1
      (Slice.ranged h (s.buffered k) arr) (t + 1) := by
  have hgood := (hr.here hb).1
  rcases @buffered_applyDeltaToReady k s i b.record σ with heq | heq
  · rw [Replays, heq]
    exact hr.visit hb (Or.inl rfl)
  · rw [Replays, heq]
    exact hr.push σ.ties σ.grown _ _ hb ⟨hgood.1, rfl⟩ hgood.2.symm

/-- The replay classifies what its slice holds, as it is at each turn. -/
theorem replayLoop_serves (σ : Choices) (hr : Replays Q bound k h s arr t) :
    Serves Q True k s (replayLoop σ k h turns t arr s) := by
  induction turns generalizing t arr s bound with
  | zero => exact Serves.refl
  | succ turns ih =>
      rw [replayLoop]
      split
      next i b here hb =>
        split
        next => exact ih (hr.visit hb (Or.inl rfl))
        next =>
          have hserves : Serves Q True k s (s.applyDeltaToReady (σ t) k i b.record).1 :=
            applyDeltaToReady_serves (σ t) here (Or.inr trivial) (hr.here hb).1.1
          exact hserves.trans (ih (hr.classify (σ t) hb))
      next => exact Serves.refl

end

end Shard

end

/-! ## What is held -/

namespace Instrument

/-- Every record in the reorder window satisfies `Q` and stands under its own number. -/
def Holds (Q : Record → Prop) (i : Instrument) : Prop :=
  ∀ (p : ℕ) (r : Record), (i.pending.getD ∅)[p]? = some r → Q r ∧ r.perInstrumentSeq = p

variable {Q : Record → Prop} {i j : Instrument}

theorem Holds.of_none (h : i.pending = none) : i.Holds Q := by
  intro p r hr
  rw [h, Option.getD_none] at hr
  exact absurd hr (by simp)

theorem Holds.congr (h : i.Holds Q) (hpending : j.pending = i.pending) : j.Holds Q := by
  intro p r hr
  exact h p r (hpending ▸ hr)

theorem Holds.hold (h : i.Holds Q) {rec : Record} (own : Q rec) : (i.hold rec).Holds Q := by
  intro p r hr
  rw [hold_window, getElem?_insert_eq] at hr
  split at hr
  next hp =>
      obtain rfl := Option.some.inj hr
      exact ⟨own, hp⟩
  next => exact h p r hr

theorem Holds.take (h : i.Holds Q) (pr : Record) : (i.take pr).Holds Q := by
  intro p r hr
  rw [take_window, getElem?_erase_eq] at hr
  split at hr
  · exact absurd hr (by simp)
  · exact h p r hr

theorem Holds.catchUp (h : i.Holds Q) (rec : Record) : (i.catchUp rec).Holds Q :=
  drainPending_induction (P := Holds Q) (fun _ pr hi _ ↦ hi.take pr) _
    (h.congr (applied_pending ..))

end Instrument

theorem Transition.holds {Q : Record → Prop} {i i' : Instrument} (h : Transition Q i i')
    (hi : i.Holds Q) : i'.Holds Q := by
  cases h with
  | hold own => exact hi.hold own
  | gap => exact Instrument.Holds.of_none rfl
  | contiguous => exact hi.catchUp _

namespace View

variable {Q : Record → Prop} {R : Prop} {v v' : View} {k : InstKey}

/-- What is held for the instrument, and that its buffer is in datagram order. -/
structure Holds (Q : Record → Prop) (v : View) : Prop where
  pending : ∀ i, v.inst = some i → i.Holds Q
  buffer : ∀ b ∈ v.buf, Shard.Filed Q b
  sorted : SortedBy BufferedDelta.mktdataSeq v.buf

theorem Holds.empty : View.empty.Holds Q where
  pending := by rintro i ⟨⟩
  buffer := fun b hb ↦ absurd hb List.not_mem_nil
  sorted := List.Pairwise.nil

theorem Holds.mono {Q' : Record → Prop} (hQ : ∀ r, Q r → Q' r) (h : v.Holds Q) :
    v.Holds Q' where
  pending := fun i hi p r hr ↦ (h.pending i hi p r hr).imp_left (hQ r)
  buffer := fun b hb ↦ (h.buffer b hb).imp_left (hQ _)
  sorted := h.sorted

theorem Move.holds (hmove : Move Q R v v') (h : v.Holds Q) : v'.Holds Q := by
  cases hmove with
  | turn here live transition =>
      refine ⟨?_, h.buffer, h.sorted⟩
      rintro j ⟨⟩
      exact transition.holds (h.pending _ here)
  | buffer own sorted mem =>
      refine ⟨h.pending, fun b hb ↦ ?_, sorted⟩
      rcases mem b hb with hb | rfl
      · exact h.buffer b hb
      · exact ⟨own, rfl⟩
  | drop => exact ⟨h.pending, fun b hb ↦ absurd hb List.not_mem_nil, List.Pairwise.nil⟩

end View

end EdgeMulticast.MarketByOrder
