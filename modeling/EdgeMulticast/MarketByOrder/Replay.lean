import EdgeMulticast.Lib.FirstMissing
import EdgeMulticast.MarketByOrder.Safety
import Mathlib.Order.Interval.Finset.Nat

/-!
# What the replay of a market-by-order buffer loses

A commit replays the deltas buffered before it and then drops the buffer.  The replay skips an
entry whose datagram is not past the last applied one, a tracker that it moves itself, so the
second of two deltas in one datagram is skipped and dropped.  An entry beyond the reorder window
demotes the instrument and goes back into the buffer, which is dropped all the same
(`Shard.replay_loses_far`).

`Shard.replay_keeps_iff` is the exact extent of this.  The replay keeps every delta behind the
book exactly when the buffer is `Clear`: an entry that is new at its turn is within the reorder
window of the first number still missing, and its datagram is past that of the delta before that
number.

In one direction the loop keeps an instrument that has applied everything before the first
missing number and holds the rest (`Replaying`).  In the other, a number that was skipped or put
back is never held again (`Dead`): whatever follows is filed under the same datagram or a later
one, on the array the loop started on as much as on the one it is sorted in.
-/

namespace EdgeMulticast.MarketByOrder

open Std (ExtTreeMap)
open EdgeMulticast.Lib

/-! ## Numbered deltas -/

/-- The record is the delta of its number. -/
def Numbered (delta : ℕ → Record) (rec : Record) : Prop :=
  1 ≤ rec.perInstrumentSeq ∧ rec = delta rec.perInstrumentSeq

/-- Later numbers do not stand in earlier datagrams. -/
def DatagramsMono (delta : ℕ → Record) : Prop :=
  ∀ l m, 1 ≤ l → l ≤ m → (delta l).sequenceNumber ≤ (delta m).sequenceNumber

/-- The datagram of the last delta before number `e`, the snapshot's anchor if there is none. -/
def datagramBefore (n anchor : ℕ) (delta : ℕ → Record) (e : ℕ) : ℕ :=
  if e = n + 1 then anchor else (delta (e - 1)).sequenceNumber

/-- An entry whose turn comes when the numbers `seen` have gone before it: if it is new, it is
within the reorder window of the first missing number, and past the datagram before that
number. -/
def ClearAt (n anchor : ℕ) (delta : ℕ → Record) (seen : List ℕ) (b : BufferedDelta) : Prop :=
  n < b.record.perInstrumentSeq → b.record.perInstrumentSeq ∉ seen →
    ∀ e, FirstMissing n seen e → b.record.perInstrumentSeq ≤ e + reorderWindow ∧
      datagramBefore n anchor delta e < b.mktdataSeq

/-- Every entry is clear at its turn. -/
def Clear (n anchor : ℕ) (delta : ℕ → Record) : List ℕ → List BufferedDelta → Prop
  | _, [] => True
  | seen, b :: bs => ClearAt n anchor delta seen b ∧
      Clear n anchor delta (seen ++ [b.record.perInstrumentSeq]) bs

/-! ## One turn of the loop -/

/-- One turn: an entry is skipped or classified. -/
def replayTurn (σ : BufferChoice) (k : InstKey) (s : Shard) (i : Instrument) (b : BufferedDelta) :
    Shard :=
  if b.mktdataSeq ≤ i.lastAppliedMktdataSeq then s else (s.applyDeltaToReady σ k i b.record).1

namespace Shard

variable {k : InstKey} {s : Shard} {i : Instrument} {h : Slice BufferedDelta} {t turns : ℕ}
  {arr : List BufferedDelta} {b : BufferedDelta}

theorem replayLoop_turn (σ : Choices) (here : s.instruments[k]? = some i)
    (hb : (Slice.ranged h (s.buffered k) arr)[h.off + t]? = some b) :
    replayLoop σ k h (turns + 1) t arr s =
      replayLoop σ k h turns (t + 1) (Slice.ranged h (s.buffered k) arr)
        (replayTurn (σ t) k s i b) := by
  rw [replayLoop, here, hb, replayTurn]
  dsimp only
  split <;> rfl

/-- A turn keeps the loop on a sorted rest. -/
theorem Replays.turn {Q : Record → Prop} {bound : ℕ} (hr : Replays Q bound k h s arr t)
    (σ : BufferChoice) (hb : (Slice.ranged h (s.buffered k) arr)[h.off + t]? = some b) :
    Replays Q b.mktdataSeq k h (replayTurn σ k s i b) (Slice.ranged h (s.buffered k) arr)
      (t + 1) := by
  rw [replayTurn]
  split
  · exact hr.visit hb (Or.inl rfl)
  · exact hr.classify σ hb

/-! ## What is lost stays lost -/

end Shard

/-- The number `q`, of the datagram `M`, is ahead of the book and not held, and will not be: its
datagram is behind the tracker, or it is beyond the window for as long as nothing is applied. -/
structure Dead (q M : ℕ) (j : Instrument) : Prop where
  ahead : j.lastAppliedInstrumentSeq < q
  gone : (j.pending.getD ∅)[q]? = none
  held : ∀ (x : ℕ) (r : Record), (j.pending.getD ∅)[x]? = some r →
    r.perInstrumentSeq = x ∧ M ≤ r.sequenceNumber
  late : M ≤ j.lastAppliedMktdataSeq ∨ j.lastAppliedInstrumentSeq + 1 + reorderWindow < q

namespace Dead

variable {q M : ℕ} {j : Instrument} {rec : Record}

theorem expected (h : Dead q M j) (hq : q < 2 ^ 32) :
    j.expected = j.lastAppliedInstrumentSeq + 1 := by
  have := h.ahead
  rw [Instrument.expected]
  omega

theorem take (h : Dead q M j) (hq : q < 2 ^ 32) {pr : Record} (hpr : j.next = some pr) :
    Dead q M (j.take pr) := by
  obtain ⟨hseq, hM⟩ := h.held _ pr hpr
  have hexpected := h.expected hq
  have hahead := h.ahead
  have hne : q ≠ j.expected := by
    rintro rfl
    rw [Instrument.next, h.gone] at hpr
    exact absurd hpr (by simp)
  refine ⟨?_, ?_, fun x r hr ↦ ?_, Or.inl ?_⟩
  · rw [Instrument.take_lastAppliedInstrumentSeq, hseq]
    omega
  · rw [Instrument.take_window, getElem?_erase_ne hne.symm]
    exact h.gone
  · rw [Instrument.take_window, getElem?_erase_eq] at hr
    split at hr
    · exact absurd hr (by simp)
    · exact h.held x r hr
  · rw [Instrument.take_lastAppliedMktdataSeq]
    exact hM

/-- Another number is applied. -/
theorem catchUp (h : Dead q M j) (hq : q < 2 ^ 32) (hM : M ≤ rec.sequenceNumber)
    (hne : rec.perInstrumentSeq ≠ q) (next : rec.perInstrumentSeq = j.expected) :
    Dead q M (j.catchUp rec) := by
  have hexpected := h.expected hq
  have hahead := h.ahead
  refine Instrument.drainPending_induction (P := Dead q M) (fun _ _ h hpr ↦ h.take hq hpr) _
    ⟨?_, ?_, ?_, Or.inl hM⟩
  · rw [Instrument.applied_lastAppliedInstrumentSeq]
    omega
  · rw [Instrument.applied_pending]
    exact h.gone
  · rw [Instrument.applied_pending]
    exact h.held

/-- Another number is held. -/
theorem hold (h : Dead q M j) (hM : M ≤ rec.sequenceNumber) (hne : rec.perInstrumentSeq ≠ q) :
    Dead q M (j.hold rec) := by
  refine ⟨h.ahead, ?_, fun x r hr ↦ ?_, h.late⟩
  · rw [Instrument.hold_window, getElem?_insert_ne hne]
    exact h.gone
  · rw [Instrument.hold_window, getElem?_insert_eq] at hr
    split at hr
    next hx =>
      obtain rfl := Option.some.inj hr
      exact ⟨hx, hM⟩
    next => exact h.held x r hr

theorem declareGap (h : Dead q M j) : Dead q M j.declareGap := by
  refine ⟨h.ahead, ?_, fun x r hr ↦ ?_, h.late⟩
  · simp [Instrument.declareGap]
  · simp [Instrument.declareGap] at hr

variable {k : InstKey} {s : Shard} {b : BufferedDelta}

/-- No turn brings the number back, on its own entry or on another. -/
theorem turn (h : Dead q M j) (hq : q < 2 ^ 32) (here : s.instruments[k]? = some j)
    (hM : M ≤ b.mktdataSeq) (hfiled : b.mktdataSeq = b.record.sequenceNumber)
    (hmine : b.record.perInstrumentSeq = q → b.mktdataSeq = M) (σ : BufferChoice) :
    ∃ j', (replayTurn σ k s j b).instruments[k]? = some j' ∧ Dead q M j' := by
  have hexpected := h.expected hq
  have hM' : M ≤ b.record.sequenceNumber := hfiled ▸ hM
  rw [replayTurn]
  split
  next => exact ⟨j, here, h⟩
  next hpast =>
    -- its own entry is past the tracker only while it is beyond the window
    have hfar : b.record.perInstrumentSeq = q →
        j.lastAppliedInstrumentSeq + 1 + reorderWindow < q := by
      intro hb
      have := hmine hb
      exact h.late.resolve_left (by omega)
    rcases Nat.lt_trichotomy b.record.perInstrumentSeq j.expected with hlt | heq | hgt
    · rw [Shard.applyDeltaToReady_of_lt s k j _ σ hlt]
      exact ⟨j, here, h⟩
    · rw [Shard.applyDeltaToReady_of_eq s k j _ σ heq]
      refine ⟨_, Shard.setInst_self .., h.catchUp hq hM' (fun hb ↦ ?_) heq⟩
      have := hfar hb
      omega
    · by_cases hover : (j.hold b.record).pendingSize ≤ reorderWindow ∧
          b.record.perInstrumentSeq - j.expected ≤ reorderWindow
      · rw [Shard.applyDeltaToReady_of_hold s k j _ σ hgt hover.1 hover.2]
        refine ⟨_, Shard.setInst_self .., h.hold hM' fun hb ↦ ?_⟩
        have := hfar hb
        omega
      · rw [Shard.applyDeltaToReady_of_gap s k j _ σ hgt hover]
        exact ⟨_, Shard.setInst_self .., h.declareGap⟩

/-- Nor does the rest of the loop. -/
theorem loop {delta : ℕ → Record} {bound turns t : ℕ} {sl : Slice BufferedDelta}
    {arr : List BufferedDelta} (σ : Choices) (h : Dead q (delta q).sequenceNumber j)
    (hq : q < 2 ^ 32) (here : s.instruments[k]? = some j)
    (hbound : (delta q).sequenceNumber ≤ bound)
    (hr : Shard.Replays (Numbered delta) bound k sl s arr t) :
    ∃ j', (Shard.replayLoop σ k sl turns t arr s).instruments[k]? = some j' ∧
      Dead q (delta q).sequenceNumber j' := by
  induction turns generalizing s j arr t bound with
  | zero => exact ⟨j, here, h⟩
  | succ turns ih =>
      cases hb : (Slice.ranged sl (s.buffered k) arr)[sl.off + t]? with
      | none =>
          rw [Shard.replayLoop, here, hb]
          exact ⟨j, here, h⟩
      | some b =>
          obtain ⟨⟨⟨-, hnumbered⟩, hfiled⟩, hle⟩ := hr.here hb
          rw [Shard.replayLoop_turn σ here hb]
          obtain ⟨j', here', hdead⟩ := h.turn hq here (hbound.trans hle) hfiled
            (fun hseq ↦ by rw [hfiled, hnumbered, hseq]) (σ t)
          exact ih hdead here' (hbound.trans hle) (hr.turn (σ t) hb)

end Dead

/-! ## What the loop keeps -/

/-- The expected number is the one after the last, while there is one. -/
theorem Instrument.expected_of_lt {j : Instrument} (hlt : j.lastAppliedInstrumentSeq + 1 < 2 ^ 32) :
    j.expected = j.lastAppliedInstrumentSeq + 1 := Nat.mod_eq_of_lt hlt

section

variable {n anchor : ℕ} {delta : ℕ → Record}

variable (n anchor delta) in
/-- The instrument after the numbers `seen` were taken from the buffer: it has applied them up to
its last number, and holds the rest. -/
structure Replaying (seen : List ℕ) (j : Instrument) : Prop where
  ready : j.status = .ready
  le : n ≤ j.lastAppliedInstrumentSeq
  bound : j.lastAppliedInstrumentSeq < 2 ^ 32
  run : ∀ q ∈ seen, n < q → q < 2 ^ 32 ∧ (delta q).perInstrumentSeq = q
  reached : ∀ q, n < q → q ≤ j.lastAppliedInstrumentSeq → q ∈ seen
  near : ∀ q ∈ seen, q ≤ j.lastAppliedInstrumentSeq + 1 + reorderWindow
  datagram : j.lastAppliedMktdataSeq =
    datagramBefore n anchor delta (j.lastAppliedInstrumentSeq + 1)
  window : ∀ (q : ℕ) (r : Record), (j.pending.getD ∅)[q]? = some r ↔
    r = delta q ∧ q ∈ seen ∧ j.lastAppliedInstrumentSeq < q
  ahead : ∀ q ∈ seen, j.lastAppliedInstrumentSeq < q →
    j.lastAppliedMktdataSeq ≤ (delta q).sequenceNumber

namespace Replaying

variable {seen seen' : List ℕ} {j j' : Instrument}

/-- The next number is applied. -/
theorem apply (h : Replaying n anchor delta seen j) (mono : DatagramsMono delta)
    (hlt : j.lastAppliedInstrumentSeq + 1 < 2 ^ 32)
    (hnumber : (delta (j.lastAppliedInstrumentSeq + 1)).perInstrumentSeq =
      j.lastAppliedInstrumentSeq + 1)
    (hseen : ∀ q, q ∈ seen' ↔ q ∈ seen ∨ q = j.lastAppliedInstrumentSeq + 1)
    (hstatus : j'.status = j.status)
    (hlast : j'.lastAppliedInstrumentSeq = j.lastAppliedInstrumentSeq + 1)
    (hmktdata : j'.lastAppliedMktdataSeq =
      (delta (j.lastAppliedInstrumentSeq + 1)).sequenceNumber)
    (hwindow : ∀ (q : ℕ) (r : Record), (j'.pending.getD ∅)[q]? = some r ↔
      (j.pending.getD ∅)[q]? = some r ∧ q ≠ j.lastAppliedInstrumentSeq + 1) :
    Replaying n anchor delta seen' j' := by
  have hn := h.le
  refine
    { ready := hstatus.trans h.ready
      le := by omega
      bound := by omega
      run := fun q hq hlo ↦ ?_
      reached := fun q hlo hhi ↦ ?_
      near := fun q hq ↦ ?_
      datagram := ?_
      window := fun q r ↦ ?_
      ahead := fun q hq hlo ↦ ?_ }
  · rcases (hseen q).mp hq with hq | rfl
    · exact h.run q hq hlo
    · exact ⟨hlt, hnumber⟩
  · rw [hlast] at hhi
    rcases Nat.lt_or_ge j.lastAppliedInstrumentSeq q with hlo' | hge
    · exact (hseen q).mpr (Or.inr (by omega))
    · exact (hseen q).mpr (Or.inl (h.reached q hlo hge))
  · rw [hlast]
    rcases (hseen q).mp hq with hq | rfl
    · have := h.near q hq
      omega
    · omega
  · rw [hlast, hmktdata, datagramBefore, if_neg (by omega), Nat.add_sub_cancel]
  · rw [hwindow, h.window, hlast, hseen]
    constructor
    · rintro ⟨⟨rfl, hq, hlo⟩, hne⟩
      exact ⟨rfl, Or.inl hq, by omega⟩
    · rintro ⟨rfl, hq, hlo⟩
      exact ⟨⟨rfl, hq.resolve_right (by omega), by omega⟩, by omega⟩
  · rw [hmktdata]
    exact mono _ q (by omega) (by omega)

/-- A round of the drain applies the next of what is held. -/
theorem take (h : Replaying n anchor delta seen j) (mono : DatagramsMono delta) {pr : Record}
    (hpr : j.next = some pr) : Replaying n anchor delta seen (j.take pr) := by
  obtain ⟨rfl, hseen, hlo⟩ := (h.window _ pr).mp hpr
  have hn := h.le
  have hbound := h.bound
  have hexpected : j.expected = j.lastAppliedInstrumentSeq + 1 := by
    rw [Instrument.expected] at hlo ⊢
    omega
  rw [hexpected] at hseen hlo hpr ⊢
  obtain ⟨hlt, hnumber⟩ := h.run _ hseen (by omega)
  refine h.apply mono hlt hnumber (fun q ↦ ?_) (by simp) (by simp [hnumber]) (by simp)
    fun q r ↦ ?_
  · refine ⟨Or.inl, ?_⟩
    rintro (hq | rfl)
    · exact hq
    · exact hseen
  · rw [Instrument.take_window, hexpected, getElem?_erase_eq]
    split
    next heq => simp [← heq]
    next hne => simp [Ne.symm hne]

/-- Nothing changes when a number comes again, or one that the snapshot covers. -/
theorem again (h : Replaying n anchor delta seen j) {q : ℕ} (hq : q ≤ n ∨ q ∈ seen) :
    Replaying n anchor delta (seen ++ [q]) j := by
  have hn := h.le
  have hmem (x : ℕ) : x ∈ seen ++ [q] ↔ x ∈ seen ∨ x = q := by
    rw [List.mem_append, List.mem_singleton]
  have hnew (x : ℕ) (hx : x ∈ seen ++ [q]) : x ∈ seen ∨ x ≤ n := by
    rcases (hmem x).mp hx with hx | rfl
    · exact Or.inl hx
    · exact hq.symm
  refine
    { h with
      run := fun x hx hlo ↦ h.run x ((hnew x hx).resolve_right (by omega)) hlo
      reached := fun x hlo hhi ↦ (hmem x).mpr (Or.inl (h.reached x hlo hhi))
      near := fun x hx ↦ ?_
      window := fun x r ↦ ?_
      ahead := fun x hx hlo ↦ h.ahead x ((hnew x hx).resolve_right (by omega)) hlo }
  · rcases hnew x hx with hx | hx
    · exact h.near x hx
    · omega
  · rw [h.window, hmem]
    constructor
    · rintro ⟨hr, hx, hlo⟩
      exact ⟨hr, Or.inl hx, hlo⟩
    · rintro ⟨hr, hx, hlo⟩
      exact ⟨hr, (hnew x ((hmem x).mpr hx)).resolve_right (by omega), hlo⟩

/-- A number within the window arrives ahead of the expected one. -/
theorem hold (h : Replaying n anchor delta seen j) {d : Record} (hnumbered : Numbered delta d)
    (hahead : j.lastAppliedInstrumentSeq + 1 < d.perInstrumentSeq)
    (hnear : d.perInstrumentSeq ≤ j.lastAppliedInstrumentSeq + 1 + reorderWindow)
    (hpast : j.lastAppliedMktdataSeq < d.sequenceNumber) :
    Replaying n anchor delta (seen ++ [d.perInstrumentSeq]) (j.hold d) := by
  have hn := h.le
  have hd := hnumbered.2
  have hmem (x : ℕ) : x ∈ seen ++ [d.perInstrumentSeq] ↔ x ∈ seen ∨ x = d.perInstrumentSeq := by
    rw [List.mem_append, List.mem_singleton]
  refine
    { h with
      run := fun x hx hlo ↦ ?_
      reached := fun x hlo hhi ↦ (hmem x).mpr (Or.inl (h.reached x hlo hhi))
      near := fun x hx ↦ ?_
      window := fun x r ↦ ?_
      ahead := fun x hx hlo ↦ ?_ }
  · rcases (hmem x).mp hx with hx | rfl
    · exact h.run x hx hlo
    · exact ⟨d.perInstrumentSeq_lt, by rw [← hd]⟩
  · rcases (hmem x).mp hx with hx | rfl
    · exact h.near x hx
    · exact hnear
  · rw [Instrument.hold_window, getElem?_insert_eq, hmem]
    change _ ↔ r = delta x ∧ (x ∈ seen ∨ x = d.perInstrumentSeq) ∧ j.lastAppliedInstrumentSeq < x
    split
    next hx =>
      subst hx
      rw [← hd, Option.some_inj, eq_comm]
      exact ⟨fun hr ↦ ⟨hr, Or.inr rfl, by omega⟩, And.left⟩
    next hne =>
      rw [h.window, or_iff_left (Ne.symm hne)]
  · change j.lastAppliedMktdataSeq ≤ (delta x).sequenceNumber
    rcases (hmem x).mp hx with hx | rfl
    · exact h.ahead x hx hlo
    · rw [← hd]
      exact hpast.le

end Replaying

variable (n anchor delta) in
/-- Between two entries the expected number is the first one missing. -/
structure Replayed (seen : List ℕ) (j : Instrument) : Prop extends
    Replaying n anchor delta seen j where
  stopped : j.lastAppliedInstrumentSeq + 1 ∉ seen

namespace Replayed

variable {seen : List ℕ} {j : Instrument}

theorem firstMissing (h : Replayed n anchor delta seen j) :
    FirstMissing n seen (j.lastAppliedInstrumentSeq + 1) where
  after := Nat.lt_succ_of_le h.le
  missing := h.stopped
  before := fun q hlo hhi ↦ h.reached q hlo (Nat.le_of_lt_succ hhi)

theorem clearAt_iff (h : Replayed n anchor delta seen j) (b : BufferedDelta) :
    ClearAt n anchor delta seen b ↔
      (n < b.record.perInstrumentSeq → b.record.perInstrumentSeq ∉ seen →
        b.record.perInstrumentSeq ≤ j.lastAppliedInstrumentSeq + 1 + reorderWindow ∧
          j.lastAppliedMktdataSeq < b.mktdataSeq) := by
  rw [h.datagram]
  constructor
  · intro hclear hlo hnew
    exact hclear hlo hnew _ h.firstMissing
  · intro hclear hlo hnew e he
    rw [he.unique h.firstMissing]
    exact hclear hlo hnew

/-- The window never overflows: it holds numbers after the expected one and near it. -/
theorem pendingSize_le (h : Replayed n anchor delta seen j) : j.pendingSize ≤ reorderWindow := by
  have hsub : keySet (j.pending.getD ∅) ⊆ Finset.Ioc (j.lastAppliedInstrumentSeq + 1)
      (j.lastAppliedInstrumentSeq + 1 + reorderWindow) := by
    intro q hq
    obtain ⟨r, hr⟩ := mem_keySet.mp hq
    obtain ⟨-, hseen, hlo⟩ := (h.window q r).mp hr
    rw [Finset.mem_Ioc]
    refine ⟨lt_of_le_of_ne hlo ?_, h.near q hseen⟩
    rintro rfl
    exact h.stopped hseen
  have hcard := Finset.card_le_card hsub
  rwa [card_keySet, Nat.card_Ioc, Nat.add_sub_cancel_left] at hcard

theorem again (h : Replayed n anchor delta seen j) {q : ℕ} (hq : q ≤ n ∨ q ∈ seen) :
    Replayed n anchor delta (seen ++ [q]) j := by
  have hn := h.le
  refine ⟨h.toReplaying.again hq, fun hmem ↦ ?_⟩
  rw [List.mem_append, List.mem_singleton] at hmem
  rcases hmem with hmem | rfl
  · exact h.stopped hmem
  · rcases hq with hq | hq
    · omega
    · exact h.stopped hq

/-- The expected number arrives. -/
theorem catchUp (h : Replayed n anchor delta seen j) (mono : DatagramsMono delta)
    (hlt : j.lastAppliedInstrumentSeq + 1 < 2 ^ 32) {d : Record} (hnumbered : Numbered delta d)
    (next : d.perInstrumentSeq = j.lastAppliedInstrumentSeq + 1) :
    Replaying n anchor delta (seen ++ [d.perInstrumentSeq]) (j.catchUp d) := by
  have hd : d = delta (j.lastAppliedInstrumentSeq + 1) := next ▸ hnumbered.2
  refine Instrument.drainPending_induction (P := Replaying n anchor delta _)
    (fun _ _ h hpr ↦ h.take mono hpr) _ ?_
  refine h.apply mono hlt (hd ▸ next) (fun q ↦ ?_) (by simp) (by simp [next]) (by simp [← hd])
    fun q r ↦ ?_
  · rw [List.mem_append, List.mem_singleton, next]
  · rw [Instrument.applied_pending, h.window]
    constructor
    · rintro ⟨rfl, hq, hlo⟩
      refine ⟨⟨rfl, hq, hlo⟩, ?_⟩
      rintro rfl
      exact h.stopped hq
    · exact And.left

/-- A drain leaves the expected number missing, while there is one. -/
theorem of_catchUp {d : Record} {seen' : List ℕ}
    (h : Replaying n anchor delta seen' (j.catchUp d)) :
    Replayed n anchor delta seen' (j.catchUp d) := by
  refine ⟨h, fun hmem ↦ ?_⟩
  have hn := h.le
  obtain ⟨hlt, -⟩ := h.run _ hmem (by omega)
  have hsome := (h.window _ _).mpr ⟨rfl, hmem, Nat.lt_succ_self _⟩
  have hnone := Instrument.catchUp_stops j d
  rw [Instrument.next, Instrument.expected_of_lt hlt, hsome] at hnone
  exact absurd hnone (by simp)

/-- A clear entry is applied or held, and the buffer is left alone. -/
theorem turn (h : Replayed n anchor delta seen j) (mono : DatagramsMono delta)
    (hlt : j.lastAppliedInstrumentSeq + 1 < 2 ^ 32) {k : InstKey} {s : Shard}
    (here : s.instruments[k]? = some j) {b : BufferedDelta}
    (hb : Shard.Filed (Numbered delta) b) (hclear : ClearAt n anchor delta seen b)
    (σ : BufferChoice) : ∃ j', (replayTurn σ k s j b).instruments[k]? = some j' ∧
      (replayTurn σ k s j b).buffered k = s.buffered k ∧
      Replayed n anchor delta (seen ++ [b.record.perInstrumentSeq]) j' := by
  obtain ⟨hnumbered, hfiled⟩ := hb
  have hexpected := Instrument.expected_of_lt hlt
  have hold : b.record.perInstrumentSeq ≤ n ∨ b.record.perInstrumentSeq ∈ seen ∨
      b.record.perInstrumentSeq ≤ j.lastAppliedInstrumentSeq + 1 + reorderWindow ∧
        j.lastAppliedMktdataSeq < b.mktdataSeq := by
    rcases Nat.lt_or_ge n b.record.perInstrumentSeq with hlo | hle
    · by_cases hnew : b.record.perInstrumentSeq ∈ seen
      · exact Or.inr (Or.inl hnew)
      · exact Or.inr (Or.inr ((h.clearAt_iff b).mp hclear hlo hnew))
    · exact Or.inl hle
  rw [replayTurn]
  split
  next hskip =>
    refine ⟨j, here, rfl, h.again ?_⟩
    rcases hold with hle | hseen | ⟨-, hpast⟩
    · exact Or.inl hle
    · exact Or.inr hseen
    · omega
  next hpast =>
    rw [not_le] at hpast
    rcases Nat.lt_trichotomy b.record.perInstrumentSeq j.expected with hbelow | heq | habove
    · rw [Shard.applyDeltaToReady_of_lt s k j _ σ hbelow]
      refine ⟨j, here, rfl, h.again ?_⟩
      rcases Nat.lt_or_ge n b.record.perInstrumentSeq with hlo | hle
      · exact Or.inr (h.reached _ hlo (by omega))
      · exact Or.inl hle
    · rw [Shard.applyDeltaToReady_of_eq s k j _ σ heq]
      exact ⟨_, Shard.setInst_self .., rfl,
        of_catchUp (h.catchUp mono hlt hnumbered (heq.trans hexpected))⟩
    · have hn := h.le
      have hnear : b.record.perInstrumentSeq ≤ j.lastAppliedInstrumentSeq + 1 + reorderWindow := by
        rcases hold with hle | hseen | ⟨hnear, -⟩
        · omega
        · exact h.near _ hseen
        · exact hnear
      have hhold : Replayed n anchor delta (seen ++ [b.record.perInstrumentSeq])
          (j.hold b.record) := by
        refine ⟨h.toReplaying.hold hnumbered (by omega) hnear (hfiled ▸ hpast), fun hmem ↦ ?_⟩
        rw [List.mem_append, List.mem_singleton] at hmem
        rcases hmem with hmem | heq
        · exact h.stopped hmem
        · change j.lastAppliedInstrumentSeq + 1 = _ at heq
          omega
      rw [Shard.applyDeltaToReady_of_hold s k j _ σ habove hhold.pendingSize_le (by omega)]
      exact ⟨_, Shard.setInst_self .., rfl, hhold⟩

/-- An entry that is not clear is lost. -/
theorem dead (h : Replayed n anchor delta seen j) (hlt : j.lastAppliedInstrumentSeq + 1 < 2 ^ 32)
    {k : InstKey} {s : Shard} (here : s.instruments[k]? = some j) {b : BufferedDelta}
    (hb : Shard.Filed (Numbered delta) b) (hnot : ¬ClearAt n anchor delta seen b)
    (σ : BufferChoice) : ∃ j', (replayTurn σ k s j b).instruments[k]? = some j' ∧
      Dead b.record.perInstrumentSeq (delta b.record.perInstrumentSeq).sequenceNumber j' := by
  obtain ⟨⟨-, hnumbered⟩, hfiled⟩ := hb
  have hexpected := Instrument.expected_of_lt hlt
  rw [h.clearAt_iff] at hnot
  push Not at hnot
  obtain ⟨hlo, hnew, hnot⟩ := hnot
  have hahead : j.lastAppliedInstrumentSeq < b.record.perInstrumentSeq := by
    by_contra hle
    exact hnew (h.reached _ hlo (by omega))
  have hgone : (j.pending.getD ∅)[b.record.perInstrumentSeq]? = none := by
    rw [Option.eq_none_iff_forall_ne_some]
    intro r hr
    exact hnew ((h.window _ r).mp hr).2.1
  rw [← hnumbered, ← hfiled, replayTurn]
  split
  next hskip =>
    refine ⟨j, here, hahead, hgone, fun x r hr ↦ ?_, Or.inl hskip⟩
    obtain ⟨rfl, hseen, hx⟩ := (h.window x r).mp hr
    have hn := h.le
    exact ⟨(h.run x hseen (by omega)).2, hskip.trans (h.ahead x hseen hx)⟩
  next hpast =>
    rw [not_le] at hpast
    have hfar : j.lastAppliedInstrumentSeq + 1 + reorderWindow < b.record.perInstrumentSeq := by
      by_contra hnear
      exact absurd (hnot (by omega)) (by omega)
    rw [Shard.applyDeltaToReady_of_gap s k j _ σ (by omega) (by rintro ⟨-, hnear⟩; omega)]
    refine ⟨_, Shard.setInst_self .., hahead, by simp [Instrument.declareGap], fun x r hr ↦ ?_,
      Or.inr hfar⟩
    simp [Instrument.declareGap] at hr

end Replayed

/-! ## The loop -/

variable (n) in
/-- The last number of all is applied, and nothing is ahead of it. -/
structure Full (seen : List ℕ) (j : Instrument) : Prop where
  last : j.lastAppliedInstrumentSeq = 2 ^ 32 - 1
  reached : n < 2 ^ 32 - 1 → 2 ^ 32 - 1 ∈ seen

/-- When every number is behind, what comes is clear. -/
theorem clear_of_full {seen : List ℕ} (h : ∀ q, n < q → q < 2 ^ 32 → q ∈ seen)
    (bs : List BufferedDelta) : Clear n anchor delta seen bs := by
  induction bs generalizing seen with
  | nil => trivial
  | cons b bs ih =>
      refine ⟨fun hlo hnew ↦ absurd (h _ hlo b.record.perInstrumentSeq_lt) hnew, ih fun q hlo hq ↦ ?_⟩
      exact List.mem_append_left _ (h q hlo hq)

namespace Shard

variable {k : InstKey} {s : Shard} {j : Instrument} {seen : List ℕ} {t bound : ℕ}
  {sl : Slice BufferedDelta}

/-- Behind the last number nothing is applied any more. -/
theorem replayTurn_full (σ : BufferChoice) (here : s.instruments[k]? = some j)
    (hlast : j.lastAppliedInstrumentSeq = 2 ^ 32 - 1) {b : BufferedDelta}
    (hb : Numbered delta b.record) : ∃ j', (replayTurn σ k s j b).instruments[k]? = some j' ∧
      j'.lastAppliedInstrumentSeq = 2 ^ 32 - 1 := by
  have hpos := hb.1
  have hexpected : j.expected = 0 := by
    rw [Instrument.expected]
    omega
  have habove : j.expected < b.record.perInstrumentSeq := by omega
  rw [replayTurn]
  split
  · exact ⟨j, here, hlast⟩
  · by_cases hover : (j.hold b.record).pendingSize ≤ reorderWindow ∧
        b.record.perInstrumentSeq - j.expected ≤ reorderWindow
    · rw [applyDeltaToReady_of_hold s k j _ σ habove hover.1 hover.2]
      exact ⟨_, setInst_self .., hlast⟩
    · rw [applyDeltaToReady_of_gap s k j _ σ habove hover]
      exact ⟨_, setInst_self .., hlast⟩

theorem replayLoop_full (σ : Choices) {turns : ℕ} {arr : List BufferedDelta}
    (here : s.instruments[k]? = some j) (hlast : j.lastAppliedInstrumentSeq = 2 ^ 32 - 1)
    (hr : Replays (Numbered delta) bound k sl s arr t) :
    ∃ j', (replayLoop σ k sl turns t arr s).instruments[k]? = some j' ∧
      j'.lastAppliedInstrumentSeq = 2 ^ 32 - 1 := by
  induction turns generalizing s j arr t bound with
  | zero => exact ⟨j, here, hlast⟩
  | succ turns ih =>
      cases hb : (Slice.ranged sl (s.buffered k) arr)[sl.off + t]? with
      | none =>
          rw [replayLoop, here, hb]
          exact ⟨j, here, hlast⟩
      | some b =>
          rw [replayLoop_turn σ here hb]
          obtain ⟨j', here', hlast'⟩ := replayTurn_full (σ t) here hlast (hr.here hb).1.1
          exact ih here' hlast' (hr.turn (σ t) hb)

/-- The loop keeps everything behind a clear buffer, and loses a number of any other. -/
theorem replayLoop_keeps (σ : Choices) (mono : DatagramsMono delta) {bs : List BufferedDelta}
    (h : Replayed n anchor delta seen j) (here : s.instruments[k]? = some j)
    (hbuf : s.buffered k = sl) (hrest : sl.toList.drop t = bs)
    (hr : Replays (Numbered delta) bound k sl s sl.array t) :
    (Clear n anchor delta seen bs →
      ∃ j', (replayLoop σ k sl bs.length t sl.array s).instruments[k]? = some j' ∧
        (Replayed n anchor delta (seen ++ bs.map fun b ↦ b.record.perInstrumentSeq) j' ∨
          Full n (seen ++ bs.map fun b ↦ b.record.perInstrumentSeq) j')) ∧
    (¬Clear n anchor delta seen bs →
      ∃ b ∈ bs, ∃ j', (replayLoop σ k sl bs.length t sl.array s).instruments[k]? = some j' ∧
        j'.lastAppliedInstrumentSeq < b.record.perInstrumentSeq ∧
        (j'.pending.getD ∅)[b.record.perInstrumentSeq]? = none) := by
  induction bs generalizing s j t seen bound with
  | nil =>
      rw [List.map_nil, List.append_nil]
      exact ⟨fun _ ↦ ⟨j, here, Or.inl h⟩, fun hnot ↦ absurd trivial hnot⟩
  | cons b bs ih =>
      have harr : Slice.ranged sl (s.buffered k) sl.array = sl.array := by
        rw [hbuf]
        exact if_pos rfl
      have hb : (Slice.ranged sl (s.buffered k) sl.array)[sl.off + t]? = some b := by
        have hhead : (sl.toList.drop t)[0]? = some b := by rw [hrest]; rfl
        rw [harr]
        rwa [List.getElem?_drop, Nat.add_zero, Slice.toList, List.getElem?_drop] at hhead
      have hfiled := (hr.here hb).1
      by_cases hlt : j.lastAppliedInstrumentSeq + 1 < 2 ^ 32
      · rw [List.length_cons, replayLoop_turn σ here hb, List.map_cons, List.append_cons, harr]
        have hturn := hr.turn (σ t) hb (i := j)
        rw [harr] at hturn
        by_cases hclear : ClearAt n anchor delta seen b
        · obtain ⟨j', here', hsame, hnext⟩ := h.turn mono hlt here hfiled hclear (σ t)
          have hdrop : sl.toList.drop (t + 1) = bs := by
            rw [← List.drop_drop, hrest]
            rfl
          obtain ⟨hkeeps, hloses⟩ := ih hnext here' (hsame.trans hbuf) hdrop hturn
          refine ⟨fun hall ↦ hkeeps hall.2, fun hnot ↦ ?_⟩
          obtain ⟨b', hb', hlost⟩ := hloses fun hall ↦ hnot ⟨hclear, hall⟩
          exact ⟨b', List.mem_cons_of_mem b hb', hlost⟩
        · refine ⟨fun hall ↦ absurd hall.1 hclear, fun _ ↦ ?_⟩
          obtain ⟨j', here', hdead⟩ := h.dead hlt here hfiled hclear (σ t)
          have hM : b.mktdataSeq = (delta b.record.perInstrumentSeq).sequenceNumber := by
            rw [← hfiled.1.2, hfiled.2]
          obtain ⟨j'', here'', hdead'⟩ := hdead.loop σ b.record.perInstrumentSeq_lt here' hM.ge hturn
          exact ⟨b, List.mem_cons_self, j'', here'', hdead'.ahead, hdead'.gone⟩
      · have hbound := h.bound
        have hlast : j.lastAppliedInstrumentSeq = 2 ^ 32 - 1 := by omega
        obtain ⟨j', here', hlast'⟩ := replayLoop_full σ here hlast hr
        refine ⟨fun _ ↦ ⟨j', here', Or.inr ⟨hlast', fun hlo ↦ ?_⟩⟩, fun hnot ↦ absurd ?_ hnot⟩
        · exact List.mem_append_left _ (h.reached _ hlo hlast.ge)
        · exact clear_of_full (fun q hlo hq ↦ h.reached q hlo (by omega)) _

end Shard

end

/-! ## The commit -/

/-- Every buffered delta ahead of the book is held, in the reorder window or in the buffer. -/
def KeepsLater (k : InstKey) (buf : List BufferedDelta) (s : Shard) : Prop :=
  ∃ j, s.instruments[k]? = some j ∧ ∀ b ∈ buf,
    j.lastAppliedInstrumentSeq < b.record.perInstrumentSeq →
      (j.pending.getD ∅)[b.record.perInstrumentSeq]? = some b.record ∨
        b ∈ (s.buffered k).toList

namespace Shard

variable {k : InstKey} {s : Shard} {i : Instrument} {p : PendingSnapshot} {e : Record}
  {delta : ℕ → Record}

/-- The state in which a replay starts. -/
theorem committed_replayed (hnone : i.pending = none) (hlt : p.lastInstrumentSeq < 2 ^ 32) :
    Replayed p.lastInstrumentSeq p.anchorSeq delta [] (i.commitSnapshot p) := by
  refine ⟨?_, List.not_mem_nil⟩
  exact
    { ready := rfl
      le := le_refl _
      bound := hlt
      run := fun q hq ↦ absurd hq List.not_mem_nil
      reached := fun q hlo hhi ↦ absurd hlo (Nat.not_lt_of_le hhi)
      near := fun q hq ↦ absurd hq List.not_mem_nil
      datagram := (if_pos rfl).symm
      window := fun q r ↦ by simp [Instrument.commitSnapshot, hnone]
      ahead := fun q hq ↦ absurd hq List.not_mem_nil }

/-- What a commit leaves, in terms of the buffer it met. -/
theorem commit_keeps (σ : Choices) (mono : DatagramsMono delta)
    (here : s.instruments[k]? = some i) (hopen : i.openSnapshot = some p)
    (commit : p.Committable e) (hnone : i.pending = none) (hlt : p.lastInstrumentSeq < 2 ^ 32)
    (hs : (s.view k).Holds (Numbered delta)) :
    (Clear p.lastInstrumentSeq p.anchorSeq delta [] (s.view k).buf →
      ∃ j, (s.applySnapshotEnd k e σ).1.instruments[k]? = some j ∧
        (Replayed p.lastInstrumentSeq p.anchorSeq delta
            ((s.view k).buf.map fun b ↦ b.record.perInstrumentSeq) j ∨
          Full p.lastInstrumentSeq
            ((s.view k).buf.map fun b ↦ b.record.perInstrumentSeq) j)) ∧
    (¬Clear p.lastInstrumentSeq p.anchorSeq delta [] (s.view k).buf →
      ∃ b ∈ (s.view k).buf, ∃ j, (s.applySnapshotEnd k e σ).1.instruments[k]? = some j ∧
        j.lastAppliedInstrumentSeq < b.record.perInstrumentSeq ∧
        (j.pending.getD ∅)[b.record.perInstrumentSeq]? = none) := by
  have hbuf : ((s.closed k e.snapshotID).setInst k (i.commitSnapshot p)).buffered k =
      s.buffered k := by
    simp only [buffered, setInst, closed_deltaBuf]
  rw [applySnapshotEnd_of_commit σ here hopen commit, replayBuffer, hbuf]
  have hstart : Replays (Numbered delta) 0 k (s.buffered k)
      ((s.closed k e.snapshotID).setInst k (i.commitSnapshot p)) (s.buffered k).array 0 := by
    rw [Replays, hbuf]
    exact Slice.Ranging.start hs.buffer hs.sorted
  exact replayLoop_keeps σ mono (committed_replayed hnone hlt) (setInst_self ..) hbuf
    List.drop_zero hstart

end Shard

/-! ## Runs whose commits are clear -/

/-- Outside a replay: a ready instrument has no shadow, one that is not ready holds nothing in
its window, and a shadow's number is one of 32 bits. -/
structure Settled (v : View) : Prop where
  ready : ∀ i, v.inst = some i → i.status = .ready → i.openSnapshot = none
  idle : ∀ i, v.inst = some i → i.status ≠ .ready → i.pending = none
  shadow : ∀ i p, v.inst = some i → i.openSnapshot = some p → p.lastInstrumentSeq < 2 ^ 32

/-- The message, if it commits the shadow of `k`, meets a clear buffer, and the last number of
all stands neither in the snapshot nor in the buffer. -/
def CommitsClear (delta : ℕ → Record) (k : InstKey) (v : View) (msg : ShardMsg) : Prop :=
  ∀ rec i p, msg = .record rec → rec.type = .snapshotEnd → rec.key = k → v.inst = some i →
    i.openSnapshot = some p → p.Committable rec →
      p.lastInstrumentSeq < 2 ^ 32 - 1 ∧
      (∀ b ∈ v.buf, b.record.perInstrumentSeq < 2 ^ 32 - 1) ∧
      Clear p.lastInstrumentSeq p.anchorSeq delta [] v.buf

namespace Settled

variable {v v' : View} {k : InstKey} {Q : Record → Prop}

theorem empty : Settled View.empty :=
  ⟨by rintro i ⟨⟩, by rintro i ⟨⟩, by rintro i p ⟨⟩⟩

/-- A settled instrument takes the place of the old one. -/
theorem of_inst {w : View} {j : Instrument} (hw : w.inst = some j)
    (ready : j.status = .ready → j.openSnapshot = none)
    (idle : j.status ≠ .ready → j.pending = none)
    (shadow : ∀ p, j.openSnapshot = some p → p.lastInstrumentSeq < 2 ^ 32) : Settled w where
  ready := fun _ hi ↦ Option.some.inj (hw.symm.trans hi) ▸ ready
  idle := fun _ hi ↦ Option.some.inj (hw.symm.trans hi) ▸ idle
  shadow := fun _ p hi ↦ Option.some.inj (hw.symm.trans hi) ▸ shadow p

theorem congr (h : Settled v) (hinst : v'.inst = v.inst) : Settled v' where
  ready := fun i hi ↦ h.ready i (hinst ▸ hi)
  idle := fun i hi ↦ h.idle i (hinst ▸ hi)
  shadow := fun i p hi ↦ h.shadow i p (hinst ▸ hi)

/-- Outside a replay every move keeps the instrument settled. -/
theorem move (h : Settled v) (hmove : View.Move Q False v v') : Settled v' := by
  cases hmove with
  | turn here live transition =>
      have hready := live.resolve_right not_false
      have hshadow := h.ready _ here hready
      cases transition with
      | hold =>
          exact of_inst rfl (fun _ ↦ hshadow) (fun hnot ↦ absurd hready hnot)
            (fun p hp ↦ h.shadow _ p here hp)
      | gap => exact of_inst rfl (fun _ ↦ hshadow) (fun _ ↦ rfl) (fun p hp ↦ h.shadow _ p here hp)
      | contiguous =>
          exact of_inst rfl (fun _ ↦ by simpa using hshadow)
            (fun hnot ↦ absurd hready (by simpa using hnot))
            (fun p hp ↦ h.shadow _ p here (by simpa using hp))
  | buffer => exact h.congr rfl
  | drop => exact h.congr rfl

/-- So does every message, short of its replay. -/
theorem act (h : Settled v) (msg : ShardMsg) : Settled (v.act k msg) := by
  have hnew : let i := v.inst.getD (Instrument.new k.id "" 0 0)
      (i.status = .ready → i.openSnapshot = none) ∧ (i.status ≠ .ready → i.pending = none) ∧
        ∀ p, i.openSnapshot = some p → p.lastInstrumentSeq < 2 ^ 32 := by
    cases hinst : v.inst with
    | none => exact ⟨fun _ ↦ rfl, fun _ ↦ rfl, by rintro p ⟨⟩⟩
    | some i => exact ⟨h.ready i hinst, h.idle i hinst, fun p hp ↦ h.shadow i p hinst hp⟩
  obtain ⟨hready, hidle, hshadow⟩ := hnew
  cases msg with
  | record rec =>
      rw [View.act, View.record]
      split
      · split
        · exact of_inst rfl hready hidle hshadow
        · exact h
      · split
        · refine of_inst rfl (fun ready ↦ ?_) (fun hnot ↦ ?_) fun p hp ↦ ?_
          · rw [Instrument.begun_status] at ready
            rw [Instrument.begun, if_pos ready]
            exact hready ready
          · rw [Instrument.begun_status] at hnot
            rw [Instrument.begun_pending]
            exact hidle hnot
          · rw [Instrument.begun] at hp
            split at hp
            · exact hshadow p hp
            · obtain rfl := Option.some.inj hp
              exact toUint32_lt _
        · exact h.congr rfl
      · split
        · cases hinst : v.inst with
          | none => exact h.congr (by rw [hinst]; rfl)
          | some i =>
              refine of_inst (j := i.filed rec) rfl (fun ready ↦ ?_) (fun hnot ↦ ?_) fun p hp ↦ ?_
              · rw [Instrument.filed_status] at ready
                rw [Instrument.filed_eq, h.ready i hinst ready]
                rfl
              · rw [Instrument.filed_status] at hnot
                rw [Instrument.filed_pending]
                exact h.idle i hinst hnot
              · rw [Instrument.filed_eq] at hp
                obtain ⟨p', hp', rfl⟩ := Option.map_eq_some_iff.mp hp
                have hlast : (Instrument.shadowAfter rec p').lastInstrumentSeq =
                    p'.lastInstrumentSeq := by
                  rw [Instrument.shadowAfter]
                  split
                  · rfl
                  · exact (p'.addOrder_eq rec).2.1
                rw [hlast]
                exact h.shadow i p' hinst hp'
        · exact h
      · split
        · cases hinst : v.inst with
          | none => exact h.congr (by rw [hinst]; rfl)
          | some i =>
              rcases i.ended_cases rec with heq | heq | ⟨p, -, -, heq⟩
              · refine h.congr ?_
                rw [hinst, Option.map_some, heq]
              · refine of_inst (j := { i with openSnapshot := none }) ?_ (fun _ ↦ rfl)
                  (fun hnot ↦ h.idle i hinst hnot) (by rintro p ⟨⟩)
                rw [Option.map_some, heq]
              · refine of_inst (j := i.commitSnapshot p) ?_ (fun _ ↦ rfl)
                  (fun hnot ↦ absurd rfl hnot) (by rintro p ⟨⟩)
                rw [Option.map_some, heq]
        · exact h.congr rfl
      · split
        next hreset =>
          obtain ⟨i, hinst⟩ := Option.isSome_iff_exists.mp hreset.2
          refine of_inst (j := i.reset) ?_ (fun _ ↦ rfl) (fun _ ↦ rfl) (by rintro p ⟨⟩)
          rw [hinst]
          rfl
        next => exact h
      · exact h
  | reset ch =>
      rw [View.act]
      split
      · exact empty
      · exact h
  | fence => exact h
  | clearShadows =>
      cases hinst : v.inst with
      | none => exact h.congr (by simp [View.act, hinst])
      | some i =>
          refine of_inst (j := { i with openSnapshot := none }) (by simp [View.act, hinst])
            (fun _ ↦ rfl) (fun hnot ↦ h.idle i hinst hnot) (by rintro p ⟨⟩)

end Settled

namespace Shard

variable {k : InstKey} {s : Shard} {delta : ℕ → Record} {Q : InstKey → Record → Prop}

/-- A step that meets a clear buffer, if it commits, keeps the instrument settled. -/
theorem step_settled (mono : DatagramsMono delta) (filed : s.GroupsFiled)
    (hs : ∀ k', (s.view k').Holds fun rec ↦ k' = k → Numbered delta rec) {a : Turn}
    (own : ∀ rec, a.2 = .record rec → rec.isDelta → rec.key = k → Numbered delta rec)
    (h : Settled (s.view k)) (clear : CommitsClear delta k (s.view k) a.2) :
    Settled ((s.step a).view k) := by
  have hmoves := s.step_moves k a filed hs own
  by_cases hcommit : (s.view k).Commits k a.2
  · obtain ⟨e, i, p, hmsg, htype, hkey, here, hopen, commit⟩ := hcommit
    obtain ⟨hlast, hbuf, hclear⟩ := clear e i p hmsg htype hkey here hopen commit
    have hstatus : i.status ≠ .ready := by
      intro ready
      rw [h.ready i here ready] at hopen
      exact absurd hopen (by simp)
    have hholds := (hs k).mono fun r hr ↦ hr rfl
    obtain ⟨j, hj, hend⟩ := (commit_keeps a.1 mono here hopen commit (h.idle i here hstatus)
      (h.shadow i p here hopen) hholds).1 hclear
    have hstep : s.step a = (s.applySnapshotEnd k e a.1).1 := by
      rw [step, hmsg]
      simp only [apply, htype, hkey]
    -- no move opens a shadow, and the commit closed it
    have hshadow : ∀ j, ((s.step a).view k).inst = some j → j.openSnapshot = none := by
      refine hmoves.induction (P := fun v ↦ ∀ j, v.inst = some j → j.openSnapshot = none) ?_ ?_
      · intro j hj
        have hended : i.ended e = i.commitSnapshot p := by
          rw [Instrument.ended, hopen]
          dsimp only
          rw [if_neg (by rw [commit.snapshotID]; exact lt_irrefl _),
            Instrument.endSnapshot_of_commit hopen commit]
        simp only [hmsg, View.act, View.record, htype, hkey, if_true] at hj
        rw [here, Option.map_some, hended] at hj
        rw [← Option.some.inj hj]
        rfl
      · intro v v' hmove hv j hj
        cases hmove with
        | turn here live transition =>
            obtain rfl := Option.some.inj hj
            rw [transition.openSnapshot]
            exact hv _ here
        | buffer => exact hv j hj
        | drop => exact hv j hj
    rw [← hstep] at hj
    have hready : j.status = .ready := by
      rcases hend with hend | hfull
      · exact hend.ready
      · obtain ⟨b, hb, hseq⟩ := List.mem_map.mp (hfull.reached hlast)
        have := hbuf b hb
        omega
    refine Settled.of_inst (j := j) hj (fun _ ↦ hshadow j hj) (fun hnot ↦ absurd hready hnot)
      fun q hq ↦ ?_
    rw [hshadow j hj] at hq
    exact absurd hq (by simp)
  · refine hmoves.induction (h.act a.2) fun v v' hmove hv ↦ ?_
    exact hv.move (hmove.mono (fun _ hr ↦ hr) hcommit)

theorem run_settled (mono : DatagramsMono delta) {past : List Turn}
    (own : Given (fun k' rec ↦ k' = k → Numbered delta rec) past)
    (clear : ∀ pre a, pre ++ [a] <+: past →
      CommitsClear delta k ((run step new pre).view k) a.2) :
    Settled ((run step new past).view k) := by
  refine run_history (P := fun _ (s : Shard) ↦ Settled (s.view k)) past
    (by rw [new_view]; exact Settled.empty) fun pre a hpre h ↦ ?_
  have hpre' : pre <+: past := (List.prefix_append pre [a]).trans hpre
  obtain ⟨filed, hs⟩ := run_holds (Q := fun k' rec ↦ k' = k → Numbered delta rec)
    fun b hb ↦ own b (hpre'.subset hb)
  exact step_settled mono filed hs (own a (hpre.subset (by simp))) h (clear pre a hpre)

/-- **What a replay keeps.**  In a run whose earlier commits met clear buffers, a commit keeps
every buffered delta that is ahead of the book it leaves exactly when its buffer is clear.  The
replay of a clear buffer demotes the instrument only when nothing is ahead. -/
theorem replay_keeps_iff (mono : DatagramsMono delta) {past : List Turn}
    (own : Given (fun k' rec ↦ k' = k → Numbered delta rec) past)
    (clear : ∀ pre a, pre ++ [a] <+: past →
      CommitsClear delta k ((run step new pre).view k) a.2)
    (σ : Choices) {e : Record} {i : Instrument} {p : PendingSnapshot}
    (here : (run step new past).instruments[k]? = some i) (hopen : i.openSnapshot = some p)
    (commit : p.Committable e) :
    (KeepsLater k ((run step new past).buffered k).toList
        ((run step new past).applySnapshotEnd k e σ).1 ↔
      Clear p.lastInstrumentSeq p.anchorSeq delta [] ((run step new past).buffered k).toList) ∧
    (Clear p.lastInstrumentSeq p.anchorSeq delta [] ((run step new past).buffered k).toList →
      ∃ j, ((run step new past).applySnapshotEnd k e σ).1.instruments[k]? = some j ∧
        (j.status ≠ .ready → ∀ b ∈ ((run step new past).buffered k).toList,
          b.record.perInstrumentSeq ≤ j.lastAppliedInstrumentSeq)) := by
  have hsettled := run_settled mono own clear
  obtain ⟨filed, hs⟩ := run_holds own
  have hholds := (hs k).mono fun r hr ↦ hr rfl
  generalize run step new past = s at *
  have hstatus : i.status ≠ .ready := by
    intro ready
    rw [hsettled.ready i here ready] at hopen
    exact absurd hopen (by simp)
  obtain ⟨hkeeps, hloses⟩ := commit_keeps σ mono here hopen commit
    (hsettled.idle i here hstatus) (hsettled.shadow i p here hopen) hholds
  have hdropped : ((s.applySnapshotEnd k e σ).1.buffered k).toList = [] := by
    rw [applySnapshotEnd_of_commit σ here hopen commit, ← view_buf, replayBuffer, view_dropBuffer,
      if_pos rfl]
  refine ⟨⟨?_, fun hclear ↦ ?_⟩, fun hclear ↦ ?_⟩
  · rintro ⟨j, hj, hall⟩
    by_contra hnot
    obtain ⟨b, hb, j', hj', hahead, hgone⟩ := hloses hnot
    obtain rfl : j = j' := Option.some.inj (hj.symm.trans hj')
    rcases hall b hb hahead with hheld | hbuf
    · rw [hgone] at hheld
      exact absurd hheld (by simp)
    · rw [hdropped] at hbuf
      exact absurd hbuf List.not_mem_nil
  · obtain ⟨j, hj, hend⟩ := hkeeps hclear
    refine ⟨j, hj, fun b hb hahead ↦ Or.inl ?_⟩
    rcases hend with hend | hfull
    · rw [hend.window]
      exact ⟨(hholds.buffer b hb).1.2, List.mem_map_of_mem hb, hahead⟩
    · have := b.record.perInstrumentSeq_lt
      have := hfull.last
      omega
  · obtain ⟨j, hj, hend⟩ := hkeeps hclear
    refine ⟨j, hj, fun hnot b hb ↦ ?_⟩
    rcases hend with hend | hfull
    · exact absurd hend.ready hnot
    · have := b.record.perInstrumentSeq_lt
      have := hfull.last
      omega

/-! ## A hole within the window, and one beyond it -/

/-- One delta for each number, in a datagram of its own. -/
def addDelta (q : ℕ) : Record := orderAddRec ⟨0, 11⟩ q (90 + q) 900 3

theorem addDelta_mono : DatagramsMono addDelta :=
  fun _ _ _ hlm ↦ Nat.add_le_add_left hlm 90

/-- A snapshot for five is open, and the deltas `qs` are buffered. -/
def beforeEnd (qs : List ℕ) : List Turn :=
  (.record (snapInstDefRec ⟨0, 11⟩ "BTC") :: .record (snapshotBeginRec ⟨0, 11⟩ 1 0 50 5) ::
    qs.map fun q ↦ .record (addDelta q)).map fun msg ↦ (default, msg)

/-- Numbers six and eight: the first is applied, and the second is held. -/
theorem replay_keeps_iff_hole :
    KeepsLater ⟨0, 11⟩ ((run step new (beforeEnd [6, 8])).buffered ⟨0, 11⟩).toList
      ((run step new (beforeEnd [6, 8])).applySnapshotEnd ⟨0, 11⟩
        (snapshotEndRec ⟨0, 11⟩ 1 50) default).1 := by
  have hstate : ((run step new (beforeEnd [6, 8])).instruments[(⟨0, 11⟩ : InstKey)]?.any fun i ↦
      i.openSnapshot.any fun p ↦ decide (p.Committable (snapshotEndRec ⟨0, 11⟩ 1 50) ∧
        p.lastInstrumentSeq = 5 ∧ p.anchorSeq = 50)) = true := by
    decide
  simp only [Option.any_eq_true, decide_eq_true_iff] at hstate
  obtain ⟨i, hi, p, hp, hcommit, hlast, hanchor⟩ := hstate
  have hbuf : ((run step new (beforeEnd [6, 8])).buffered ⟨0, 11⟩).toList =
      [⟨96, addDelta 6⟩, ⟨98, addDelta 8⟩] := by
    decide
  refine (replay_keeps_iff addDelta_mono ?_ ?_ default hi hp hcommit).1.mpr ?_
  · simp only [Given, beforeEnd, List.map_cons, List.map_nil, List.forall_mem_cons]
    refine ⟨?_, ?_, ?_, ?_, by simp⟩ <;> rintro rec ⟨⟩ hdelta -
    · exact absurd hdelta (by decide)
    · exact absurd hdelta (by decide)
    · exact ⟨by decide, by decide⟩
    · exact ⟨by decide, by decide⟩
  · simp only [beforeEnd, List.map_cons, List.map_nil, forall_prefix_cons]
    refine ⟨?_, ?_, ?_, ?_, forall_prefix_nil⟩ <;> rintro rec i p ⟨⟩ htype <;>
      exact absurd htype (by decide)
  · rw [hbuf, hlast, hanchor]
    refine ⟨fun _ _ e he ↦ ?_, fun _ _ e he ↦ ?_, trivial⟩
    · rw [he.unique (FirstMissing.nil 5)]
      decide
    · rw [he.unique (FirstMissing.of_perm_range' (m := 1) (List.Perm.refl _))]
      decide

/-- Number thirty, beyond the window: the replay demotes the instrument and drops the delta, and
a snapshot for twenty-nine leaves the book there. -/
theorem replay_loses_far :
    let s := run step new (beforeEnd [30])
    let s' := (s.applySnapshotEnd ⟨0, 11⟩ (snapshotEndRec ⟨0, 11⟩ 1 50) default).1
    let s'' := run step s' [(default, .record (snapshotBeginRec ⟨0, 11⟩ 2 0 119 29)),
      (default, .record (snapshotEndRec ⟨0, 11⟩ 2 119))]
    (s.buffered ⟨0, 11⟩).toList = [⟨120, addDelta 30⟩] ∧
      ¬KeepsLater ⟨0, 11⟩ (s.buffered ⟨0, 11⟩).toList s' ∧
      s'.instruments[(⟨0, 11⟩ : InstKey)]?.map (fun i ↦ (i.status, i.lastAppliedInstrumentSeq)) =
        some (.gap, 5) ∧
      s''.instruments[(⟨0, 11⟩ : InstKey)]?.map (fun i ↦ (i.status, i.lastAppliedInstrumentSeq)) =
        some (.ready, 29) := by
  refine ⟨by decide, ?_, by decide, by decide⟩
  rintro ⟨j, hj, hall⟩
  have hstate : (((run step new (beforeEnd [30])).applySnapshotEnd ⟨0, 11⟩
      (snapshotEndRec ⟨0, 11⟩ 1 50) default).1.instruments[(⟨0, 11⟩ : InstKey)]?.all fun j ↦
        decide (j.lastAppliedInstrumentSeq < 30 ∧ j.pending.isNone)) = true := by
    decide
  rw [hj, Option.all_some, decide_eq_true_iff, Option.isNone_iff_eq_none] at hstate
  rcases hall ⟨120, addDelta 30⟩ (by decide) hstate.1 with hheld | hbuf
  · rw [hstate.2] at hheld
    simp at hheld
  · exact absurd hbuf (by decide)

end Shard

end EdgeMulticast.MarketByOrder
