import EdgeMulticast.MarketByPrice.Accounting

/-!
# Two shards that agree on one channel

`Mirrors ch s t`: seen from every instrument of the channel `ch` the shards `s` and `t` are the
same, and `t` buffers nothing of any other channel.  What a shard does with a record of `ch` it
does with what it knows of the record's instrument, so both shards take it alike
(`Mirrors.step_both`), and what it does with a record of another channel is not seen from `ch`
(`Mirrors.step_left`).

One thing is shared by all the channels of a shard: the budget of the delta buffers, whose
overflow evicts whichever buffer is largest.  Both rules ask that none occurs in `s`; there is
then none in `t`, which buffers less.
-/

namespace EdgeMulticast.MarketByPrice

open Std (ExtTreeMap)
open EdgeMulticast.Lib

namespace Shard

variable {s s' s'' t : Shard} {k : InstKey} {rec : Record}

/-! ## Budget and overflows -/

/-- The budget is fixed and overflows are counted up. -/
structure Spends (s s' : Shard) : Prop where
  budget : s'.maxBuffered = s.maxBuffered
  overflows : s.overflows ≤ s'.overflows

theorem Spends.refl (s : Shard) : Spends s s := ⟨rfl, le_refl _⟩

theorem Spends.trans (h : Spends s s') (h' : Spends s' s'') : Spends s s'' :=
  ⟨h'.budget.trans h.budget, h.overflows.trans h'.overflows⟩

theorem setInst_spends (s : Shard) (k : InstKey) (i : Instrument) : Spends s (s.setInst k i) :=
  ⟨rfl, le_refl _⟩

theorem bufferDelta_spends (σ : MapOrder) (s : Shard) (k : InstKey) (rec : Record) :
    Spends s (s.bufferDelta σ k rec) := by
  rcases s.bufferDelta_cases σ k rec with ⟨heq, -⟩ | ⟨victim, buf, -, -, heq⟩ <;> rw [heq]
  · exact ⟨rfl, le_refl _⟩
  · exact ⟨by simp [evicted, enqueue], by simp [evicted, enqueue]⟩

theorem bufferAll_spends (σ : Choices) (s : Shard) (k : InstKey) (recs : List Record) :
    Spends s (bufferAll σ s k recs) := by
  induction recs generalizing σ s with
  | nil => exact Spends.refl s
  | cons r recs ih => exact (bufferDelta_spends ..).trans (ih ..)

theorem demoteMalformed_spends (σ : Choices) (s : Shard) (k : InstKey) (i : Instrument)
    (rec : Record) : Spends s (s.demoteMalformed σ k i rec) :=
  (setInst_spends s k _).trans (bufferAll_spends ..)

theorem applyContiguous_spends (σ : Choices) (s : Shard) (k : InstKey) (i : Instrument)
    (rec : Record) : Spends s (s.applyContiguous σ k i rec).1 := by
  rw [applyContiguous]
  split
  · exact demoteMalformed_spends ..
  · split
    · exact demoteMalformed_spends ..
    · exact setInst_spends ..

theorem applyDeltaToReady_spends (σ : Choices) (s : Shard) (k : InstKey) (i : Instrument)
    (rec : Record) : Spends s (s.applyDeltaToReady σ k i rec).1 := by
  simp only [applyDeltaToReady]
  split
  · exact Spends.refl s
  · split
    · exact demoteMalformed_spends ..
    · split
      · split
        · exact setInst_spends ..
        · exact (setInst_spends s k _).trans (bufferDelta_spends ..)
      · exact applyContiguous_spends ..

theorem applyDelta_spends (σ : Choices) (s : Shard) (k : InstKey) (rec : Record) :
    Spends s (s.applyDelta σ k rec).1 := by
  rw [applyDelta]
  split
  · exact bufferDelta_spends ..
  · split
    · exact bufferDelta_spends ..
    · exact applyDeltaToReady_spends ..

theorem replayLoop_spends (σ : Choices) (s : Shard) (k : InstKey) (bs : List BufferedDelta) :
    Spends s (replayLoop σ s k bs).1 := by
  induction bs generalizing σ s with
  | nil => exact Spends.refl s
  | cons b bs ih =>
      rw [replayLoop]
      split
      · exact Spends.refl s
      · split
        · exact ih ..
        · split
          · exact (bufferDelta_spends ..).trans (ih ..)
          · exact (applyDeltaToReady_spends ..).trans (ih ..)

theorem replayBuffer_spends (σ : Choices) (s : Shard) (k : InstKey) :
    Spends s (s.replayBuffer σ k).1 := by
  have htaken : Spends s (s.takeBuffer k) := ⟨rfl, le_refl _⟩
  exact htaken.trans (replayLoop_spends ..)

theorem noteConsistencyPoint_spends (s : Shard) (k : InstKey) (evs : List ChannelEvent) :
    Spends s (s.noteConsistencyPoint k evs) := by
  obtain ⟨touched, crossed, heq⟩ := s.noteConsistencyPoint_frame k evs
  rw [heq]
  exact ⟨rfl, le_refl _⟩

theorem applySnapshotEnd_spends (σ : Choices) (s : Shard) (k : InstKey) (rec : Record) :
    Spends s (s.applySnapshotEnd σ k rec).1 := by
  rcases s.applySnapshotEnd_cases σ k rec with
    ⟨-, heq⟩ | ⟨i, p, -, -, ⟨err, -, heq⟩ | ⟨-, evs, -, heq⟩⟩ <;> rw [heq]
  · exact Spends.refl s
  · exact ⟨rfl, le_refl _⟩
  · refine Spends.trans ?_ (noteConsistencyPoint_spends ..)
    exact (setInst_spends s k _).trans (replayBuffer_spends ..)

theorem apply_spends (σ : Choices) (s : Shard) (rec : Record) : Spends s (s.apply σ rec).1 := by
  simp only [apply]
  cases htype : rec.type with
  | strikeInterval =>
      simp only [applyStrikeInterval]
      split <;> exact ⟨rfl, le_refl _⟩
  | snapshotBegin => exact ⟨by simp [applySnapshotBegin], by simp [applySnapshotBegin]⟩
  | snapshotLevel =>
      simp only [applySnapshotLevel]
      split <;> exact ⟨rfl, le_refl _⟩
  | snapshotEnd => exact applySnapshotEnd_spends ..
  | levelUpdate | bookClear => exact (applyDelta_spends ..).trans (noteConsistencyPoint_spends ..)
  | instrumentReset =>
      simp only [applyInstrumentReset]
      split <;> exact ⟨by simp, by simp⟩
  | _ => exact ⟨rfl, le_refl _⟩

theorem foldl_spends {f : Shard → InstKey → Shard} (hf : ∀ s k, Spends s (f s k))
    (ks : List InstKey) (s : Shard) : Spends s (ks.foldl f s) :=
  run_induction (P := Spends s) ks (Spends.refl s) fun s' k _ h ↦ h.trans (hf s' k)

theorem step_spends (s : Shard) (a : Turn) : Spends s (s.step a) := by
  obtain ⟨σ, msg⟩ := a
  cases msg with
  | record rec => exact apply_spends ..
  | reset ch =>
      have := foldl_spends (f := takeBuffer) (fun _ _ ↦ ⟨rfl, le_refl _⟩)
        (s.deltaBuf.keys.filter fun k ↦ k.ch = ch) s
      exact ⟨this.budget, this.overflows⟩
  | fence => exact Spends.refl s
  | manifestPrune seq =>
      simp only [step, pruneManifest]
      split
      · exact Spends.refl s
      · exact foldl_spends (f := dropInstrument) (fun _ _ ↦ ⟨rfl, le_refl _⟩) _ s
  | clearShadows => exact ⟨rfl, le_refl _⟩

theorem run_spends (s : Shard) (as : List Turn) : Spends s (run step s as) :=
  run_induction (P := Spends s) as (Spends.refl s) fun s' a _ h ↦ h.trans (step_spends s' a)

/-- Without an overflow a delta is put in place, within the budget. -/
theorem bufferDelta_quiet {σ : MapOrder} (h : (s.bufferDelta σ k rec).overflows = s.overflows) :
    s.bufferDelta σ k rec = s.enqueue k rec ∧ s.bufferedN + 1 ≤ s.maxBuffered := by
  rcases s.bufferDelta_cases σ k rec with ⟨heq, hfit⟩ | ⟨victim, buf, -, -, heq⟩
  · refine ⟨heq, ?_⟩
    rcases hfit with hfit | hempty
    · exact hfit
    · have hself : (s.enqueue k rec).deltaBuf[k]? =
          some (insertDelta (s.buffered k) ⟨rec.sequenceNumber, rec⟩) := by
        rw [enqueue, getElem?_insert_eq, if_pos rfl]
      have hlength := congrArg List.length (hempty k _ hself)
      rw [insertDelta_length] at hlength
      exact absurd hlength (by simp)
  · rw [heq] at h
    have hone : ((s.enqueue k rec).evicted victim buf).overflows = s.overflows + 1 := rfl
    omega

theorem bufferDelta_fits (σ : MapOrder) (h : s.bufferedN + 1 ≤ s.maxBuffered) :
    s.bufferDelta σ k rec = s.enqueue k rec := by
  simp only [bufferDelta, if_neg (not_lt.mpr h), enqueue]

end Shard

/-! ## What is not served is not seen -/

/-- Without an overflow a write is seen from its own instrument only. -/
theorem Work.frame {Q : Record → Prop} {k k' : InstKey} {s s' : Shard} (h : Work Q k s s')
    (hquiet : s'.overflows = s.overflows) (hk : k ≠ k') : s'.view k' = s.view k' := by
  cases h with
  | turn => rw [Shard.view_setInst, if_neg hk]
  | buffer σ => rw [(Shard.bufferDelta_quiet hquiet).1, Shard.view_enqueue, if_neg hk]

theorem Work.spends {Q : Record → Prop} {k : InstKey} {s s' : Shard} (h : Work Q k s s') :
    s.Spends s' := by
  cases h with
  | turn => exact Shard.setInst_spends ..
  | buffer σ => exact Shard.bufferDelta_spends ..

theorem Works.frame {Q : Record → Prop} {k k' : InstKey} {s s' : Shard} (h : Works Q k s s')
    (hquiet : s'.overflows = s.overflows) (hk : k ≠ k') : s'.view k' = s.view k' := by
  suffices hboth : s.Spends s' ∧ (s'.overflows = s.overflows → s'.view k' = s.view k') from
    hboth.2 hquiet
  clear hquiet
  induction h with
  | refl => exact ⟨Shard.Spends.refl s, fun _ ↦ rfl⟩
  | tail _ hwork ih =>
      refine ⟨ih.1.trans hwork.spends, fun hquiet ↦ ?_⟩
      have hlast := hwork.spends.overflows
      have hfirst := ih.1.overflows
      rw [hwork.frame (by omega) hk, ih.2 (by omega)]

/-! ## Agreement -/

/-- The shard `t` is what `s` is to the instruments of `ch`. -/
structure Mirrors (ch : ℕ) (s t : Shard) : Prop where
  view : ∀ k, k.ch = ch → t.view k = s.view k
  alone : ∀ k : InstKey, k.ch ≠ ch → t.deltaBuf[k]? = none
  budget : t.maxBuffered = s.maxBuffered
  left : s.Accounted
  right : t.Accounted

namespace Mirrors

variable {ch : ℕ} {s t : Shard} {k : InstKey} {rec : Record}

theorem inst (h : Mirrors ch s t) (hk : k.ch = ch) : t.instruments[k]? = s.instruments[k]? :=
  congrArg View.inst (h.view k hk)

theorem buffered (h : Mirrors ch s t) (hk : k.ch = ch) : t.buffered k = s.buffered k := by
  have hbuf : t.deltaBuf[k]? = s.deltaBuf[k]? := congrArg View.buf (h.view k hk)
  rw [Shard.buffered, hbuf, Shard.buffered]

/-- The deltas of one channel are some of those of all channels. -/
theorem bufferedN_le (h : Mirrors ch s t) : t.bufferedN ≤ s.bufferedN := by
  have hsub : Submap t.deltaBuf s.deltaBuf := by
    intro k buf hbuf
    by_cases hk : k.ch = ch
    · rw [← hbuf]
      exact (congrArg View.buf (h.view k hk)).symm
    · exact absurd (hbuf.symm.trans (h.alone k hk)) (by simp)
  rw [h.left.total, h.right.total]
  exact_mod_cast hsub.tally_le List.length

theorem setInst (h : Mirrors ch s t) (k : InstKey) (i : Instrument) :
    Mirrors ch (s.setInst k i) (t.setInst k i) where
  view k' hk' := by rw [Shard.view_setInst, Shard.view_setInst, h.view k' hk']
  alone := h.alone
  budget := h.budget
  left := Shard.setInst_accounted h.left i
  right := Shard.setInst_accounted h.right i

theorem takeBuffer (h : Mirrors ch s t) (k : InstKey) :
    Mirrors ch (s.takeBuffer k) (t.takeBuffer k) where
  view k' hk' := by rw [Shard.view_takeBuffer, Shard.view_takeBuffer, h.view k' hk']
  alone k' hk' := by
    rw [Shard.takeBuffer, getElem?_erase_eq, h.alone k' hk', ite_self]
  budget := h.budget
  left := Shard.takeBuffer_accounted h.left
  right := Shard.takeBuffer_accounted h.right

/-- Without an overflow on the left there is none on the right. -/
theorem bufferDelta (h : Mirrors ch s t) (hk : k.ch = ch) (σ : MapOrder)
    (hquiet : (s.bufferDelta σ k rec).overflows = s.overflows) :
    Mirrors ch (s.bufferDelta σ k rec) (t.bufferDelta σ k rec) := by
  obtain ⟨hleft, hfits⟩ := Shard.bufferDelta_quiet hquiet
  have hright : t.bufferDelta σ k rec = t.enqueue k rec := by
    have hle := h.bufferedN_le
    have hbudget := h.budget
    exact Shard.bufferDelta_fits σ (by omega)
  refine ⟨fun k' hk' ↦ ?_, fun k' hk' ↦ ?_, ?_, ?_, ?_⟩
  · rw [hleft, hright, Shard.view_enqueue, Shard.view_enqueue, h.view k' hk']
  · rw [hright, Shard.enqueue, getElem?_insert_ne (fun hkk' : k = k' ↦ hk' (hkk' ▸ hk))]
    exact h.alone k' hk'
  · rw [hleft, hright]
    exact h.budget
  · exact Shard.bufferDelta_accounted σ h.left rec
  · exact Shard.bufferDelta_accounted σ h.right rec

theorem bufferAll (h : Mirrors ch s t) (hk : k.ch = ch) (σ : Choices) (recs : List Record)
    (hquiet : (Shard.bufferAll σ s k recs).overflows = s.overflows) :
    Mirrors ch (Shard.bufferAll σ s k recs) (Shard.bufferAll σ t k recs) := by
  induction recs generalizing σ s t with
  | nil => exact h
  | cons r recs ih =>
      have hfirst := (Shard.bufferDelta_spends (σ.sub 0).here s k r).overflows
      have hrest := (Shard.bufferAll_spends (σ.sub 1) (s.bufferDelta (σ.sub 0).here k r) k
        recs).overflows
      rw [Shard.bufferAll] at hquiet
      exact ih (h.bufferDelta hk _ (by omega)) (σ.sub 1) (by omega)

theorem demoteMalformed (h : Mirrors ch s t) (hk : k.ch = ch) (σ : Choices) (i : Instrument)
    (hquiet : (s.demoteMalformed σ k i rec).overflows = s.overflows) :
    Mirrors ch (s.demoteMalformed σ k i rec) (t.demoteMalformed σ k i rec) :=
  (h.setInst k _).bufferAll hk _ _ hquiet

theorem applyContiguous (h : Mirrors ch s t) (hk : k.ch = ch) (σ : Choices) (i : Instrument)
    (hquiet : (s.applyContiguous σ k i rec).1.overflows = s.overflows) :
    Mirrors ch (s.applyContiguous σ k i rec).1 (t.applyContiguous σ k i rec).1 := by
  rw [Shard.applyContiguous] at hquiet ⊢
  rw [Shard.applyContiguous]
  generalize i.applyOne rec = r at hquiet ⊢
  obtain ⟨j, ev, _ | err⟩ := r
  · dsimp only at hquiet ⊢
    generalize j.drainPending j.pendingSize = r at hquiet ⊢
    obtain ⟨j', evs, _ | pr⟩ := r
    · exact h.setInst k j'
    · exact h.demoteMalformed hk σ j' hquiet
  · exact h.demoteMalformed hk σ j hquiet

theorem applyDeltaToReady (h : Mirrors ch s t) (hk : k.ch = ch) (σ : Choices) (i : Instrument)
    (hquiet : (s.applyDeltaToReady σ k i rec).1.overflows = s.overflows) :
    Mirrors ch (s.applyDeltaToReady σ k i rec).1 (t.applyDeltaToReady σ k i rec).1 := by
  simp only [Shard.applyDeltaToReady] at hquiet ⊢
  by_cases hbehind : rec.perInstrumentSeq < i.nextExpectedInstrumentSeq
  · simpa only [if_pos hbehind] using h
  simp only [if_neg hbehind] at hquiet ⊢
  by_cases hmalformed : (malformedRecord rec).isSome = true
  · simp only [if_pos hmalformed] at hquiet ⊢
    exact h.demoteMalformed hk σ i hquiet
  simp only [if_neg hmalformed] at hquiet ⊢
  by_cases hahead : i.nextExpectedInstrumentSeq < rec.perInstrumentSeq
  · simp only [if_pos hahead] at hquiet ⊢
    by_cases hnear : (i.hold rec).pendingSize ≤ reorderWindow ∧
        rec.perInstrumentSeq - i.nextExpectedInstrumentSeq ≤ reorderWindow
    · simpa only [if_pos hnear] using h.setInst k _
    · simp only [if_neg hnear] at hquiet ⊢
      exact (h.setInst k _).bufferDelta hk _ hquiet
  · simp only [if_neg hahead] at hquiet ⊢
    exact h.applyContiguous hk σ i hquiet

theorem applyDelta (h : Mirrors ch s t) (hk : k.ch = ch) (σ : Choices)
    (hquiet : (s.applyDelta σ k rec).1.overflows = s.overflows) :
    Mirrors ch (s.applyDelta σ k rec).1 (t.applyDelta σ k rec).1 := by
  rw [Shard.applyDelta] at hquiet ⊢
  rw [Shard.applyDelta, h.inst hk]
  cases hinst : s.instruments[k]? with
  | none =>
      rw [hinst] at hquiet
      exact h.bufferDelta hk _ hquiet
  | some i =>
      rw [hinst] at hquiet
      dsimp only at hquiet ⊢
      by_cases hstatus : i.status ≠ .ready
      · rw [if_pos hstatus] at hquiet
        rw [if_pos hstatus, if_pos hstatus]
        exact h.bufferDelta hk _ hquiet
      · rw [if_neg hstatus] at hquiet
        rw [if_neg hstatus, if_neg hstatus]
        exact h.applyDeltaToReady hk σ i hquiet

theorem replayLoop (h : Mirrors ch s t) (hk : k.ch = ch) (σ : Choices) (bs : List BufferedDelta)
    (hquiet : (Shard.replayLoop σ s k bs).1.overflows = s.overflows) :
    Mirrors ch (Shard.replayLoop σ s k bs).1 (Shard.replayLoop σ t k bs).1 := by
  induction bs generalizing σ s t with
  | nil => exact h
  | cons b bs ih =>
      rw [Shard.replayLoop] at hquiet ⊢
      rw [Shard.replayLoop, h.inst hk]
      cases hinst : s.instruments[k]? with
      | none => exact h
      | some i =>
          rw [hinst] at hquiet
          dsimp only at hquiet ⊢
          by_cases hold : b.mktdataSeq ≤ i.lastAppliedMktdataSeq
          · rw [if_pos hold] at hquiet
            rw [if_pos hold, if_pos hold]
            exact ih h _ hquiet
          rw [if_neg hold] at hquiet
          rw [if_neg hold, if_neg hold]
          by_cases hstatus : i.status ≠ .ready
          · rw [if_pos hstatus] at hquiet
            rw [if_pos hstatus, if_pos hstatus]
            have hfirst := (Shard.bufferDelta_spends (σ.sub 0).here s k b.record).overflows
            have hrest := (Shard.replayLoop_spends (σ.sub 1)
              (s.bufferDelta (σ.sub 0).here k b.record) k bs).overflows
            exact ih (h.bufferDelta hk _ (by omega)) _ (by omega)
          · rw [if_neg hstatus] at hquiet
            rw [if_neg hstatus, if_neg hstatus]
            dsimp only at hquiet
            have hfirst := (Shard.applyDeltaToReady_spends (σ.sub 0) s k i b.record).overflows
            have hrest := (Shard.replayLoop_spends (σ.sub 1)
              (s.applyDeltaToReady (σ.sub 0) k i b.record).1 k bs).overflows
            exact ih (h.applyDeltaToReady hk _ i (by omega)) _ (by omega)

theorem replayBuffer (h : Mirrors ch s t) (hk : k.ch = ch) (σ : Choices)
    (hquiet : (s.replayBuffer σ k).1.overflows = s.overflows) :
    Mirrors ch (s.replayBuffer σ k).1 (t.replayBuffer σ k).1 := by
  rw [Shard.replayBuffer, Shard.replayBuffer, h.buffered hk]
  exact (h.takeBuffer k).replayLoop hk σ _ hquiet

/-- Monitoring crossed books is not looked at. -/
theorem noteConsistencyPoint (h : Mirrors ch s t) (k k' : InstKey) (evs evs' : List ChannelEvent) :
    Mirrors ch (s.noteConsistencyPoint k evs) (t.noteConsistencyPoint k' evs') where
  view k'' hk'' := by
    rw [Shard.view_noteConsistencyPoint, Shard.view_noteConsistencyPoint, h.view k'' hk'']
  alone k'' hk'' := by
    obtain ⟨touched, crossed, heq⟩ := t.noteConsistencyPoint_frame k' evs'
    rw [heq]
    exact h.alone k'' hk''
  budget := ((t.noteConsistencyPoint_spends k' evs').budget.trans h.budget).trans
    (s.noteConsistencyPoint_spends k evs).budget.symm
  left := Shard.noteConsistencyPoint_accounted h.left evs
  right := Shard.noteConsistencyPoint_accounted h.right evs'

theorem applySnapshotEnd (h : Mirrors ch s t) (hk : k.ch = ch) (σ : Choices)
    (hquiet : (s.applySnapshotEnd σ k rec).1.overflows = s.overflows) :
    Mirrors ch (s.applySnapshotEnd σ k rec).1 (t.applySnapshotEnd σ k rec).1 := by
  rw [Shard.applySnapshotEnd] at hquiet ⊢
  rw [Shard.applySnapshotEnd, h.inst hk]
  cases hinst : s.instruments[k]? with
  | none => exact h
  | some i =>
      rw [hinst] at hquiet
      dsimp only at hquiet ⊢
      by_cases hopen : i.openSnapshot.isNone = true
      · rw [if_pos hopen, if_pos hopen]
        exact h
      rw [if_neg hopen] at hquiet
      rw [if_neg hopen, if_neg hopen]
      generalize i.snapshotEnd rec = r at hquiet ⊢
      obtain ⟨j, _ | err⟩ := r
      · dsimp only at hquiet ⊢
        refine ((h.setInst k j).replayBuffer hk σ ?_).noteConsistencyPoint k k _ _
        obtain ⟨touched, crossed, heq⟩ :=
          ((s.setInst k j).replayBuffer σ k).1.noteConsistencyPoint_frame k _
        rw [heq] at hquiet
        exact hquiet
      · exact h.setInst k j

end Mirrors

/-! ## Steps -/

/-- Nothing is buffered for an instrument that is sent no record. -/
theorem View.act_buf_none {v : View} (k : InstKey) (msg : ShardMsg) (h : v.buf = none)
    (hother : ∀ rec, msg = .record rec → rec.key ≠ k) : (v.act k msg).buf = none := by
  cases msg with
  | record rec => rwa [View.act, if_neg (hother rec rfl)]
  | fence => exact h
  | clearShadows => exact h
  | reset ch =>
      rw [View.act]
      split
      · rfl
      · exact h
  | manifestPrune seq =>
      rw [View.act]
      split
      · rfl
      · exact h

/-- A message that changes nothing of the channel. -/
def ShardMsg.Unseen (ch : ℕ) (s : Shard) : ShardMsg → Prop
  | .record rec => rec.channelID ≠ ch
  | .reset ch' => ch' ≠ ch
  | .fence => True
  | .manifestPrune seq => ∀ k ∈ s.staleKeys seq, k.ch ≠ ch
  | .clearShadows => False

/-- Without an overflow an unseen message is not seen. -/
theorem Shard.view_of_unseen {ch : ℕ} {s : Shard} (hs : ∀ k, s.Holds (fun _ ↦ True) k) (a : Turn)
    (hunseen : a.2.Unseen ch s) (hquiet : (s.step a).overflows = s.overflows) {k : InstKey}
    (hk : k.ch = ch) : (s.step a).view k = s.view k := by
  obtain ⟨σ, msg⟩ := a
  cases msg with
  | fence => rfl
  | clearShadows => exact absurd hunseen id
  | reset ch' =>
      rw [s.view_step _ rfl, View.act, if_neg fun h ↦ hunseen (h.symm.trans hk)]
  | manifestPrune seq =>
      rw [s.view_step _ rfl, View.act, if_neg]
      rintro ⟨-, hstale⟩
      exact hunseen k ((s.mem_staleKeys seq).mpr hstale) hk
  | record rec =>
      have hkey : rec.key ≠ k := fun h ↦ hunseen ((congrArg InstKey.ch h).trans hk)
      cases hclassifies : ShardMsg.classifies (.record rec) with
      | false => rw [s.view_step _ hclassifies, View.act, if_neg hkey]
      | true =>
          simp only [Shard.step, Shard.apply] at hquiet ⊢
          cases htype : rec.type with
          | levelUpdate | bookClear =>
              simp only [htype] at hquiet
              rw [Shard.view_noteConsistencyPoint]
              refine (applyDelta_works σ (hs rec.key) trivial).frame ?_ hkey
              have hfirst := (applyDelta_spends σ s rec.key rec).overflows
              have hrest := (noteConsistencyPoint_spends (s.applyDelta σ rec.key rec).1 rec.key
                (s.applyDelta σ rec.key rec).2).overflows
              omega
          | snapshotEnd =>
              simp only [htype] at hquiet
              rcases s.applySnapshotEnd_cases σ rec.key rec with
                ⟨-, heq⟩ | ⟨i, p, -, hopen, ⟨err, -, heq⟩ | ⟨hcommit, evs, -, heq⟩⟩
              · rw [heq]
              · rw [heq, Shard.view_setInst, if_neg hkey]
              · rw [heq] at hquiet ⊢
                have hcommit' := (Instrument.snapshotEnd_eq_none_iff rec hopen).mp hcommit
                have hworks := replayBuffer_works σ (hs rec.key) hopen hcommit'
                have hfirst := (replayBuffer_spends σ (s.setInst rec.key (i.snapshotEnd rec).1)
                  rec.key).overflows
                have hrest := (noteConsistencyPoint_spends ((s.setInst rec.key
                  (i.snapshotEnd rec).1).replayBuffer σ rec.key).1 rec.key evs).overflows
                dsimp only at hquiet
                rw [setInst_overflows] at hfirst
                rw [Shard.view_noteConsistencyPoint, hworks.frame (by change _ = s.overflows; omega)
                  hkey, Shard.view_takeBuffer, if_neg hkey, Shard.view_setInst, if_neg hkey]
          | _ => simp [ShardMsg.classifies, Record.isDelta, htype] at hclassifies

namespace Mirrors

variable {ch : ℕ} {s t : Shard}

theorem unseen (h : Mirrors ch s t) {msg : ShardMsg} (hunseen : msg.Unseen ch t) :
    msg.Unseen ch s := by
  cases msg with
  | manifestPrune seq =>
      intro k hk hch
      rw [s.mem_staleKeys, ← h.view k hch, ← t.mem_staleKeys] at hk
      exact hunseen k hk hch
  | _ => exact hunseen

/-- The left shard takes a message that is not seen. -/
theorem step_left (h : Mirrors ch s t) (hs : ∀ k, s.Holds (fun _ ↦ True) k) (a : Turn)
    (hunseen : a.2.Unseen ch t) (hquiet : (s.step a).overflows = s.overflows) :
    Mirrors ch (s.step a) t where
  view k hk := by rw [h.view k hk, Shard.view_of_unseen hs a (h.unseen hunseen) hquiet hk]
  alone := h.alone
  budget := h.budget.trans (s.step_spends a).budget.symm
  left := Shard.step_accounted hs (fun _ _ _ ↦ trivial) h.left
  right := h.right

theorem run_left (h : Mirrors ch s t) (hs : ∀ k, s.Holds (fun _ ↦ True) k) (as : List Turn)
    (hunseen : ∀ a ∈ as, a.2.Unseen ch t)
    (hquiet : (run Shard.step s as).overflows = s.overflows) :
    Mirrors ch (run Shard.step s as) t := by
  induction as generalizing s with
  | nil => exact h
  | cons a as ih =>
      have hfirst := (s.step_spends a).overflows
      have hrest := ((s.step a).run_spends as).overflows
      rw [run_cons] at hquiet
      refine ih (h.step_left hs a (hunseen a List.mem_cons_self) (by omega)) ?_
        (fun b hb ↦ hunseen b (List.mem_cons_of_mem a hb)) (by omega)
      exact Shard.step_holds (Q := fun _ _ ↦ True) hs fun _ _ _ ↦ trivial

/-- The right shard prunes what does not concern the channel. -/
theorem prune_right (h : Mirrors ch s t) (ht : ∀ k, t.Holds (fun _ ↦ True) k) (σ : Choices)
    {seq : ℕ} (hunseen : (ShardMsg.manifestPrune seq).Unseen ch t) :
    Mirrors ch s (t.step (σ, .manifestPrune seq)) where
  view k hk := by
    rw [t.view_step _ rfl, ← h.view k hk, View.act, if_neg]
    rintro ⟨-, hstale⟩
    exact hunseen k ((t.mem_staleKeys seq).mpr hstale) hk
  alone k hk := by
    have hbuf := View.act_buf_none (v := t.view k) k (.manifestPrune seq) (h.alone k hk)
      fun rec hrec ↦ absurd hrec ShardMsg.noConfusion
    rwa [← t.view_step (σ, .manifestPrune seq) rfl k] at hbuf
  budget := (t.step_spends _).budget.trans h.budget
  left := h.left
  right := Shard.step_accounted ht (fun _ _ _ ↦ trivial) h.right

/-- Both shards take a message, which is of the channel if it is a record. -/
theorem step_both (h : Mirrors ch s t) (hs : ∀ k, s.Holds (fun _ ↦ True) k)
    (ht : ∀ k, t.Holds (fun _ ↦ True) k) (a : Turn)
    (hown : ∀ rec, a.2 = .record rec → rec.channelID = ch)
    (hquiet : (s.step a).overflows = s.overflows) : Mirrors ch (s.step a) (t.step a) := by
  cases hclassifies : a.2.classifies with
  | false =>
      refine ⟨fun k hk ↦ ?_, fun k hk ↦ ?_, ?_, ?_, ?_⟩
      · rw [s.view_step a hclassifies, t.view_step a hclassifies, h.view k hk]
      · have hbuf := View.act_buf_none (v := t.view k) k a.2 (h.alone k hk)
          fun rec hrec hkey ↦ hk ((congrArg InstKey.ch hkey).symm.trans (hown rec hrec))
        rwa [← t.view_step a hclassifies k] at hbuf
      · exact ((t.step_spends a).budget.trans h.budget).trans (s.step_spends a).budget.symm
      · exact Shard.step_accounted hs (fun _ _ _ ↦ trivial) h.left
      · exact Shard.step_accounted ht (fun _ _ _ ↦ trivial) h.right
  | true =>
      obtain ⟨σ, _ | _ | _ | _ | _⟩ := a
      case record rec =>
        have hkey : rec.key.ch = ch := hown rec rfl
        simp only [Shard.step, Shard.apply] at hquiet ⊢
        cases htype : rec.type with
        | levelUpdate | bookClear =>
            simp only [htype] at hquiet
            have hfirst := (Shard.applyDelta_spends σ s rec.key rec).overflows
            have hrest := (Shard.noteConsistencyPoint_spends (s.applyDelta σ rec.key rec).1 rec.key
              (s.applyDelta σ rec.key rec).2).overflows
            exact (h.applyDelta hkey σ (by omega)).noteConsistencyPoint _ _ _ _
        | snapshotEnd =>
            simp only [htype] at hquiet
            exact h.applySnapshotEnd hkey σ hquiet
        | _ => simp [ShardMsg.classifies, Record.isDelta, htype] at hclassifies
      all_goals exact absurd hclassifies Bool.noConfusion

/-- Both shards take the same messages. -/
theorem run_both (h : Mirrors ch s t) (hs : ∀ k, s.Holds (fun _ ↦ True) k)
    (ht : ∀ k, t.Holds (fun _ ↦ True) k) (as : List Turn)
    (hown : ∀ a ∈ as, ∀ rec, a.2 = .record rec → rec.channelID = ch)
    (hquiet : (run Shard.step s as).overflows = s.overflows) :
    Mirrors ch (run Shard.step s as) (run Shard.step t as) := by
  induction as generalizing s t with
  | nil => exact h
  | cons a as ih =>
      have hfirst := (s.step_spends a).overflows
      have hrest := ((s.step a).run_spends as).overflows
      rw [run_cons] at hquiet
      refine ih (h.step_both hs ht a (hown a List.mem_cons_self) (by omega)) ?_ ?_
        (fun b hb ↦ hown b (List.mem_cons_of_mem a hb)) (by omega)
      · exact Shard.step_holds (Q := fun _ _ ↦ True) hs fun _ _ _ ↦ trivial
      · exact Shard.step_holds (Q := fun _ _ ↦ True) ht fun _ _ _ ↦ trivial

end Mirrors

end EdgeMulticast.MarketByPrice
