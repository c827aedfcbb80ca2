import EdgeMulticast.MarketByPrice.Invariant

/-!
# A ready book and the number of its last delta

While an instrument stays ready its last applied number should only grow.  Deltas keep it
growing: a contiguous record is the next number, except past the wrap.  A snapshot need not.
The begin is declined unless its group is newer than the book, but deltas are applied while the
group is delivered, and the end commits whatever the shadow then is
(`snapshotEnd_moves_back`).

`Forward` is the exact condition on a step, and `last_monotone` the run it gives: as long as no
end commits a shadow that the book has passed, the number never falls.
-/

namespace EdgeMulticast.MarketByPrice

open Std (ExtTreeMap)
open EdgeMulticast.Lib

/-- The instrument under `k` exists and is ready. -/
def ReadyAt (k : InstKey) (s : Shard) : Prop := ∃ i ∈ s.instruments[k]?, i.status = .ready

instance (k : InstKey) (s : Shard) : Decidable (ReadyAt k s) :=
  inferInstanceAs (Decidable (∃ i ∈ s.instruments[k]?, i.status = .ready))

/-- A message that does not take a ready instrument back: an end does not commit a shadow the
book has passed, and a delta does not follow the largest number with zero. -/
def Instrument.Forward (i : Instrument) (rec : Record) : Prop :=
  (rec.type = .snapshotEnd → ∀ p ∈ i.openSnapshot, i.Committable p rec →
      i.lastAppliedInstrumentSeq ≤ p.lastInstrumentSeq) ∧
    (rec.isDelta = true → malformedRecord rec = none →
      ¬(i.lastAppliedInstrumentSeq = 2 ^ 32 - 1 ∧ rec.perInstrumentSeq = 0))

instance (i : Instrument) (rec : Record) : Decidable (i.Forward rec) :=
  inferInstanceAs (Decidable (_ ∧ _))

/-- The step does not take the instrument under `k` back. -/
def Forward (k : InstKey) (s : Shard) (msg : ShardMsg) : Prop :=
  ∀ rec, msg = .record rec → rec.key = k → ∀ i ∈ s.instruments[k]?, i.status = .ready →
    i.Forward rec

/-! ## Deltas -/

/-- A well-formed delta that is not numbered zero. -/
def Numbered (rec : Record) : Prop := malformedRecord rec = none → rec.perInstrumentSeq ≠ 0

namespace Instrument

variable {i : Instrument} {rec : Record}

theorem succ_of_expected {last n : ℕ} (hlast : last < 2 ^ 32) (hn : n ≠ 0)
    (h : n = (last + 1) % 2 ^ 32) : n = last + 1 := by
  omega

/-- Catching up only moves forward. -/
theorem Inv.le_catchUp (h : i.Inv (2 ^ 32)) (ready : i.status = .ready) (hi : i.Holds Numbered)
    (own : Numbered rec) (wf : malformedRecord rec = none)
    (next : rec.perInstrumentSeq = i.nextExpectedInstrumentSeq) :
    i.lastAppliedInstrumentSeq ≤ (i.catchUp rec).lastAppliedInstrumentSeq := by
  have hlost := (h.ready ready).2
  refine (drainPending_induction (P := fun j ↦ j.Holds Numbered ∧ j.lostInstrumentSeq = ∅ ∧
      j.lastAppliedInstrumentSeq < 2 ^ 32 ∧
      i.lastAppliedInstrumentSeq ≤ j.lastAppliedInstrumentSeq) ?_ _
    (hi.advance_mutate rec).wellFormed ⟨hi.advance_mutate rec, by simp [hlost],
      rec.perInstrumentSeq_lt, ?_⟩).2.2.2
  · rintro j held pr ⟨hj, hjlost, hlt, hle⟩ hheld hpr hwf
    obtain ⟨hnum, -, hseq⟩ := hj held hheld _ pr hpr
    rw [nextExpected_of_lost_empty hjlost] at hseq
    have := succ_of_expected hlt (hnum hwf) hseq
    refine ⟨hj.drainStep hheld pr, by simp [hjlost], ?_, ?_⟩
    · rw [drainStep_lastAppliedInstrumentSeq]
      exact pr.perInstrumentSeq_lt
    · rw [drainStep_lastAppliedInstrumentSeq]
      omega
  · rw [nextExpected_of_lost_empty hlost] at next
    have := succ_of_expected h.bound (own wf) next
    rw [advance_lastAppliedInstrumentSeq]
    omega

end Instrument

/-- A ready instrument has applied at least `n`. -/
def View.AtLeast (n : ℕ) (v : View) : Prop :=
  ∀ i, v.inst = some i → i.status = .ready → n ≤ i.lastAppliedInstrumentSeq

theorem View.Move.atLeast {n id : ℕ} {v v' : View} (hmove : Move Numbered id v v')
    (hv : v.Holds Numbered) (hinv : v.Inv (2 ^ 32) id) (h : v.AtLeast n) : v'.AtLeast n := by
  cases hmove with
  | @turn i i' here transition =>
      rintro j ⟨⟩ ready'
      cases transition with
      | hold ready => exact h i here ready
      | gap => simp at ready'
      | demote => simp at ready'
      | contiguous ready own wf next =>
          exact (h i here ready).trans
            ((hinv.inst i here).1.le_catchUp ready (hv.pending i here) own wf next)
  | buffer => exact h
  | evict =>
      rintro j ⟨⟩ ready'
      simp at ready'

/-! ## Messages -/

theorem View.record_atLeast {v : View} {i : Instrument} {rec : Record} (id : ℕ)
    (here : v.inst = some i) (hok : i.Forward rec) :
    (v.record id rec).AtLeast i.lastAppliedInstrumentSeq := by
  have hsame : v.AtLeast i.lastAppliedInstrumentSeq := by
    rintro j hj -
    rw [here] at hj
    rw [Option.some.inj hj]
  rw [View.record]
  split
  · rintro j ⟨⟩ -
    simp [here, Instrument.describe]
  · exact hsame
  · rintro j ⟨⟩ -
    simp [View.instrumentFor, here]
  · rintro j hj -
    obtain ⟨i', hi', rfl⟩ := Option.map_eq_some_iff.mp hj
    obtain rfl : i = i' := Option.some.inj (here.symm.trans hi')
    simp
  next htype =>
    cases hopen : i.openSnapshot with
    | none => simpa [here, hopen] using hsame
    | some p =>
        simp only [here, hopen, Option.isNone_some, Bool.false_eq_true, if_false]
        cases hend : (i.snapshotEnd rec).2 with
        | some err =>
            rintro j ⟨⟩ -
            rw [Instrument.snapshotEnd_of_err hend]
        | none =>
            rintro j ⟨⟩ -
            have hp := (Instrument.snapshotEnd_eq_none_iff rec hopen).mp hend
            rw [Instrument.snapshotEnd_of_commit hopen hp]
            exact hok.1 htype p hopen hp
  · rintro j ⟨⟩ ready
    exact absurd ready (by simp [Instrument.reset])
  · exact hsame

theorem View.act_atLeast {v : View} {i : Instrument} {k : InstKey} {msg : ShardMsg}
    (here : v.inst = some i) (hok : ∀ rec, msg = .record rec → rec.key = k → i.Forward rec) :
    (v.act k msg).AtLeast i.lastAppliedInstrumentSeq := by
  have hsame : v.AtLeast i.lastAppliedInstrumentSeq := by
    rintro j hj -
    rw [here] at hj
    rw [Option.some.inj hj]
  cases msg with
  | record rec =>
      rw [View.act]
      split
      next hkey => exact View.record_atLeast k.id here (hok rec rfl hkey)
      next => exact hsame
  | reset ch | manifestPrune seq =>
      rw [View.act]
      split
      · rintro j ⟨⟩
      · exact hsame
  | fence => exact hsame
  | clearShadows =>
      rintro j hj -
      obtain ⟨i', hi', rfl⟩ := Option.map_eq_some_iff.mp hj
      obtain rfl : i = i' := Option.some.inj (here.symm.trans hi')
      exact le_refl _

namespace Shard

variable {s : Shard} {k : InstKey} {i : Instrument}

/-- A duplicate or late delta changes nothing. -/
theorem applyDelta_stale (σ : Choices) {rec : Record} (here : s.instruments[k]? = some i)
    (ready : i.status = .ready) (late : rec.perInstrumentSeq < i.nextExpectedInstrumentSeq) :
    s.applyDelta σ k rec = (s, []) := by
  simp only [applyDelta, here, ready, ne_eq, not_true_eq_false, if_false, applyDeltaToReady,
    if_pos late]

/-- A ready instrument holds no delta numbered zero. -/
theorem holds_numbered (hs : s.Holds (fun _ ↦ True) k) (hinv : (s.view k).Inv (2 ^ 32) k.id)
    (here : s.instruments[k]? = some i) (ready : i.status = .ready) : s.Holds Numbered k where
  pending := by
    rintro j hj held hheld p r hr
    obtain ⟨-, hwf, hseq⟩ := hs.pending j hj held hheld p r hr
    have hpos := (((hinv.inst j hj).1.window held hheld).2 p r hr).1
    exact ⟨fun _ ↦ hseq ▸ hpos, hwf, hseq⟩
  buffer := by
    rintro buf hbuf
    have hnone : s.deltaBuf[k]? = none := hinv.idle i here ready
    rw [hnone] at hbuf
    exact absurd hbuf (by simp)

/-- A step that is not backwards leaves a ready instrument ahead of where it was, or not
ready. -/
theorem step_atLeast {a : Turn} (hs : ∀ k, s.Holds (fun _ ↦ True) k)
    (hinv : (s.view k).Inv (2 ^ 32) k.id) (here : s.instruments[k]? = some i)
    (ready : i.status = .ready) (hok : Forward k s a.2) :
    ((s.step a).view k).AtLeast i.lastAppliedInstrumentSeq := by
  have hok' : ∀ rec, a.2 = .record rec → rec.key = k → i.Forward rec :=
    fun rec hrec hkey ↦ hok rec hrec hkey i here ready
  by_cases hnum : ∀ rec, a.2 = .record rec → rec.isDelta → rec.key = k → Numbered rec
  · have hholds : ∀ k', s.Holds (fun rec ↦ k' = k → Numbered rec) k' := by
      intro k'
      rw [holds_iff]
      by_cases hk : k' = k
      · subst hk
        exact (holds_iff.mp (holds_numbered (hs k') hinv here ready)).mono fun r hr _ ↦ hr
      · exact (holds_iff.mp (hs k')).mono fun r _ hk' ↦ absurd hk' hk
    have hmoves := s.step_moves (Q := fun k' rec ↦ k' = k → Numbered rec) a hholds
      (fun rec hrec delta hkey ↦ hnum rec hrec delta hkey) k
    have hview : (s.view k).Holds Numbered := holds_iff.mp (holds_numbered (hs k) hinv here ready)
    refine (hmoves.induction (P := fun v ↦ v.Holds Numbered ∧ v.Inv (2 ^ 32) k.id ∧
      v.AtLeast i.lastAppliedInstrumentSeq) ⟨hview.act k a.2, hinv.act (by decide) a.2.bounded,
        View.act_atLeast here hok'⟩ ?_).2.2
    rintro v v' hmove ⟨hv, hvinv, hle⟩
    have hmove' := hmove.mono fun r hr ↦ hr rfl
    refine ⟨hmove'.holds hv, ?_, hmove'.atLeast hv hvinv hle⟩
    exact (hmove'.mono fun r _ ↦ r.perInstrumentSeq_lt).inv (by decide)
      (hv.mono fun r _ ↦ r.perInstrumentSeq_lt) hvinv
  · -- a delta numbered zero: by the hypothesis the instrument is not at the wrap, so it is late
    push Not at hnum
    obtain ⟨rec, hrec, delta, hkey, hnot⟩ := hnum
    rw [Numbered] at hnot
    push Not at hnot
    obtain ⟨hwf, hzero⟩ := hnot
    have hlast := (hok' rec hrec hkey).2 delta hwf
    have hbound := (hinv.inst i here).1.bound
    have late : rec.perInstrumentSeq < i.nextExpectedInstrumentSeq := by
      rw [Instrument.nextExpected_of_lost_empty (((hinv.inst i here).1.ready ready).2)]
      omega
    have hsame : (s.step a).view k = s.view k := by
      subst hkey
      have hstale := applyDelta_stale a.1 here ready late
      simp only [step, hrec, apply]
      cases htype : rec.type <;> simp [Record.isDelta, htype] at delta <;>
        simp [hstale, noteConsistencyPoint]
    rw [hsame]
    rintro j hj -
    rw [Option.some.inj (here.symm.trans hj)]

/-- **A ready book moves forward.**  In every run from a reachable state, as long as the
instrument stays ready and no step goes backwards, its last applied number does not fall. -/
theorem last_monotone {maxBuffered : ℤ} {symbols : Option (List String)} {past as : List Turn}
    (hready : ∀ pre, pre <+: as →
      ReadyAt k (run step (run step (new maxBuffered symbols) past) pre))
    (hok : ∀ pre a, pre ++ [a] <+: as →
      Forward k (run step (run step (new maxBuffered symbols) past) pre) a.2) :
    ∀ i j, (run step (new maxBuffered symbols) past).instruments[k]? = some i →
      (run step (run step (new maxBuffered symbols) past) as).instruments[k]? = some j →
      i.lastAppliedInstrumentSeq ≤ j.lastAppliedInstrumentSeq := by
  intro i j hi hj
  suffices h : ∀ pre, pre <+: as →
      ((run step (run step (new maxBuffered symbols) past) pre).view k).AtLeast
        i.lastAppliedInstrumentSeq by
    obtain ⟨j', hj', ready⟩ := hready as (List.prefix_refl as)
    obtain rfl : j' = j := Option.some.inj (hj'.symm.trans hj)
    exact h as (List.prefix_refl as) j' hj' ready
  intro pre
  induction pre using List.reverseRecOn with
  | nil =>
      rintro - j' hj' -
      rw [Option.some.inj (hi.symm.trans hj')]
  | append_singleton pre a ih =>
      intro hpre
      have hpre' : pre <+: as := (List.prefix_append pre [a]).trans hpre
      obtain ⟨i', hi', ready⟩ := hready pre hpre'
      have hrun : run step (run step (new maxBuffered symbols) past) pre =
          run step (new maxBuffered symbols) (past ++ pre) := (run_append ..).symm
      have hinv : ((run step (new maxBuffered symbols) (past ++ pre)).view k).Inv (2 ^ 32) k.id :=
        run_inv (by decide) maxBuffered symbols (fun b _ ↦ b.2.bounded) k
      have hholds : ∀ k, (run step (new maxBuffered symbols) (past ++ pre)).Holds
          (fun _ ↦ True) k :=
        run_holds (fun k ↦ new_holds maxBuffered symbols _ k) fun _ _ _ _ _ ↦ trivial
      rw [← hrun] at hinv hholds
      have hstep := step_atLeast hholds hinv hi' ready (hok pre a hpre)
      rw [run_snoc]
      rintro j' hj' ready'
      exact (ih hpre' i' hi' ready).trans (hstep j' hj' ready')

/-! ## Both ends of a shadow that was opened while the book was behind -/

/-- A book that is ready at five and has a shadow for seven open. -/
def behindRun : List Turn :=
  [.record (instDefRec ⟨0, 11⟩ "BTC" 5), .record (snapBeginRec ⟨0, 11⟩ 1 0 5 50),
    .record (snapEndRec ⟨0, 11⟩ 1 50), .record (snapBeginRec ⟨0, 11⟩ 2 1 7 70),
    .record (snapLevelRec ⟨0, 11⟩ 2 .bid 900 3)].map fun msg ↦ (default, msg)

/-- One delta, and the end of the group: the shadow is still ahead of the book. -/
def caughtUpRun : List Turn :=
  [.record (levelUpdateRec ⟨0, 11⟩ 60 6 .bid 901 3), .record (snapEndRec ⟨0, 11⟩ 2 70)].map
    fun msg ↦ (default, msg)

theorem last_monotone_caughtUp :
    ∃ i j, (run step (new 10 none) behindRun).instruments[(⟨0, 11⟩ : InstKey)]? = some i ∧
      (run step (run step (new 10 none) behindRun) caughtUpRun).instruments[
        (⟨0, 11⟩ : InstKey)]? = some j ∧
      i.lastAppliedInstrumentSeq ≤ j.lastAppliedInstrumentSeq := by
  obtain ⟨i, hi⟩ : ∃ i, (run step (new 10 none) behindRun).instruments[
      (⟨0, 11⟩ : InstKey)]? = some i := Option.isSome_iff_exists.mp (by decide)
  obtain ⟨j, hj⟩ : ∃ j, (run step (run step (new 10 none) behindRun) caughtUpRun).instruments[
      (⟨0, 11⟩ : InstKey)]? = some j := Option.isSome_iff_exists.mp (by decide)
  refine ⟨i, j, hi, hj, last_monotone (k := ⟨0, 11⟩) (fun pre hpre ↦ ?_) (fun pre a hpre ↦ ?_)
    i j hi hj⟩
  · rw [← List.mem_inits] at hpre
    revert pre
    decide
  · have hsteps : (pre = [] ∧ a = (default, .record (levelUpdateRec ⟨0, 11⟩ 60 6 .bid 901 3))) ∨
        (pre = [(default, .record (levelUpdateRec ⟨0, 11⟩ 60 6 .bid 901 3))] ∧
          a = (default, .record (snapEndRec ⟨0, 11⟩ 2 70))) := by
      rcases pre with _ | ⟨b, _ | ⟨c, pre⟩⟩ <;> simp_all [caughtUpRun, List.prefix_iff_eq_take]
    rcases hsteps with ⟨rfl, rfl⟩ | ⟨rfl, rfl⟩
    · rintro rec ⟨⟩ -
      decide
    · rintro rec ⟨⟩ -
      decide

/-- Deltas past the shadow, and the end of its group: the ready book falls from eight to
seven. -/
theorem snapshotEnd_moves_back :
    let s := run step (new 10 none) (behindRun ++
      [.record (levelUpdateRec ⟨0, 11⟩ 60 6 .bid 901 3),
        .record (levelUpdateRec ⟨0, 11⟩ 70 7 .bid 902 3),
        .record (levelUpdateRec ⟨0, 11⟩ 80 8 .bid 903 3)].map fun msg ↦ (default, msg))
    let s' := s.step (default, .record (snapEndRec ⟨0, 11⟩ 2 70))
    ReadyAt ⟨0, 11⟩ s ∧ ReadyAt ⟨0, 11⟩ s' ∧
      s.instruments[(⟨0, 11⟩ : InstKey)]?.map (·.lastAppliedInstrumentSeq) = some 8 ∧
      s'.instruments[(⟨0, 11⟩ : InstKey)]?.map (·.lastAppliedInstrumentSeq) = some 7 := by
  decide

end Shard

end EdgeMulticast.MarketByPrice
