import EdgeMulticast.MarketByPrice.Completeness

/-!
# Recovery behind a reset

A reset asks for a snapshot anchored at its New Anchor Seq or later.  The instrument keeps that
requirement as one number, and two writes lose it: the next reset overwrites it, also with a
smaller number, and the first snapshot that meets it clears it.  A begin below an earlier reset
is then processed like any other (`late_reset_commits_below`, `spent_reset_commits_below`).

`Waives` is the condition on a step: a begin below the largest reset of the era opens a shadow.
`commit_above_resets` is the run without such a step: no end commits a snapshot below any reset
received so far.
-/

namespace EdgeMulticast.MarketByPrice

open Std (ExtTreeMap)
open EdgeMulticast.Lib

/-! ## The largest reset of an era -/

/-- The largest New Anchor Seq received for the instrument, after one more message.  A reset of
the channel begins an era, in which none has been received. -/
def ShardMsg.largestReset (k : InstKey) (largest : ℕ) : ShardMsg → ℕ
  | .record rec =>
      if rec.key = k ∧ rec.type = .instrumentReset then
        max largest (toUint64 rec.fields.newAnchorSeq)
      else largest
  | .reset ch => if k.ch = ch then 0 else largest
  | .fence | .manifestPrune _ | .clearShadows => largest

/-- The largest New Anchor Seq received for the instrument in the current era. -/
def largestReset (k : InstKey) (as : List Turn) : ℕ :=
  run (fun largest (a : Turn) ↦ a.2.largestReset k largest) 0 as

theorem largestReset_snoc (k : InstKey) (as : List Turn) (a : Turn) :
    largestReset k (as ++ [a]) = a.2.largestReset k (largestReset k as) := run_snoc ..

/-! ## Waived requirements -/

/-- A begin opens a shadow for a group anchored below `largest`: the anchor the instrument
requires is unset, or no larger than the group's. -/
structure Instrument.Waives (largest : ℕ) (i : Instrument) (g : SnapshotGroup) : Prop where
  below : g.anchorSeq < largest
  anchor : ∀ r ∈ i.requiredAnchorSeq, r ≤ g.anchorSeq
  demotion : ∀ r ∈ i.requiredInstrumentSeq, r ≤ g.lastInstrumentSeq
  newer : i.status = .ready → i.lastAppliedInstrumentSeq < g.lastInstrumentSeq

/-- The message is a begin of the instrument that waives an earlier reset. -/
def Waives (k : InstKey) (largest : ℕ) (v : View) (msg : ShardMsg) : Prop :=
  ∃ rec, msg = .record rec ∧ rec.key = k ∧ rec.type = .snapshotBegin ∧
    (v.instrumentFor k.id).Waives largest rec.snapshotGroup

instance (largest : ℕ) (i : Instrument) (g : SnapshotGroup) : Decidable (i.Waives largest g) :=
  decidable_of_iff (g.anchorSeq < largest ∧ (∀ r ∈ i.requiredAnchorSeq, r ≤ g.anchorSeq) ∧
      (∀ r ∈ i.requiredInstrumentSeq, r ≤ g.lastInstrumentSeq) ∧
      (i.status = .ready → i.lastAppliedInstrumentSeq < g.lastInstrumentSeq))
    ⟨fun ⟨below, anchor, demotion, newer⟩ ↦ ⟨below, anchor, demotion, newer⟩,
      fun h ↦ ⟨h.below, h.anchor, h.demotion, h.newer⟩⟩

instance (k : InstKey) (largest : ℕ) (v : View) (rec : Record) :
    Decidable (Waives k largest v (.record rec)) :=
  decidable_of_iff (rec.key = k ∧ rec.type = .snapshotBegin ∧
      (v.instrumentFor k.id).Waives largest rec.snapshotGroup)
    ⟨fun h ↦ ⟨rec, rfl, h⟩, fun ⟨_, hrec, h⟩ ↦ ShardMsg.record.inj hrec ▸ h⟩

namespace Instrument

variable {i : Instrument} {rec : Record} {n : ℕ}

/-- The shadow, when there is one, is anchored at `n` or later. -/
def ShadowFrom (n : ℕ) (i : Instrument) : Prop := ∀ p, i.openSnapshot = some p → n ≤ p.anchorSeq

theorem ShadowFrom.of_none (h : i.openSnapshot = none) : i.ShadowFrom n := by
  intro p hp
  rw [h] at hp
  exact absurd hp (by simp)

theorem ShadowFrom.congr {j : Instrument} (h : i.ShadowFrom n)
    (hopen : j.openSnapshot = i.openSnapshot) : j.ShadowFrom n := by
  intro p hp
  exact h p (hopen ▸ hp)

/-- A begin that opens a shadow below `n` waives `n`. -/
theorem ShadowFrom.snapshotBegin (h : i.ShadowFrom n) (hok : ¬i.Waives n rec.snapshotGroup) :
    (i.snapshotBegin rec).ShadowFrom n := by
  rcases i.snapshotBegin_cases rec with heq | ⟨hnewer, hanchor, hdemotion, heq⟩
  · exact h.congr (by rw [heq])
  · rintro p hp
    rw [heq] at hp
    obtain rfl := Option.some.inj hp
    change n ≤ rec.snapshotGroup.anchorSeq
    by_contra hbelow
    refine hok ⟨Nat.lt_of_not_le hbelow, hanchor, hdemotion, fun ready ↦ ?_⟩
    exact hnewer.resolve_left (not_not.mpr ready)

@[simp] theorem shadowAfter_anchorSeq (rec : Record) (p : PendingSnapshot) :
    (shadowAfter rec p).anchorSeq = p.anchorSeq := by
  simp only [shadowAfter, PendingSnapshot.addLevel]
  split <;> [skip; split] <;> rfl

theorem ShadowFrom.snapshotLevel (h : i.ShadowFrom n) : (i.snapshotLevel rec).1.ShadowFrom n := by
  rw [snapshotLevel_eq]
  rintro p hp
  obtain ⟨q, hq, rfl⟩ := Option.map_eq_some_iff.mp hp
  rw [shadowAfter_anchorSeq]
  exact h q hq

/-- Whether an end commits the shadow or discards it, no shadow is left. -/
theorem snapshotEnd_openSnapshot {p : PendingSnapshot} (hopen : i.openSnapshot = some p) :
    (i.snapshotEnd rec).1.openSnapshot = none := by
  cases hend : (i.snapshotEnd rec).2 with
  | some err => rw [snapshotEnd_of_err hend]
  | none =>
      rw [snapshotEnd_of_commit hopen ((snapshotEnd_eq_none_iff rec hopen).mp hend)]
      rfl

end Instrument

/-! ## One step -/

namespace View

variable {n : ℕ} {v v' : View} {k : InstKey}

/-- The instrument's shadow, when there is one, is anchored at `n` or later. -/
def ShadowFrom (n : ℕ) (v : View) : Prop := ∀ i, v.inst = some i → i.ShadowFrom n

theorem ShadowFrom.empty : View.empty.ShadowFrom n := by
  rintro i ⟨⟩

theorem ShadowFrom.instrumentFor (h : v.ShadowFrom n) (id : ℕ) :
    (v.instrumentFor id).ShadowFrom n := by
  rw [View.instrumentFor]
  split
  next i hi => exact h i hi
  next => exact Instrument.ShadowFrom.of_none rfl

/-- The moves of an instrument open no shadow. -/
theorem Move.shadowFrom {Q : Record → Prop} {id : ℕ} (hmove : Move Q id v v') (hv : v.Holds Q)
    (h : v.ShadowFrom n) : v'.ShadowFrom n := by
  cases hmove with
  | turn here transition =>
      rintro j ⟨⟩
      exact (h _ here).congr (transition.openSnapshot (hv.pending _ here))
  | buffer => exact h
  | evict =>
      rintro j ⟨⟩
      exact (h.instrumentFor id).congr (Instrument.evictInstrument_openSnapshot ..)

/-- A record leaves no shadow below the largest reset, unless it is a begin that waives one. -/
theorem ShadowFrom.record {rec : Record} (h : v.ShadowFrom n) (hkey : rec.key = k)
    (hok : ¬Waives k n v (.record rec)) :
    (v.record k.id rec).ShadowFrom ((ShardMsg.record rec).largestReset k n) := by
  have hlargest (htype : rec.type ≠ .instrumentReset) :
      (ShardMsg.record rec).largestReset k n = n := by
    simp [ShardMsg.largestReset, htype]
  rw [View.record]
  split
  next htype =>
      rw [hlargest (by simp [htype])]
      rintro j ⟨⟩
      cases hi : v.inst with
      | none => exact Instrument.ShadowFrom.of_none rfl
      | some i => exact (h i hi).congr rfl
  next htype =>
      rw [hlargest (by simp [htype])]
      exact h
  next htype =>
      rw [hlargest (by simp [htype])]
      rintro j ⟨⟩
      exact (h.instrumentFor k.id).snapshotBegin fun hwaives ↦ hok ⟨rec, rfl, hkey, htype, hwaives⟩
  next htype =>
      rw [hlargest (by simp [htype])]
      rintro j hj
      obtain ⟨i, hi, rfl⟩ := Option.map_eq_some_iff.mp hj
      exact (h i hi).snapshotLevel
  next htype =>
      rw [hlargest (by simp [htype])]
      cases hi : v.inst with
      | none => exact h
      | some i =>
          cases hopen : i.openSnapshot with
          | none => simpa [hopen] using h
          | some p =>
              have hended : (i.snapshotEnd rec).1.openSnapshot = none :=
                Instrument.snapshotEnd_openSnapshot hopen
              have hnone := Instrument.ShadowFrom.of_none (n := n) hended
              simp only [hopen, Option.isNone_some, Bool.false_eq_true, if_false]
              split <;> (rintro j ⟨⟩; exact hnone)
  next htype =>
      rintro j ⟨⟩
      exact Instrument.ShadowFrom.of_none rfl
  next =>
      rw [hlargest ‹_›]
      exact h

theorem ShadowFrom.act {msg : ShardMsg} (h : v.ShadowFrom n) (hok : ¬Waives k n v msg) :
    (v.act k msg).ShadowFrom (msg.largestReset k n) := by
  cases msg with
  | record rec =>
      rw [View.act]
      split
      next hkey => exact h.record hkey hok
      next hkey => rwa [ShardMsg.largestReset, if_neg fun hboth ↦ hkey hboth.1]
  | reset ch =>
      rw [View.act, ShardMsg.largestReset]
      split
      · exact ShadowFrom.empty
      · exact h
  | fence => exact h
  | manifestPrune seq =>
      rw [View.act]
      split
      · exact ShadowFrom.empty
      · exact h
  | clearShadows =>
      rintro j hj
      obtain ⟨i, hi, rfl⟩ := Option.map_eq_some_iff.mp hj
      exact Instrument.ShadowFrom.of_none rfl

end View

namespace Shard

variable {s : Shard} {k : InstKey} {n : ℕ}

theorem step_shadowFrom {a : Turn} (hs : ∀ k, s.Holds (fun _ ↦ True) k)
    (h : (s.view k).ShadowFrom n) (hok : ¬Waives k n (s.view k) a.2) :
    ((s.step a).view k).ShadowFrom (a.2.largestReset k n) := by
  have hmoves := s.step_moves (Q := fun _ _ ↦ True) a hs (fun _ _ _ ↦ trivial) k
  refine (hmoves.induction (P := fun v ↦ v.Holds (fun _ ↦ True) ∧
    v.ShadowFrom (a.2.largestReset k n)) ⟨(holds_iff.mp (hs k)).act k a.2, h.act hok⟩ ?_).2
  rintro v v' hmove ⟨hv, hshadow⟩
  exact ⟨hmove.holds hv, hmove.shadowFrom hv hshadow⟩

/-! ## Runs -/

/-- The step commits no snapshot of the instrument below `largest`. -/
def CommitsFrom (k : InstKey) (largest : ℕ) (s : Shard) (msg : ShardMsg) : Prop :=
  ∀ rec, msg = .record rec → rec.key = k → rec.type = .snapshotEnd →
    ∀ i ∈ s.instruments[k]?, ∀ p ∈ i.openSnapshot, i.Committable p rec → largest ≤ p.anchorSeq

instance (k : InstKey) (largest : ℕ) (s : Shard) (rec : Record) :
    Decidable (CommitsFrom k largest s (.record rec)) :=
  decidable_of_iff (rec.key = k → rec.type = .snapshotEnd →
      ∀ i ∈ s.instruments[k]?, ∀ p ∈ i.openSnapshot, i.Committable p rec → largest ≤ p.anchorSeq)
    ⟨fun h _ hrec ↦ ShardMsg.record.inj hrec ▸ h, fun h ↦ h rec rfl⟩

/-- The shadow of a run without waived resets is anchored at the largest reset or later. -/
theorem run_shadowFrom {maxBuffered : ℤ} {symbols : Option (List String)} {as : List Turn}
    (hok : ∀ pre a, pre ++ [a] <+: as →
      ¬Waives k (largestReset k pre) ((run step (new maxBuffered symbols) pre).view k) a.2) :
    ((run step (new maxBuffered symbols) as).view k).ShadowFrom (largestReset k as) := by
  refine run_history (P := fun pre (s : Shard) ↦ (s.view k).ShadowFrom (largestReset k pre)) as
    ?_ fun pre a hpre h ↦ ?_
  · rw [new_view]
    exact View.ShadowFrom.empty
  · rw [largestReset_snoc]
    refine step_shadowFrom ?_ h (hok pre a hpre)
    exact run_holds (fun k ↦ new_holds maxBuffered symbols _ k) fun _ _ _ _ _ ↦ trivial

/-- **Recovery waits for the largest reset.**  In every run in which no begin opens a shadow
below the largest reset received in the era, no end commits a snapshot below it. -/
theorem commit_above_resets {maxBuffered : ℤ} {symbols : Option (List String)} {as : List Turn}
    (hok : ∀ pre a, pre ++ [a] <+: as →
      ¬Waives k (largestReset k pre) ((run step (new maxBuffered symbols) pre).view k) a.2) :
    ∀ pre a, pre ++ [a] <+: as →
      CommitsFrom k (largestReset k pre) (run step (new maxBuffered symbols) pre) a.2 := by
  rintro pre a hpre rec - - - i hi p hp -
  have hpre' : pre <+: as := (List.prefix_append pre [a]).trans hpre
  have hshadow := run_shadowFrom (k := k) fun pre' b hpre'' ↦
    hok pre' b (hpre''.trans hpre')
  exact hshadow i hi p hp

/-! ## Two resets in order, late, and spent -/

def resetRec (k : InstKey) (mktSeq : ℕ) (newAnchor : ℤ) : Record where
  type := .instrumentReset
  channelID := k.ch
  sequenceNumber := mktSeq
  instrumentID := k.id
  fields := { newAnchorSeq := newAnchor }

/-- The resets to `a` and then to `b`. -/
def resets (a b : ℤ) : List Turn :=
  [.record (instDefRec ⟨0, 11⟩ "BTC" 5), .record (resetRec ⟨0, 11⟩ 90 a),
    .record (resetRec ⟨0, 11⟩ 91 b)].map fun msg ↦ (default, msg)

/-- An empty group anchored at `anchor`. -/
def group (snapID lastInstr anchor : ℤ) : List Turn :=
  [.record (snapBeginRec ⟨0, 11⟩ snapID 0 lastInstr anchor),
    .record (snapEndRec ⟨0, 11⟩ snapID anchor)].map fun msg ↦ (default, msg)

theorem commit_above_resets_inOrder :
    let pre := resets 100 300 ++ group 1 5 300 ++
      [(default, .record (snapBeginRec ⟨0, 11⟩ 2 0 9 400))]
    CommitsFrom ⟨0, 11⟩ (largestReset ⟨0, 11⟩ pre) (run step (new 10 none) pre)
      (.record (snapEndRec ⟨0, 11⟩ 2 400)) := by
  intro pre
  have hlast : pre ++ [(default, .record (snapEndRec ⟨0, 11⟩ 2 400))] <+:
      resets 100 300 ++ group 1 5 300 ++ group 2 9 400 := ⟨[], rfl⟩
  refine commit_above_resets ?_ pre _ hlast
  simp only [resets, group, List.map_cons, List.map_nil, List.cons_append, List.nil_append,
    forall_prefix_cons]
  refine ⟨?_, ?_, ?_, ?_, ?_, ?_, ?_, forall_prefix_nil⟩ <;> decide

/-- The late reset lowers the requirement: a group anchored at 100 commits behind a reset to
300. -/
theorem late_reset_commits_below :
    let as := resets 300 100 ++ [(default, .record (snapBeginRec ⟨0, 11⟩ 1 0 5 100))]
    let e := snapEndRec ⟨0, 11⟩ 1 100
    largestReset ⟨0, 11⟩ as = 300 ∧
      ¬CommitsFrom ⟨0, 11⟩ (largestReset ⟨0, 11⟩ as) (run step (new 10 none) as) (.record e) ∧
      ((run step (new 10 none) as).step (default, .record e)).instruments[
        (⟨0, 11⟩ : InstKey)]?.map (fun i ↦ (i.status, i.lastAppliedMktdataSeq)) =
          some (.ready, 100) := by
  decide

/-- The commit of a group at 300 clears the requirement: a group anchored at 200 commits
behind it. -/
theorem spent_reset_commits_below :
    let as := resets 100 300 ++ group 1 5 300 ++
      [(default, .record (snapBeginRec ⟨0, 11⟩ 2 0 6 200))]
    let e := snapEndRec ⟨0, 11⟩ 2 200
    largestReset ⟨0, 11⟩ as = 300 ∧
      ¬CommitsFrom ⟨0, 11⟩ (largestReset ⟨0, 11⟩ as) (run step (new 10 none) as) (.record e) := by
  decide

end Shard

end EdgeMulticast.MarketByPrice
