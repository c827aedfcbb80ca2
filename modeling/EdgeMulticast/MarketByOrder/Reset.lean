import EdgeMulticast.MarketByOrder.Runs

/-!
# What a reset asks of the snapshots behind it

An instrument reset announces the anchor from which on snapshots describe the book again.  The
shard discards the book and the open shadow, and keeps no requirement: a begin that arrives
behind the reset opens a shadow whatever its anchor, and a reset for an instrument that is not
known yet leaves no trace at all (`Shard.reset_not_honoured`).

So the reset is honoured for as long as no begin crosses it.  An instrument becomes ready by a
commit alone (`Shard.step_ready`), a reset leaves no shadow to commit, and a shadow has the
anchor of the begin that opened it (`Shard.reset_honoured`).
-/

namespace EdgeMulticast.MarketByOrder

open Std (ExtTreeMap)
open EdgeMulticast.Lib

namespace View

/-- The instrument is ready. -/
def Ready (v : View) : Prop := ∃ i, v.inst = some i ∧ i.status = .ready

instance (v : View) : Decidable v.Ready :=
  decidable_of_iff (v.inst.any fun i ↦ decide (i.status = .ready)) 
    (by rw [Option.any_eq_true]; simp [Ready])

/-- An open shadow is anchored at `anchor` or later. -/
def ShadowFrom (anchor : ℕ) (v : View) : Prop :=
  ∀ i p, v.inst = some i → i.openSnapshot = some p → anchor ≤ p.anchorSeq

/-- The message is a begin that opens a shadow anchored before `anchor`. -/
def OpensBefore (anchor : ℕ) (v : View) (k : InstKey) (msg : ShardMsg) : Prop :=
  ∃ rec, msg = .record rec ∧ rec.type = .snapshotBegin ∧ rec.key = k ∧
    toUint64 rec.fields.anchorSeq < anchor ∧ ¬v.Ready

variable {Q : Record → Prop} {R : Prop} {v v' : View} {k : InstKey} {anchor : ℕ}

/-! ## Moves -/

/-- No move makes an instrument ready. -/
theorem Move.ready (hmove : Move Q R v v') (h : v'.Ready) : v.Ready := by
  obtain ⟨j, hj, ready⟩ := h
  cases hmove with
  | turn here live transition =>
      obtain rfl := Option.some.inj hj
      cases transition with
      | hold => exact ⟨_, here, ready⟩
      | gap => exact absurd ready (by simp [Instrument.declareGap])
      | contiguous => exact ⟨_, here, by simpa using ready⟩
  | buffer => exact ⟨j, hj, ready⟩
  | drop => exact ⟨j, hj, ready⟩

/-- A move leaves the shadow alone. -/
theorem Move.shadowFrom (hmove : Move Q R v v') (h : v.ShadowFrom anchor) :
    v'.ShadowFrom anchor := by
  cases hmove with
  | turn here live transition =>
      rintro j p ⟨⟩ hp
      cases transition with
      | hold => exact h _ p here hp
      | gap => exact h _ p here hp
      | contiguous => exact h _ p here (by simpa using hp)
  | buffer => exact h
  | drop => exact h

/-! ## Messages -/

/-- A message makes an instrument ready by committing its shadow. -/
theorem act_ready {msg : ShardMsg} (h : (v.act k msg).Ready) : v.Ready ∨ v.Commits k msg := by
  obtain ⟨j, hj, ready⟩ := h
  have hnew (hj : (v.inst.getD (Instrument.new k.id "" 0 0)).status = .ready) : v.Ready := by
    cases hinst : v.inst with
    | none => exact absurd hj (by simp [hinst, Instrument.new])
    | some i =>
        rw [hinst, Option.getD_some] at hj
        exact ⟨i, hinst, hj⟩
  cases msg with
  | record rec =>
      rw [act, record] at hj
      split at hj
      · split at hj
        · obtain rfl := Option.some.inj hj
          exact Or.inl (hnew ready)
        · exact Or.inl ⟨j, hj, ready⟩
      · dsimp only at hj
        split at hj
        · obtain rfl := Option.some.inj hj
          rw [Instrument.begun_status] at ready
          exact Or.inl (hnew ready)
        · exact Or.inl ⟨j, hj, ready⟩
      · split at hj
        · obtain ⟨i, hi, rfl⟩ := Option.map_eq_some_iff.mp hj
          rw [Instrument.filed_status] at ready
          exact Or.inl ⟨i, hi, ready⟩
        · exact Or.inl ⟨j, hj, ready⟩
      next htype =>
        dsimp only at hj
        split at hj
        next hkey =>
          obtain ⟨i, hi, rfl⟩ := Option.map_eq_some_iff.mp hj
          rcases i.ended_cases rec with heq | heq | ⟨p, hopen, hcommit, -⟩
          · exact Or.inl ⟨i, hi, heq ▸ ready⟩
          · rw [heq] at ready
            exact Or.inl ⟨i, hi, ready⟩
          · exact Or.inr ⟨rec, i, p, rfl, htype, hkey, hi, hopen, hcommit⟩
        next => exact Or.inl ⟨j, hj, ready⟩
      · split at hj
        · obtain ⟨i, hi, rfl⟩ := Option.map_eq_some_iff.mp hj
          exact absurd ready (by simp [Instrument.reset])
        · exact Or.inl ⟨j, hj, ready⟩
      · exact Or.inl ⟨j, hj, ready⟩
  | reset ch =>
      rw [act] at hj
      split at hj
      · exact absurd hj (by simp [empty])
      · exact Or.inl ⟨j, hj, ready⟩
  | fence => exact Or.inl ⟨j, hj, ready⟩
  | clearShadows =>
      obtain ⟨i, hi, rfl⟩ := Option.map_eq_some_iff.mp hj
      exact Or.inl ⟨i, hi, ready⟩

/-- A shadow has the anchor of the begin that opened it. -/
theorem ShadowFrom.act (h : v.ShadowFrom anchor) {msg : ShardMsg}
    (fresh : ¬v.OpensBefore anchor k msg) : (v.act k msg).ShadowFrom anchor := by
  have hnew : ∀ p, (v.inst.getD (Instrument.new k.id "" 0 0)).openSnapshot = some p →
      anchor ≤ p.anchorSeq := by
    intro p hp
    cases hinst : v.inst with
    | none => exact absurd hp (by simp [hinst, Instrument.new])
    | some i =>
        rw [hinst, Option.getD_some] at hp
        exact h i p hinst hp
  intro j p hj hp
  cases msg with
  | record rec =>
      rw [View.act, record] at hj
      split at hj
      · split at hj
        · obtain rfl := Option.some.inj hj
          exact hnew p hp
        · exact h j p hj hp
      next htype =>
        dsimp only at hj
        split at hj
        next hkey =>
          obtain rfl := Option.some.inj hj
          rw [Instrument.begun] at hp
          split at hp
          next => exact hnew p hp
          next hidle =>
            obtain rfl := Option.some.inj hp
            refine not_lt.mp fun hlt ↦ fresh ⟨rec, rfl, htype, hkey, hlt, ?_⟩
            rintro ⟨i, hi, ready⟩
            rw [hi] at hidle
            exact hidle ready
        next => exact h j p hj hp
      · split at hj
        · obtain ⟨i, hi, rfl⟩ := Option.map_eq_some_iff.mp hj
          rw [Instrument.filed_eq] at hp
          obtain ⟨p', hp', rfl⟩ := Option.map_eq_some_iff.mp hp
          have hanchor : (Instrument.shadowAfter rec p').anchorSeq = p'.anchorSeq := by
            simp only [Instrument.shadowAfter, PendingSnapshot.addOrder]
            repeat' split
            all_goals rfl
          rw [hanchor]
          exact h i p' hi hp'
        · exact h j p hj hp
      · dsimp only at hj
        split at hj
        · obtain ⟨i, hi, rfl⟩ := Option.map_eq_some_iff.mp hj
          rcases i.ended_cases rec with heq | heq | ⟨q, -, -, heq⟩ <;> rw [heq] at hp
          · exact h i p hi hp
          · exact absurd hp (by simp)
          · exact absurd hp (by simp [Instrument.commitSnapshot])
        · exact h j p hj hp
      · split at hj
        · obtain ⟨i, hi, rfl⟩ := Option.map_eq_some_iff.mp hj
          exact absurd hp (by simp [Instrument.reset])
        · exact h j p hj hp
      · exact h j p hj hp
  | reset ch =>
      rw [View.act] at hj
      split at hj
      · exact absurd hj (by simp [empty])
      · exact h j p hj hp
  | fence => exact h j p hj hp
  | clearShadows =>
      obtain ⟨i, hi, rfl⟩ := Option.map_eq_some_iff.mp hj
      exact absurd hp (by simp)

/-- A reset leaves no shadow and no ready instrument. -/
theorem act_reset {rec : Record} (htype : rec.type = .instrumentReset) (hkey : rec.key = k) :
    ∀ i, (v.act k (.record rec)).inst = some i →
      i.openSnapshot = none ∧ i.status = .awaitingSnapshot := by
  intro i hi
  simp only [View.act, record, htype, hkey, true_and] at hi
  cases hinst : v.inst with
  | none => simp [hinst] at hi
  | some j =>
      simp only [hinst, Option.isSome_some, if_true, Option.map_some, Option.some.injEq] at hi
      rw [← hi]
      exact ⟨rfl, rfl⟩

end View

namespace Shard

variable {s : Shard} {k : InstKey}

/-- **Only a commit makes an instrument ready.** -/
theorem step_ready (filed : s.GroupsFiled) (hs : ∀ k, (s.view k).Holds fun _ ↦ True) {a : Turn}
    (h : ((s.step a).view k).Ready) : (s.view k).Ready ∨ (s.view k).Commits k a.2 := by
  have hmoves := s.step_moves (Q := fun _ _ ↦ True) k a filed hs fun _ _ _ ↦ trivial
  exact hmoves.induction (P := fun v ↦ v.Ready → (s.view k).Ready ∨ (s.view k).Commits k a.2)
    View.act_ready (fun _ _ hmove hv h ↦ hv (hmove.ready h)) h

theorem step_shadowFrom {anchor : ℕ} (filed : s.GroupsFiled)
    (hs : ∀ k, (s.view k).Holds fun _ ↦ True) {a : Turn} (h : (s.view k).ShadowFrom anchor)
    (fresh : ¬(s.view k).OpensBefore anchor k a.2) :
    ((s.step a).view k).ShadowFrom anchor :=
  (s.step_moves (Q := fun _ _ ↦ True) k a filed hs fun _ _ _ ↦ trivial).induction (h.act fresh)
    fun _ _ hmove hv ↦ hmove.shadowFrom hv

/-- The shard behind a reset. -/
def afterReset (past : List Turn) (σ : Choices) (r : Record) : Shard :=
  run step new (past ++ [(σ, .record r)])

/-- **When a reset is honoured.**  Behind a reset for the anchor `A`, as long as no begin opens a
shadow anchored before `A`, the instrument is ready only by the commit of a snapshot anchored at
`A` or later. -/
theorem reset_honoured {past as : List Turn} {σ : Choices} {r : Record}
    (htype : r.type = .instrumentReset)
    (fresh : ∀ pre a, pre ++ [a] <+: as →
      ¬((run step (afterReset past σ r) pre).view r.key).OpensBefore
        (toUint64 r.fields.newAnchorSeq) r.key a.2) :
    ¬((afterReset past σ r).view r.key).Ready ∧
      ∀ pre a, pre ++ [a] <+: as →
        ¬((run step (afterReset past σ r) pre).view r.key).Ready →
        ((run step (afterReset past σ r) (pre ++ [a])).view r.key).Ready →
        ∃ rec i p, a.2 = .record rec ∧ rec.type = .snapshotEnd ∧ rec.key = r.key ∧
          (run step (afterReset past σ r) pre).instruments[r.key]? = some i ∧
          i.openSnapshot = some p ∧ p.Committable rec ∧
          toUint64 r.fields.newAnchorSeq ≤ p.anchorSeq := by
  have hheld (pre : List Turn) : (run step (afterReset past σ r) pre).GroupsFiled ∧
      ∀ k, ((run step (afterReset past σ r) pre).view k).Holds fun _ ↦ True := by
    rw [afterReset, ← run_append]
    exact run_holds (Given.any _)
  have hreset : ∀ i, ((afterReset past σ r).view r.key).inst = some i →
      i.openSnapshot = none ∧ i.status = .awaitingSnapshot := by
    have hview : ((run step new past).step (σ, .record r)).view r.key =
        ((run step new past).view r.key).act r.key (.record r) := by
      simp only [step, apply, htype, View.act]
      exact view_applyInstrumentReset _ _ htype
    rw [afterReset, run_snoc, hview]
    exact View.act_reset htype rfl
  refine ⟨?_, fun pre a hpre idle ready ↦ ?_⟩
  · rintro ⟨i, hi, ready⟩
    exact absurd ready (by simp [(hreset i hi).2])
  · have hpre' : pre <+: as := (List.prefix_append pre [a]).trans hpre
    have hshadow : ((run step (afterReset past σ r) pre).view r.key).ShadowFrom
        (toUint64 r.fields.newAnchorSeq) := by
      refine run_history (P := fun _ (s : Shard) ↦
        (s.view r.key).ShadowFrom (toUint64 r.fields.newAnchorSeq)) pre ?_ fun pre' b hb h ↦ ?_
      · rintro i p hi hp
        exact absurd hp (by simp [(hreset i hi).1])
      · obtain ⟨filed, hs⟩ := hheld pre'
        exact step_shadowFrom filed hs h (fresh pre' b (hb.trans hpre'))
    obtain ⟨filed, hs⟩ := hheld pre
    rw [run_snoc] at ready
    obtain ⟨rec, i, p, hrec, hend, hkey, hi, hopen, hcommit⟩ :=
      (step_ready filed hs ready).resolve_left idle
    exact ⟨rec, i, p, hrec, hend, hkey, hi, hopen, hcommit, hshadow i p hi hopen⟩

/-- A whole group, without orders, anchored at `anchor`. -/
def emptyGroup (anchor : ℤ) : List Turn :=
  [(default, .record (snapshotBeginRec ⟨0, 11⟩ 1 0 anchor 5)),
    (default, .record (snapshotEndRec ⟨0, 11⟩ 1 anchor))]

theorem reset_honoured_fresh :
    ((run step (afterReset [] default (instrumentResetRec ⟨0, 11⟩ 250)) (emptyGroup 250)).view
      ⟨0, 11⟩).Ready ∧
    ∃ rec i p, (emptyGroup 250)[1]? = some (default, .record rec) ∧
      (run step (afterReset [] default (instrumentResetRec ⟨0, 11⟩ 250))
        [(default, .record (snapshotBeginRec ⟨0, 11⟩ 1 0 250 5))]).instruments[
          (⟨0, 11⟩ : InstKey)]? = some i ∧
      i.openSnapshot = some p ∧ p.Committable rec ∧ 250 ≤ p.anchorSeq := by
  have hready : ((run step (afterReset [] default (instrumentResetRec ⟨0, 11⟩ 250))
      (emptyGroup 250)).view ⟨0, 11⟩).Ready := by decide
  have fresh : ∀ pre a, pre ++ [a] <+: emptyGroup 250 →
      ¬((run step (afterReset [] default (instrumentResetRec ⟨0, 11⟩ 250)) pre).view
        ⟨0, 11⟩).OpensBefore 250 ⟨0, 11⟩ a.2 := by
    rintro pre a hpre ⟨rec, hrec, -, -, hlt, -⟩
    have ha : a ∈ emptyGroup 250 := hpre.subset (by simp)
    simp only [emptyGroup, List.mem_cons, List.not_mem_nil, or_false] at ha
    rcases ha with rfl | rfl <;> obtain rfl := ShardMsg.record.inj hrec <;>
      exact absurd hlt (by decide)
  obtain ⟨-, hcommits⟩ := @reset_honoured [] _ default (instrumentResetRec ⟨0, 11⟩ 250) rfl fresh
  obtain ⟨rec, i, p, ⟨⟩, -, -, hi, hopen, hcommit, hanchor⟩ :=
    hcommits [(default, .record (snapshotBeginRec ⟨0, 11⟩ 1 0 250 5))]
      (default, .record (snapshotEndRec ⟨0, 11⟩ 1 250)) (List.prefix_refl _) (by decide) hready
  exact ⟨hready, _, i, p, rfl, hi, hopen, hcommit, hanchor⟩

/-- A group anchored at 100 makes the instrument ready behind a reset for 250, whether the reset
found the instrument or not. -/
theorem reset_not_honoured :
    let unknown := afterReset [] default (instrumentResetRec ⟨0, 11⟩ 250)
    let known := afterReset [(default, .record (snapInstDefRec ⟨0, 11⟩ "BTC"))] default
      (instrumentResetRec ⟨0, 11⟩ 250)
    (¬(unknown.view ⟨0, 11⟩).Ready ∧ ((run step unknown (emptyGroup 100)).view ⟨0, 11⟩).Ready ∧
      (run step unknown (emptyGroup 100)).instruments[(⟨0, 11⟩ : InstKey)]?.map
        (·.lastAppliedMktdataSeq) = some 100) ∧
    ¬(known.view ⟨0, 11⟩).Ready ∧ ((run step known (emptyGroup 100)).view ⟨0, 11⟩).Ready ∧
      (run step known (emptyGroup 100)).instruments[(⟨0, 11⟩ : InstKey)]?.map
        (·.lastAppliedMktdataSeq) = some 100 := by
  decide

end Shard

end EdgeMulticast.MarketByOrder
