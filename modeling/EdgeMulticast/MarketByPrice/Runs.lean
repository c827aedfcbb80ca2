import EdgeMulticast.MarketByPrice.View

/-!
# Runs of a shard

A run takes messages from the inbox one by one.  `Shard.run_view` is the rule the invariants
are proved by: a property of one instrument's view, which may mention the messages taken so
far, holds at the end of a run if the action of every message and every move preserve it.

The rule needs to know that the deltas a shard holds for an instrument are deltas it was given
for it; `Shard.run_holds` is that fact, and the first use of the simulation.
-/

namespace EdgeMulticast.MarketByPrice

open Std (ExtTreeMap)
open EdgeMulticast.Lib

/-- A message of the inbox with the visiting orders of the loops it drives. -/
abbrev Turn := Choices × ShardMsg

/-! ## What is held is what was given -/

namespace Instrument

/-- What a level makes of the shadow. -/
def shadowAfter (rec : Record) (p : PendingSnapshot) : PendingSnapshot :=
  if p.snapshotID ≠ toUint32 rec.fields.snapshotId then p
  else p.addLevel (sideFromString rec.fields.side) (toInt64 rec.fields.priceRaw)
    ⟨toUint64 rec.fields.qtyRaw, orderCountFrom rec.fields, toUint8 rec.fields.levelFlags⟩

theorem openSnapshot_self {i : Instrument} {shadow : Option PendingSnapshot}
    (h : i.openSnapshot = shadow) : { i with openSnapshot := shadow } = i := by
  subst h
  rfl

/-- A level touches the shadow and nothing else. -/
theorem snapshotLevel_eq (i : Instrument) (rec : Record) :
    (i.snapshotLevel rec).1 = { i with openSnapshot := i.openSnapshot.map (shadowAfter rec) } := by
  simp only [snapshotLevel, addSnapshotLevel]
  cases hopen : i.openSnapshot with
  | none => simp only [Option.map_none, openSnapshot_self hopen]
  | some p =>
      simp only [Option.map_some, shadowAfter]
      split
      · rw [openSnapshot_self hopen]
      · rfl

@[simp] theorem snapshotBegin_pending (i : Instrument) (rec : Record) :
    (i.snapshotBegin rec).pending = i.pending := by
  rcases i.snapshotBegin_cases rec with h | ⟨-, -, -, h⟩ <;> rw [h]

@[simp] theorem snapshotBegin_id (i : Instrument) (rec : Record) :
    (i.snapshotBegin rec).id = i.id := by
  rcases i.snapshotBegin_cases rec with h | ⟨-, -, -, h⟩ <;> rw [h]

@[simp] theorem snapshotBegin_status (i : Instrument) (rec : Record) :
    (i.snapshotBegin rec).status = i.status := by
  rcases i.snapshotBegin_cases rec with h | ⟨-, -, -, h⟩ <;> rw [h]

@[simp] theorem snapshotBegin_lastAppliedInstrumentSeq (i : Instrument) (rec : Record) :
    (i.snapshotBegin rec).lastAppliedInstrumentSeq = i.lastAppliedInstrumentSeq := by
  rcases i.snapshotBegin_cases rec with h | ⟨-, -, -, h⟩ <;> rw [h]

@[simp] theorem snapshotLevel_id (i : Instrument) (rec : Record) :
    (i.snapshotLevel rec).1.id = i.id := by rw [snapshotLevel_eq]

@[simp] theorem snapshotLevel_status (i : Instrument) (rec : Record) :
    (i.snapshotLevel rec).1.status = i.status := by rw [snapshotLevel_eq]

@[simp] theorem snapshotLevel_lastAppliedInstrumentSeq (i : Instrument) (rec : Record) :
    (i.snapshotLevel rec).1.lastAppliedInstrumentSeq = i.lastAppliedInstrumentSeq := by
  rw [snapshotLevel_eq]

@[simp] theorem snapshotLevel_pending (i : Instrument) (rec : Record) :
    (i.snapshotLevel rec).1.pending = i.pending := by
  rw [snapshotLevel_eq]

end Instrument

namespace View

variable {Q : Record → Prop} {id : ℕ} {v v' : View}

/-- What is held for the instrument. -/
structure Holds (Q : Record → Prop) (v : View) : Prop where
  pending : ∀ i, v.inst = some i → i.Holds Q
  buffer : ∀ buf, v.buf = some buf → BufferHolds Q buf

theorem Holds.empty : View.empty.Holds Q where
  pending := by rintro i ⟨⟩
  buffer := by rintro buf ⟨⟩

theorem Holds.mono {Q' : Record → Prop} (hQ : ∀ r, Q r → Q' r) (h : v.Holds Q) :
    v.Holds Q' where
  pending := fun i hi held hheld p r hr ↦
    let ⟨own, rest⟩ := h.pending i hi held hheld p r hr
    ⟨hQ r own, rest⟩
  buffer := fun buf hbuf b hb ↦ ⟨hQ _ (h.buffer buf hbuf b hb).1, (h.buffer buf hbuf b hb).2⟩

theorem Holds.getD (h : v.Holds Q) : BufferHolds Q (v.buf.getD []) := by
  cases hbuf : v.buf with
  | none => exact fun b hb ↦ absurd hb List.not_mem_nil
  | some buf => exact h.buffer buf hbuf

theorem Holds.instrumentFor (h : v.Holds Q) (id : ℕ) : (v.instrumentFor id).Holds Q := by
  rw [View.instrumentFor]
  split
  next i hi => exact h.pending i hi
  next => exact Instrument.Holds.of_none rfl

theorem Move.holds (hmove : Move Q id v v') (h : v.Holds Q) : v'.Holds Q := by
  cases hmove with
  | turn here transition =>
      refine ⟨?_, h.buffer⟩
      rintro j ⟨⟩
      exact transition.holds (h.pending _ here)
  | buffer own idle =>
      refine ⟨h.pending, ?_⟩
      rintro buf ⟨⟩
      exact h.getD.insertDelta own
  | evict here =>
      refine ⟨?_, by rintro buf ⟨⟩⟩
      rintro j ⟨⟩
      exact Instrument.Holds.of_none (by simp)

theorem Holds.record (h : v.Holds Q) (id : ℕ) (rec : Record) : (v.record id rec).Holds Q := by
  rw [View.record]
  split
  · refine ⟨?_, h.buffer⟩
    rintro j ⟨⟩
    cases hinst : v.inst with
    | none => exact Instrument.Holds.of_none rfl
    | some i => exact (h.pending i hinst).congr rfl
  · exact ⟨h.pending, h.buffer⟩
  · refine ⟨?_, h.buffer⟩
    rintro j ⟨⟩
    exact (h.instrumentFor id).congr (by simp)
  · refine ⟨fun j hj ↦ ?_, h.buffer⟩
    obtain ⟨i, hi, rfl⟩ := Option.map_eq_some_iff.mp hj
    exact (h.pending i hi).congr (by simp)
  · cases hinst : v.inst with
    | none => exact h
    | some i =>
        dsimp only
        split
        · exact h
        · cases hend : (i.snapshotEnd rec).2 with
          | some err =>
              refine ⟨?_, h.buffer⟩
              rintro j ⟨⟩
              exact (h.pending i hinst).congr (by rw [Instrument.snapshotEnd_of_err hend])
          | none =>
              refine ⟨?_, by rintro buf ⟨⟩⟩
              rintro j ⟨⟩
              cases hopen : i.openSnapshot with
              | none => simp_all
              | some p =>
                  have hcommit := (Instrument.snapshotEnd_eq_none_iff rec hopen).mp hend
                  rw [Instrument.snapshotEnd_of_commit hopen hcommit]
                  exact Instrument.Holds.of_none rfl
  · refine ⟨?_, fun buf hbuf ↦ ?_⟩
    · rintro j ⟨⟩
      exact Instrument.Holds.of_none rfl
    · dsimp only at hbuf
      split at hbuf
      · exact absurd hbuf (by simp)
      · obtain rfl := Option.some.inj hbuf
        exact fun b hb ↦ h.getD b (List.mem_of_mem_filter hb)
  · exact h

theorem Holds.act (h : v.Holds Q) (k : InstKey) (msg : ShardMsg) : (v.act k msg).Holds Q := by
  cases msg with
  | record rec =>
      rw [View.act]
      split
      · exact h.record k.id rec
      · exact h
  | reset ch =>
      rw [View.act]
      split
      · exact Holds.empty
      · exact h
  | fence => exact h
  | manifestPrune seq =>
      rw [View.act]
      split
      · exact Holds.empty
      · exact h
  | clearShadows =>
      refine ⟨fun j hj ↦ ?_, h.buffer⟩
      obtain ⟨i, hi, rfl⟩ := Option.map_eq_some_iff.mp hj
      exact (h.pending i hi).congr rfl

end View

namespace Shard

variable {Q : InstKey → Record → Prop} {s : Shard}

theorem holds_iff {Q : Record → Prop} {k : InstKey} : s.Holds Q k ↔ (s.view k).Holds Q :=
  ⟨fun h ↦ ⟨h.pending, h.buffer⟩, fun h ↦ ⟨h.pending, h.buffer⟩⟩

theorem new_view (maxBuffered : ℤ) (symbols : Option (List String)) (k : InstKey) :
    (new maxBuffered symbols).view k = View.empty := by
  simp [view, new, View.empty]

theorem new_holds (maxBuffered : ℤ) (symbols : Option (List String)) (Q : Record → Prop)
    (k : InstKey) : (new maxBuffered symbols).Holds Q k := by
  rw [holds_iff, new_view]
  exact View.Holds.empty

/-- The deltas among the messages satisfy `Q` for their own instruments. -/
def Given (Q : InstKey → Record → Prop) (as : List Turn) : Prop :=
  ∀ a ∈ as, ∀ rec, a.2 = .record rec → rec.isDelta → Q rec.key rec

theorem step_holds (hs : ∀ k, s.Holds (Q k) k) {a : Turn}
    (own : ∀ rec, a.2 = .record rec → rec.isDelta → Q rec.key rec) (k : InstKey) :
    (s.step a).Holds (Q k) k := by
  rw [holds_iff]
  exact (s.step_moves a hs own k).induction (((holds_iff).mp (hs k)).act k a.2)
    fun v v' hmove hv ↦ hmove.holds hv

/-- A shard only holds deltas it was given. -/
theorem run_holds (hs : ∀ k, s.Holds (Q k) k) {as : List Turn} (own : Given Q as) :
    ∀ k, (run step s as).Holds (Q k) k :=
  run_induction (P := fun s : Shard ↦ ∀ k, s.Holds (Q k) k) as hs
    fun _ a ha h ↦ step_holds h (own a ha)

/-! ## The rule -/

/-- **The invariant rule.**  A property of one instrument's view that survives the action of
every message of the run, and every move, holds at the end of the run. -/
theorem run_view {k : InstKey} {P : List Turn → View → Prop} {as : List Turn}
    (hs : ∀ k, s.Holds (Q k) k) (own : Given Q as) (init : P [] (s.view k))
    (act : ∀ pre a v, pre ++ [a] <+: as → v.Holds (Q k) → P pre v →
      P (pre ++ [a]) (v.act k a.2))
    (move : ∀ pre v v', pre <+: as → View.Move (Q k) k.id v v' → v.Holds (Q k) →
      P pre v → P pre v') :
    P as ((run step s as).view k) := by
  refine run_history (P := fun pre (s : Shard) ↦ P pre (s.view k)) as init fun pre a hpre hP ↦ ?_
  have hpre' : pre <+: as := (List.prefix_append pre [a]).trans hpre
  have hholds : ∀ k, (run step s pre).Holds (Q k) k :=
    run_holds hs fun b hb ↦ own b (hpre'.subset hb)
  have hview := holds_iff.mp (hholds k)
  have hmoves := (run step s pre).step_moves a hholds (own a (hpre.subset (by simp))) k
  refine (hmoves.induction (P := fun v ↦ v.Holds (Q k) ∧ P (pre ++ [a]) v)
    ⟨hview.act k a.2, act pre a _ hpre hview hP⟩ fun v v' hmove hv ↦ ?_).2
  exact ⟨hmove.holds hv.1, move _ v v' hpre hmove hv.1 hv.2⟩

end Shard

end EdgeMulticast.MarketByPrice
