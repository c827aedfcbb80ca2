import EdgeMulticast.MarketByPrice.SnapshotWriter

/-!
# Changes that have not been read out

A change of a ready book is on its way to a read-out: the shard still has to mark the
instrument, or it is marked, or its entry is in a batch.  One action takes it off that way.  A
reset is of one channel, and the writer drops the marks of all of them
(`reset_drops_other_channel`).

`never_lost_iff` says that this is the only way to lose a change: none is lost in a run exactly
when no reset finds a mark whose change has not been read out.
-/

namespace EdgeMulticast.MarketByPrice

open Std (ExtTreeMap)
open EdgeMulticast.Lib

namespace ReadOut

variable (s : ReadOut)

/-- An instrument that is ready, and whose symbol is persisted. -/
def live (k : InstKey) : Bool :=
  (s.shard.instruments[k]?).any fun i ↦ decide (i.status = .ready) && s.shard.persists i.symbol

/-- The instrument that an action reads out. -/
def reads : WriterAction → Option InstKey
  | .read => ((s.step .read).batch.bind Batch.writing).filter fun _ ↦
      (s.batch.bind Batch.writing).isNone
  | _ => none

/-- The instruments that an action's record changes. -/
def changes : WriterAction → List InstKey
  | .message σ msg => if s.owed = [] ∧ s.resetting = none then (s.message σ msg).owed else []
  | _ => []

/-- The instruments whose last change has not been read out, and that have been live since. -/
def note (unread : Finset InstKey) (a : WriterAction) : Finset InstKey :=
  ((unread.filter fun k ↦ s.reads a ≠ some k) ∪ (s.changes a).toFinset).filter fun k ↦
    (s.step a).live k

/-- A change is on its way. -/
def Pending (k : InstKey) : Prop :=
  k ∈ s.writer.dirty ∨ (∃ b ∈ s.batch, b.gen = s.writer.generation ∧ ∃ e ∈ b.rest, e.key = k) ∨
    k ∈ s.owed

/-- No change is lost. -/
def NoneLost (unread : Finset InstKey) : Prop := ∀ k ∈ unread, s.Pending k

/-- A reset that the writer serves finds no mark whose change has not been read out. -/
def Spares (unread : Finset InstKey) (a : WriterAction) : Prop :=
  a = .reset → s.resetting.isSome ∧ s.batch = none → ∀ k ∈ unread, k ∉ s.writer.dirty

/-! ## What ties the two goroutines together -/

structure Kept (unread : Finset InstKey) : Prop where
  none_lost : s.NoneLost unread
  live : ∀ k ∈ unread, s.live k = true
  keyed : s.writer.Keyed
  /-- Nothing is owed while a reset waits. -/
  waits : s.resetting.isSome = true → s.owed = []
  /-- No reset is served while a batch is read out. -/
  current : ∀ b ∈ s.batch, b.gen = s.writer.generation

variable {s} {unread : Finset InstKey}

theorem mem_note {k : InstKey} {a : WriterAction} (h : k ∈ s.note unread a) :
    (k ∈ s.changes a ∨ k ∈ unread ∧ s.reads a ≠ some k) ∧ (s.step a).live k = true := by
  simp only [note, Finset.mem_filter, Finset.mem_union, List.mem_toFinset] at h
  exact ⟨h.1.symm, h.2⟩

/-- An action that changes and reads nothing, and leaves the shard alone. -/
theorem note_eq (h : s.Kept unread) {a : WriterAction} (hreads : s.reads a = none)
    (hchanges : s.changes a = []) (hshard : (s.step a).shard = s.shard) :
    s.note unread a = unread := by
  ext k
  simp only [note, hreads, hchanges, List.toFinset_nil, Finset.union_empty, Finset.mem_filter]
  constructor
  · exact fun hk ↦ hk.1.1
  · intro hk
    refine ⟨⟨hk, by simp⟩, ?_⟩
    rw [ReadOut.live, hshard]
    exact h.live k hk

theorem served_of_live {k : InstKey} (h : s.live k = true) : (s.served k).isSome = true := by
  rw [ReadOut.live] at h
  rw [served]
  cases hinst : s.shard.instruments[k]? with
  | none => simp [hinst] at h
  | some i =>
      rw [hinst, Option.any_some, Bool.and_eq_true, decide_eq_true_eq] at h
      simp [h.1, h.2]

/-- What each action does when its goroutine can take it. -/
inductive Acts (s : ReadOut) : WriterAction → ReadOut → Prop where
  | message {σ : Choices} {msg : ShardMsg} (howed : s.owed = []) (hresetting : s.resetting = none) :
      Acts s (.message σ msg) (s.message σ msg)
  | mark {now : ℕ} {k : InstKey} {owed : List InstKey} (howed : s.owed = k :: owed) :
      Acts s (.mark now) { s with writer := s.writer.markDirty now k, owed := owed }
  | reset (hresetting : s.resetting.isSome = true) (hbatch : s.batch = none) :
      Acts s .reset { s with writer := s.writer.doReset, resetting := none }
  | tick {now : ℕ} {order : RangeOrder InstKey} (hbatch : s.batch = none) :
      Acts s (.tick now order)
        { s with writer := s.writer.extract now
                 batch := some { now := now, gen := s.writer.generation
                                 rest := s.writer.due now order } }
  | read {b : Batch} (hbatch : s.batch = some b) (hwriting : b.writing = none) :
      Acts s .read (s.read b)
  | wrote {b : Batch} {k : InstKey} (hbatch : s.batch = some b) (hwriting : b.writing = some k) :
      Acts s .wrote
        { s with writer := { s.writer with
                   lastWrittenAt := s.writer.lastWrittenAt.insert k b.now }
                 batch := some { b with writing := none } }

/-- An action is taken, or it changes nothing. -/
theorem step_acts (s : ReadOut) (a : WriterAction) :
    s.Acts a (s.step a) ∨ s.step a = s ∧ s.changes a = [] := by
  cases a with
  | message σ msg =>
      by_cases h : s.owed = [] ∧ s.resetting = none
      · rw [step, if_pos h]
        exact Or.inl (.message h.1 h.2)
      · rw [step, if_neg h, changes, if_neg h]
        exact Or.inr ⟨rfl, rfl⟩
  | mark now =>
      rw [step]
      cases howed : s.owed with
      | nil => exact Or.inr ⟨rfl, rfl⟩
      | cons k owed => exact Or.inl (.mark howed)
  | reset =>
      rw [step]
      split
      next h => exact Or.inl (.reset h.1 h.2)
      next => exact Or.inr ⟨rfl, rfl⟩
  | tick now order =>
      rw [step]
      split
      next h => exact Or.inl (.tick h)
      next => exact Or.inr ⟨rfl, rfl⟩
  | read =>
      simp only [step]
      cases hbatch : s.batch with
      | none => exact Or.inr ⟨rfl, rfl⟩
      | some b =>
          cases hwriting : b.writing with
          | some k => exact Or.inr ⟨by simp [hwriting], rfl⟩
          | none =>
              simp only [hwriting]
              exact Or.inl (.read hbatch hwriting)
  | wrote =>
      simp only [step]
      cases hbatch : s.batch with
      | none => exact Or.inr ⟨rfl, rfl⟩
      | some b =>
          cases hwriting : b.writing with
          | none => exact Or.inr ⟨by simp [hwriting], rfl⟩
          | some k =>
              simp only [hwriting]
              exact Or.inl (.wrote hbatch hwriting)

variable {s s' : ReadOut} {unread : Finset InstKey} {a : WriterAction}

/-- A read-out leaves everything but the batch as it is. -/
theorem read_frame (s : ReadOut) (b : Batch) :
    (s.read b).shard = s.shard ∧ (s.read b).writer = s.writer ∧ (s.read b).owed = s.owed ∧
      (s.read b).resetting = s.resetting := by
  rw [read]
  split
  next => exact ⟨rfl, rfl, rfl, rfl⟩
  next => split <;> exact ⟨rfl, rfl, rfl, rfl⟩

/-- What is left of a batch is of the batch's generation. -/
theorem read_gen {b b' : Batch} (h : (s.read b).batch = some b') : b'.gen = b.gen := by
  rw [read] at h
  split at h
  next => cases h
  next =>
      split at h
      next => cases h
      next =>
          obtain rfl := Option.some.inj h
          rfl

/-- A read-out takes one entry off the batch, and finds its instrument if it is live. -/
theorem mem_read {b : Batch} {k : InstKey} (hgen : b.gen = s.writer.generation)
    (hlive : s.live k = true) (hk : ∃ e ∈ b.rest, e.key = k) :
    ∃ b', (s.read b).batch = some b' ∧ (b'.writing = some k ∨ ∃ e ∈ b'.rest, e.key = k) := by
  obtain ⟨e, he, rfl⟩ := hk
  rw [read]
  cases hrest : b.rest with
  | nil => simp [hrest] at he
  | cons head rest =>
      rw [hrest] at he
      dsimp only
      rw [if_neg (by simpa using hgen.symm)]
      refine ⟨_, rfl, ?_⟩
      rcases List.mem_cons.mp he with rfl | hlater
      · left
        obtain ⟨i, hi⟩ := Option.isSome_iff_exists.mp (served_of_live hlive)
        rw [hi, Option.map_some]
      · exact Or.inr ⟨e, hlater, rfl⟩

/-! ## What an action keeps -/

theorem Acts.keyed (hacts : s.Acts a s') (h : s.writer.Keyed) : s'.writer.Keyed := by
  cases hacts with
  | message => exact h
  | mark => exact h.markDirty
  | reset => exact SnapshotWriter.Keyed.doReset
  | tick => exact h.extract
  | read hbatch hwriting => rwa [(read_frame s _).2.1]
  | wrote => exact h

theorem Acts.waits (hacts : s.Acts a s') (h : s.resetting.isSome = true → s.owed = [])
    (hresetting : s'.resetting.isSome = true) : s'.owed = [] := by
  cases hacts with
  | @message σ msg =>
      cases msg with
      | reset ch => rfl
      | _ => cases hresetting
  | mark howed => simp [h hresetting] at howed
  | reset => simp at hresetting
  | tick => exact h hresetting
  | read =>
      obtain ⟨-, -, howed, hwait⟩ := read_frame s _
      rw [hwait] at hresetting
      rw [howed, h hresetting]
  | wrote => exact h hresetting

theorem Acts.current (hacts : s.Acts a s') (h : ∀ b ∈ s.batch, b.gen = s.writer.generation) :
    ∀ b ∈ s'.batch, b.gen = s'.writer.generation := by
  cases hacts with
  | message => exact h
  | mark =>
      intro b hb
      rw [SnapshotWriter.markDirty_generation]
      exact h b hb
  | reset _ hbatch =>
      intro b hb
      simp [hbatch] at hb
  | tick =>
      intro b hb
      obtain rfl := Option.some.inj hb
      rfl
  | read hbatch =>
      intro b hb
      rw [read_gen hb, (read_frame s _).2.1]
      exact h _ hbatch
  | @wrote b k hbatch =>
      intro b' hb'
      obtain rfl := Option.some.inj hb'
      exact h b hbatch

/-- A change stays on its way, unless the action reads it out or is a reset that finds its
mark. -/
theorem Acts.pending (hacts : s.Acts a s') (h : s.Kept unread) {k : InstKey} (hk : k ∈ unread)
    (hspares : s.Spares unread a) (hreads : s.reads a ≠ some k) : s'.Pending k := by
  have hpending := h.none_lost k hk
  cases hacts with
  | message howed =>
      rcases hpending with hdirty | hbatch | hmem
      · exact Or.inl hdirty
      · exact Or.inr (Or.inl hbatch)
      · simp [howed] at hmem
  | mark howed =>
      rcases hpending with hdirty | ⟨b, hb, hgen, hrest⟩ | hmem
      · exact Or.inl (SnapshotWriter.mem_markDirty.mpr (Or.inr hdirty))
      · refine Or.inr (Or.inl ⟨b, hb, hgen.trans ?_, hrest⟩)
        exact (SnapshotWriter.markDirty_generation ..).symm
      · rw [howed] at hmem
        rcases List.mem_cons.mp hmem with rfl | hlater
        · exact Or.inl (SnapshotWriter.mem_markDirty.mpr (Or.inl rfl))
        · exact Or.inr (Or.inr hlater)
  | reset hresetting hbatch =>
      rcases hpending with hdirty | ⟨b, hb, -⟩ | hmem
      · exact absurd hdirty (hspares rfl ⟨hresetting, hbatch⟩ k hk)
      · simp [hbatch] at hb
      · simp [h.waits hresetting] at hmem
  | tick hbatch =>
      rcases hpending with hdirty | ⟨b, hb, -⟩ | hmem
      · rcases SnapshotWriter.mem_extract _ hdirty h.keyed with hleft | hdue
        · exact Or.inl hleft
        · exact Or.inr (Or.inl ⟨_, rfl, rfl, hdue⟩)
      · simp [hbatch] at hb
      · exact Or.inr (Or.inr hmem)
  | read hbatch hwriting =>
      obtain ⟨-, hwriter, howed, -⟩ := read_frame s _
      rw [Pending, hwriter, howed]
      rcases hpending with hdirty | ⟨b, hb, hgen, hrest⟩ | hmem
      · exact Or.inl hdirty
      · obtain rfl := Option.some.inj (hbatch.symm.trans hb)
        obtain ⟨b', hb', hread | hlater⟩ := mem_read hgen (h.live k hk) hrest
        · simp [reads, step, hbatch, hwriting, hb', hread] at hreads
        · exact Or.inr (Or.inl ⟨b', hb', (read_gen hb').trans hgen, hlater⟩)
      · exact Or.inr (Or.inr hmem)
  | wrote hbatch hwriting =>
      rcases hpending with hdirty | ⟨b, hb, hgen, hrest⟩ | hmem
      · exact Or.inl hdirty
      · obtain rfl := Option.some.inj (hbatch.symm.trans hb)
        exact Or.inr (Or.inl ⟨_, rfl, hgen, hrest⟩)
      · exact Or.inr (Or.inr hmem)

/-- What an action changes, the shard owes the mark of. -/
theorem Acts.pending_change (hacts : s.Acts a s') {k : InstKey} (hk : k ∈ s.changes a) :
    s'.Pending k := by
  cases hacts with
  | message howed hresetting =>
      rw [changes, if_pos ⟨howed, hresetting⟩] at hk
      exact Or.inr (Or.inr hk)
  | _ => exact absurd hk List.not_mem_nil

/-- No change is lost to an action that spares the marks. -/
theorem Kept.step (h : s.Kept unread) (hspares : s.Spares unread a) :
    (s.step a).Kept (s.note unread a) := by
  have hlive : ∀ k ∈ s.note unread a, (s.step a).live k = true := fun k hk ↦ (mem_note hk).2
  rcases s.step_acts a with hacts | ⟨hsame, hchanges⟩
  · refine ⟨fun k hk ↦ ?_, hlive, hacts.keyed h.keyed, hacts.waits h.waits, hacts.current h.current⟩
    rcases (mem_note hk).1 with hchange | ⟨hunread, hreads⟩
    · exact hacts.pending_change hchange
    · exact hacts.pending h hunread hspares hreads
  · rw [hsame] at hlive ⊢
    refine ⟨fun k hk ↦ ?_, hlive, h.keyed, h.waits, h.current⟩
    rcases (mem_note hk).1 with hchange | ⟨hunread, -⟩
    · simp [hchanges] at hchange
    · exact h.none_lost k hunread

/-- A reset after which no change is lost found no mark of one. -/
theorem Kept.spares_of_noneLost (h : s.Kept unread)
    (hlost : (s.step a).NoneLost (s.note unread a)) : s.Spares unread a := by
  rintro rfl henabled k hk
  have hstep : s.step .reset = { s with writer := s.writer.doReset, resetting := none } := by
    rw [ReadOut.step, if_pos henabled]
  rw [note_eq h rfl rfl (by rw [hstep])] at hlost
  have hpending := hlost k hk
  rw [hstep, Pending, henabled.2, h.waits henabled.1] at hpending
  rcases hpending with hdirty | ⟨b, hb, -⟩ | howed
  · simp [SnapshotWriter.doReset] at hdirty
  · simp at hb
  · simp at howed

/-- The state in which `main` starts a shard and its writer. -/
theorem kept_new (maxBuffered : ℤ) (symbols : Option (List String)) (coalesceInterval : ℕ) :
    (new maxBuffered symbols coalesceInterval).Kept ∅ where
  none_lost := by simp [NoneLost]
  live := by simp
  keyed := by simp [new, SnapshotWriter.Keyed]
  waits := fun _ ↦ rfl
  current := by simp [new]

/-- **No book change is lost in a run of a shard and its writer exactly when no reset finds a
mark whose change has not been read out.** -/
theorem never_lost_iff (maxBuffered : ℤ) (symbols : Option (List String)) (coalesceInterval : ℕ)
    (as : List WriterAction) :
    (∀ pre a, pre ++ [a] <+: as →
      ((run step (new maxBuffered symbols coalesceInterval) pre).step a).NoneLost
        ((run step (new maxBuffered symbols coalesceInterval) pre).note
          (ghost step note (new maxBuffered symbols coalesceInterval) ∅ pre) a)) ↔
    ∀ pre a, pre ++ [a] <+: as →
      (run step (new maxBuffered symbols coalesceInterval) pre).Spares
        (ghost step note (new maxBuffered symbols coalesceInterval) ∅ pre) a :=
  run_step_iff (P := Kept) (Q := fun s unread a ↦ (s.step a).NoneLost (s.note unread a))
    (R := Spares) as (kept_new ..) (fun _ _ _ _ h hlost ↦ h.spares_of_noneLost hlost)
    fun _ _ _ _ h hspares ↦ ⟨(h.step hspares).none_lost, h.step hspares⟩

/-- The book of channel 2 becomes ready and is marked; then the other channel resets. -/
def resetsOther : List WriterAction :=
  [.message default (.record (instDefRec ⟨2, 11⟩ "A" 5)),
    .message default (.record (snapBeginRec ⟨2, 11⟩ 7 0 4 20)),
    .message default (.record (snapEndRec ⟨2, 11⟩ 7 20)), .mark 0, .message default (.reset 1)]

/-- The reset of the one drops the change of the other. -/
theorem reset_drops_other_channel :
    let s := run step (new 10 none 100) resetsOther
    let unread := ghost step note (new 10 none 100) ∅ resetsOther
    ⟨2, 11⟩ ∈ s.note unread .reset ∧ (s.step .reset).live ⟨2, 11⟩ = true ∧
      ¬(s.step .reset).NoneLost (s.note unread .reset) := by
  have hunread : (⟨2, 11⟩ : InstKey) ∈ (run step (new 10 none 100) resetsOther).note
      (ghost step note (new 10 none 100) ∅ resetsOther) .reset := by decide +kernel
  refine ⟨hunread, by decide +kernel, fun hlost ↦ ?_⟩
  have hbatch : ((run step (new 10 none 100) resetsOther).step .reset).batch = none := by decide
  rcases hlost _ hunread with hdirty | ⟨b, hb, -⟩ | howed
  · exact absurd hdirty (by decide)
  · simp [hbatch] at hb
  · exact absurd howed (by decide)

end ReadOut

end EdgeMulticast.MarketByPrice
