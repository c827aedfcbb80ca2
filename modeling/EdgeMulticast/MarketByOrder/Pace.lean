import EdgeMulticast.MarketByOrder.SnapshotWriter

/-!
# Read-outs under an instrument's own key, at its own pace

An instrument that has been marked is to be read out under its own key, from an entry that is
its own, and no sooner than `coalesceInterval` after it was last written.

The writer keys its entries by the bare id and looks every id up under channel 0, so an
instrument of another channel is never read out, and one with the same id takes its marks
(`foreign_mark_unread`).  An entry that `markDirty` makes is allowed at once, however recent the
last write is; only an entry made while its instrument is being written waits
(`fresh_mark_unpaced`).

`own_pace_iff` says which steps do this: a mark of another channel, a read-out that finds no
book, a reset that finds a mark, and a read-out of an entry that did not wait.
-/

namespace EdgeMulticast.MarketByOrder

open Std (ExtTreeMap)
open EdgeMulticast.Lib

/-- What has been seen of a run: the instruments that have not been read out since they were
last marked, and when each was last written. -/
structure Ledger where
  unread : Finset InstKey := ∅
  written : ExtTreeMap InstKey ℕ := ∅

namespace ReadOut

variable (s : ReadOut)

def held (k : InstKey) : Bool := (s.shard.instruments[k]?).isSome

/-- The instrument that an action marks. -/
def marked : WriterAction → Option InstKey
  | .mark _ => s.owed.head?
  | _ => none

/-- The entry that an action reads out, and the time of its batch. -/
def reads : WriterAction → Option (DirtyEntry × ℕ)
  | .read => s.batch.bind fun b ↦
      if b.writing = none ∧ s.writer.generation = b.gen then b.rest.head?.map fun e ↦ (e, b.now)
      else none
  | _ => none

/-- The instrument that an action writes, and when. -/
def writes (a : WriterAction) : Option (InstKey × ℕ) :=
  (s.reads a).bind fun r ↦
    (s.served r.1.instrumentID).map fun _ ↦ (withInstrument r.1.instrumentID, r.2)

/-- A mark puts an instrument on the ledger, and a read-out takes it off; so does the end of the
instrument. -/
def note (g : Ledger) (a : WriterAction) : Ledger where
  unread := ((g.unread.filter fun k ↦ (s.writes a).map Prod.fst ≠ some k) ∪
    (s.marked a).toFinset).filter fun k ↦ (s.step a).held k
  written := match s.writes a with
    | some w => g.written.insert w.1 w.2
    | none => g.written

/-- A read-out is on its way, and will be of this instrument and under its channel. -/
def Pending (k : InstKey) : Prop :=
  (withInstrument k.id = k ∧ s.writer.channel = k.ch) ∧
    (k.id ∈ s.writer.dirty ∨
      ∃ b ∈ s.batch, b.gen = s.writer.generation ∧ ∃ e ∈ b.rest, e.instrumentID = k.id)

/-- Every marked instrument is to be read out, from an entry of its own. -/
structure OnTheWay (g : Ledger) : Prop where
  pending : ∀ k ∈ g.unread, s.Pending k
  apart : ∀ k ∈ g.unread, ∀ k' ∈ g.unread, k.id = k'.id → k = k'

/-- A write comes `coalesceInterval` after the last one of its instrument. -/
def Paced (g : Ledger) (a : WriterAction) : Prop :=
  ∀ k t, s.writes a = some (k, t) → ∀ last, g.written[k]? = some last →
    last + s.writer.coalesceInterval ≤ t

/-- The steps that the writer takes well. -/
structure Sound (g : Ledger) (a : WriterAction) : Prop where
  /-- Only instruments of channel 0 are marked. -/
  mark : ∀ k, s.marked a = some k → s.held k → k.ch = 0
  /-- A read-out finds the book, or the instrument has been marked again. -/
  read : ∀ e t, s.reads a = some (e, t) → withInstrument e.instrumentID ∈ g.unread →
    (s.served e.instrumentID).isSome = true ∨ e.instrumentID ∈ s.writer.dirty
  /-- An entry that has not been made to wait is read out late enough. -/
  pace : ∀ e t, s.reads a = some (e, t) → (s.served e.instrumentID).isSome = true →
    e.nextAllowedAt = e.dirtiedAt → ∀ last,
      g.written[withInstrument e.instrumentID]? = some last → last + s.writer.coalesceInterval ≤ t
  /-- A reset finds no mark of an instrument that has not been read out. -/
  reset : a = .reset → s.resetting.isSome ∧ s.batch = none → ∀ k ∈ g.unread,
    k.id ∉ s.writer.dirty

end ReadOut

/-- The ids that a batch holds. -/
def Batch.ids (b : Batch) : List ℕ := b.writing.toList ++ b.rest.map DirtyEntry.instrumentID

/-- An entry that has been made to wait has waited for the last write. -/
def DirtyEntry.Waited (coalesceInterval : ℕ) (g : Ledger) (e : DirtyEntry) : Prop :=
  e.nextAllowedAt ≠ e.dirtiedAt → ∀ last,
    g.written[ReadOut.withInstrument e.instrumentID]? = some last →
      last + coalesceInterval ≤ e.nextAllowedAt

namespace ReadOut

/-- What each action does when its goroutine can take it. -/
inductive Acts (s : ReadOut) : WriterAction → ReadOut → Prop where
  | message {σ : Choices} {msg : ShardMsg} : Acts s (.message σ msg) (s.message σ msg)
  | mark {now : ℕ} {k : InstKey} {owed : List InstKey} (howed : s.owed = k :: owed) :
      Acts s (.mark now) { s with writer := s.writer.markDirty now k.id, owed := owed }
  | reset (hresetting : s.resetting.isSome = true) (hbatch : s.batch = none) :
      Acts s .reset { s with writer := s.writer.doReset, resetting := none }
  | tick {now : ℕ} {order : RangeOrder ℕ} (hbatch : s.batch = none) :
      Acts s (.tick now order)
        { s with writer := s.writer.extract now
                 batch := some { now := now, gen := s.writer.generation
                                 rest := s.writer.due now order } }
  | finish {b : Batch} (hbatch : s.batch = some b)
      (hdone : b.rest = [] ∨ s.writer.generation ≠ b.gen) : Acts s .read { s with batch := none }
  | read {b : Batch} {e : DirtyEntry} {rest : List DirtyEntry} (hbatch : s.batch = some b)
      (hwriting : b.writing = none) (hgen : s.writer.generation = b.gen)
      (hrest : b.rest = e :: rest) :
      Acts s .read { s with batch := some { b with
        rest := rest, writing := (s.served e.instrumentID).map fun _ ↦ e.instrumentID } }
  | wrote {b : Batch} {id : ℕ} (hbatch : s.batch = some b) (hwriting : b.writing = some id) :
      Acts s .wrote
        { s with writer := s.writer.wrote b.now id, batch := some { b with writing := none } }

/-- An action is taken, or it changes nothing. -/
theorem step_acts (s : ReadOut) (a : WriterAction) :
    s.Acts a (s.step a) ∨ s.step a = s ∧ s.reads a = none ∧ s.marked a = none := by
  cases a with
  | message σ msg =>
      rw [step]
      split
      next => exact Or.inl .message
      next => exact Or.inr ⟨rfl, rfl, rfl⟩
  | mark now =>
      rw [step]
      cases howed : s.owed with
      | nil => exact Or.inr ⟨rfl, rfl, by rw [marked, howed, List.head?_nil]⟩
      | cons k owed => exact Or.inl (.mark howed)
  | reset =>
      rw [step]
      split
      next h => exact Or.inl (.reset h.1 h.2)
      next => exact Or.inr ⟨rfl, rfl, rfl⟩
  | tick now order =>
      rw [step]
      split
      next h => exact Or.inl (.tick h)
      next => exact Or.inr ⟨rfl, rfl, rfl⟩
  | read =>
      simp only [step]
      cases hbatch : s.batch with
      | none => exact Or.inr ⟨rfl, by simp [reads, hbatch], rfl⟩
      | some b =>
          cases hwriting : b.writing with
          | some k => exact Or.inr ⟨by simp [hwriting], by simp [reads, hbatch, hwriting], rfl⟩
          | none =>
              left
              simp only [hwriting, Option.isSome_none, Bool.false_eq_true, if_false]
              rw [read]
              split
              next hrest => exact .finish hbatch (Or.inl hrest)
              next e rest hrest =>
                  split
                  next hgen => exact .finish hbatch (Or.inr hgen)
                  next hgen => exact .read hbatch hwriting (not_not.mp hgen) hrest
  | wrote =>
      simp only [step]
      cases hbatch : s.batch with
      | none => exact Or.inr ⟨rfl, rfl, rfl⟩
      | some b =>
          cases hwriting : b.writing with
          | none => exact Or.inr ⟨by simp [hwriting], rfl, rfl⟩
          | some id =>
              simp only [hwriting]
              exact Or.inl (.wrote hbatch hwriting)

/-! ## The times of the entries -/

/-- What holds of the writer's entries between two actions. -/
structure Timed (s : ReadOut) (g : Ledger) : Prop where
  channel : s.writer.channel = 0
  keyed : s.writer.Keyed
  /-- No reset is served while a batch is read out. -/
  current : ∀ b ∈ s.batch, b.gen = s.writer.generation
  nodup : ∀ b ∈ s.batch, b.ids.Nodup
  due : ∀ b ∈ s.batch, ∀ e ∈ b.rest, e.nextAllowedAt ≤ b.now
  /-- An entry made while a batch holds its id has not waited for anything. -/
  made : ∀ b ∈ s.batch, ∀ id ∈ b.ids, ∀ e, s.writer.dirty[id]? = some e →
    e.nextAllowedAt = e.dirtiedAt
  written : ∀ b ∈ s.batch, ∀ id ∈ b.writing, g.written[withInstrument id]? = some b.now
  waited : ∀ (id : ℕ) (e : DirtyEntry), s.writer.dirty[id]? = some e →
    e.Waited s.writer.coalesceInterval g
  waited_rest : ∀ b ∈ s.batch, ∀ e ∈ b.rest, e.Waited s.writer.coalesceInterval g

variable {s s' : ReadOut} {g g' : Ledger} {a : WriterAction}

theorem withInstrument_inj {id id' : ℕ} : withInstrument id = withInstrument id' ↔ id = id' := by
  simp [withInstrument]

/-- A ledger with the same writes. -/
theorem Timed.of_written (h : s.Timed g) (hwritten : g'.written = g.written) : s.Timed g' := by
  have hwaited {e : DirtyEntry} (he : e.Waited s.writer.coalesceInterval g) :
      e.Waited s.writer.coalesceInterval g' := by
    rw [DirtyEntry.Waited, hwritten]
    exact he
  exact ⟨h.channel, h.keyed, h.current, h.nodup, h.due, h.made, hwritten ▸ h.written,
    fun id e he ↦ hwaited (h.waited id e he), fun b hb e he ↦ hwaited (h.waited_rest b hb e he)⟩

theorem Timed.message (h : s.Timed g) (σ : Choices) (msg : ShardMsg) : (s.message σ msg).Timed g :=
  ⟨h.channel, h.keyed, h.current, h.nodup, h.due, h.made, h.written, h.waited, h.waited_rest⟩

theorem Timed.mark (h : s.Timed g) (now id : ℕ) (owed : List InstKey) :
    Timed { s with writer := s.writer.markDirty now id, owed := owed } g := by
  obtain ⟨hgen, hchannel, hinterval⟩ := s.writer.markDirty_frame now id
  refine ⟨hchannel.trans h.channel, h.keyed.markDirty, ?_, h.nodup, h.due, ?_, h.written, ?_, ?_⟩
  · intro b hb
    rw [hgen]
    exact h.current b hb
  · intro b hb id' hid e he
    rcases SnapshotWriter.markDirty_cases he with ⟨was, hwas, heq⟩ | ⟨-, rfl⟩
    · rw [heq]
      exact h.made b hb id' hid was hwas
    · rfl
  · intro id' e he
    rw [hinterval]
    rcases SnapshotWriter.markDirty_cases he with ⟨was, hwas, heq⟩ | ⟨-, rfl⟩
    · rw [heq]
      exact h.waited id' was hwas
    · exact fun hne ↦ absurd rfl hne
  · intro b hb
    rw [hinterval]
    exact h.waited_rest b hb

theorem Timed.reset (h : s.Timed g) (hbatch : s.batch = none) :
    Timed { s with writer := s.writer.doReset, resetting := none } g := by
  refine ⟨h.channel, SnapshotWriter.Keyed.doReset, ?_, h.nodup, h.due, ?_, h.written, ?_,
    h.waited_rest⟩
  · simp [hbatch]
  · simp [hbatch]
  · intro id e he
    simp [SnapshotWriter.doReset] at he

theorem Timed.tick (h : s.Timed g) (now : ℕ) (order : RangeOrder ℕ) :
    Timed { s with writer := s.writer.extract now
                   batch := some { now := now, gen := s.writer.generation
                                   rest := s.writer.due now order } } g := by
  refine ⟨h.channel, h.keyed.extract, ?_, ?_, ?_, ?_, ?_, ?_, ?_⟩
  · rintro b ⟨⟩
    rfl
  · rintro b ⟨⟩
    exact SnapshotWriter.nodup_due order h.keyed
  · rintro b ⟨⟩ e he
    obtain ⟨-, -, hdue⟩ := SnapshotWriter.mem_due.mp he
    exact hdue
  · rintro b ⟨⟩ id hid e he
    rw [SnapshotWriter.notMem_extract h.keyed hid] at he
    cases he
  · rintro b ⟨⟩ id ⟨⟩
  · intro id e he
    rw [SnapshotWriter.getElem?_extract, Option.filter_eq_some_iff] at he
    exact h.waited id e he.1
  · rintro b ⟨⟩ e he
    obtain ⟨id, hid, -⟩ := SnapshotWriter.mem_due.mp he
    exact h.waited id e hid

theorem Timed.finish (h : s.Timed g) : Timed { s with batch := none } g :=
  ⟨h.channel, h.keyed, by simp, by simp, by simp, by simp, by simp, h.waited, by simp⟩

theorem Timed.wrote (h : s.Timed g) {b : Batch} {id : ℕ} (hbatch : s.batch = some b)
    (hwriting : b.writing = some id) :
    Timed { s with writer := s.writer.wrote b.now id, batch := some { b with writing := none } }
      g := by
  obtain ⟨hgen, hchannel, hinterval⟩ := s.writer.wrote_frame b.now id
  have hids : b.ids = id :: b.rest.map DirtyEntry.instrumentID := by
    rw [Batch.ids, hwriting]
    rfl
  have hnodup := h.nodup b hbatch
  rw [hids, List.nodup_cons] at hnodup
  refine ⟨hchannel.trans h.channel, h.keyed.wrote, ?_, ?_, ?_, ?_, ?_, ?_, ?_⟩
  · rintro b' ⟨⟩
    rw [hgen]
    exact h.current b hbatch
  · rintro b' ⟨⟩
    exact hnodup.2
  · rintro b' ⟨⟩
    exact h.due b hbatch
  · rintro b' ⟨⟩ id' hid e he
    rcases SnapshotWriter.wrote_cases he with ⟨-, hwas⟩ | ⟨rfl, -⟩
    · exact h.made b hbatch id' (hids ▸ List.mem_cons_of_mem id hid) e hwas
    · exact absurd hid hnodup.1
  · rintro b' ⟨⟩ id' ⟨⟩
  · intro id' e he
    rw [hinterval]
    rcases SnapshotWriter.wrote_cases he with ⟨-, hwas⟩ | ⟨rfl, hlate, was, hwas, heq⟩
    · exact h.waited id' e hwas
    · intro _ last hlast
      rw [heq, h.keyed id' was hwas, h.written b hbatch id' hwriting] at hlast
      obtain rfl := Option.some.inj hlast
      exact hlate
  · rintro b' ⟨⟩
    rw [hinterval]
    exact h.waited_rest b hbatch

/-- A read-out writes its instrument, if it finds a book. -/
theorem Timed.read (h : s.Timed g) {b : Batch} {e : DirtyEntry} {rest : List DirtyEntry}
    (hbatch : s.batch = some b) (hwriting : b.writing = none) (hrest : b.rest = e :: rest)
    (hwritten : g'.written = match s.served e.instrumentID with
      | some _ => g.written.insert (withInstrument e.instrumentID) b.now
      | none => g.written) :
    Timed { s with batch := some { b with
      rest := rest, writing := (s.served e.instrumentID).map fun _ ↦ e.instrumentID } } g' := by
  have hids : b.ids = e.instrumentID :: rest.map DirtyEntry.instrumentID := by
    rw [Batch.ids, hwriting, hrest]
    rfl
  have hnodup := h.nodup b hbatch
  have hmade := h.made b hbatch
  have hdue := h.due b hbatch
  have hwaited := h.waited_rest b hbatch
  rw [hids] at hnodup hmade
  rw [hrest] at hdue hwaited
  obtain ⟨hnotMem, htail⟩ := List.nodup_cons.mp hnodup
  cases hserved : s.served e.instrumentID with
  | none =>
      rw [hserved] at hwritten
      refine Timed.of_written (g := g) ?_ hwritten
      refine ⟨h.channel, h.keyed, ?_, ?_, ?_, ?_, ?_, h.waited, ?_⟩
      · rintro b' ⟨⟩
        exact h.current b hbatch
      · rintro b' ⟨⟩
        exact htail
      · rintro b' ⟨⟩ e' he'
        exact hdue e' (List.mem_cons_of_mem e he')
      · rintro b' ⟨⟩ id hid
        exact hmade id (List.mem_cons_of_mem _ hid)
      · rintro b' ⟨⟩ id ⟨⟩
      · rintro b' ⟨⟩ e' he'
        exact hwaited e' (List.mem_cons_of_mem e he')
  | some i =>
      rw [hserved] at hwritten
      -- the write moves the window of its own instrument only
      have hother {e' : DirtyEntry} (hne : e'.instrumentID ≠ e.instrumentID)
          (he' : e'.Waited s.writer.coalesceInterval g) :
          e'.Waited s.writer.coalesceInterval g' := by
        intro hmoved last hlast
        rw [hwritten, getElem?_insert_ne fun heq ↦ hne (withInstrument_inj.mp heq.symm)] at hlast
        exact he' hmoved last hlast
      refine ⟨h.channel, h.keyed, ?_, ?_, ?_, ?_, ?_, ?_, ?_⟩
      · rintro b' ⟨⟩
        exact h.current b hbatch
      · rintro b' ⟨⟩
        exact hnodup
      · rintro b' ⟨⟩ e' he'
        exact hdue e' (List.mem_cons_of_mem e he')
      · rintro b' ⟨⟩ id hid
        exact hmade id hid
      · rintro b' ⟨⟩ id ⟨⟩
        rw [hwritten, getElem?_insert_eq, if_pos rfl]
      · intro id e' he'
        by_cases hid : e'.instrumentID = e.instrumentID
        · intro hmoved
          have hkey := h.keyed id e' he'
          refine absurd (hmade id ?_ e' he') hmoved
          rw [← hkey, hid]
          exact List.mem_cons_self
        · exact hother hid (h.waited id e' he')
      · rintro b' ⟨⟩ e' he'
        refine hother (fun hid ↦ hnotMem ?_) (hwaited e' (List.mem_cons_of_mem e he'))
        exact hid ▸ List.mem_map_of_mem he'

theorem reads_read {b : Batch} {e : DirtyEntry} {rest : List DirtyEntry}
    (hbatch : s.batch = some b) (hwriting : b.writing = none)
    (hgen : s.writer.generation = b.gen) (hrest : b.rest = e :: rest) :
    s.reads .read = some (e, b.now) := by
  simp [reads, hbatch, hwriting, hgen, hrest]

/-- What a read-out reads is the head of its batch. -/
theorem of_reads {e : DirtyEntry} {t : ℕ} (h : s.reads a = some (e, t)) :
    a = .read ∧ ∃ b rest, s.batch = some b ∧ b.writing = none ∧ s.writer.generation = b.gen ∧
      b.rest = e :: rest ∧ t = b.now := by
  cases a with
  | read =>
      obtain ⟨b, hb, hhead⟩ := Option.bind_eq_some_iff.mp h
      split at hhead
      next hcan =>
          obtain ⟨e', he', heq⟩ := Option.map_eq_some_iff.mp hhead
          obtain ⟨rfl, rfl⟩ := Prod.mk.inj heq
          obtain ⟨rest, hrest⟩ := List.head?_eq_some_iff.mp he'
          exact ⟨rfl, b, rest, hb, hcan.1, hcan.2, hrest, rfl⟩
      next => cases hhead
  | _ => cases h

theorem note_written (s : ReadOut) (g : Ledger) (a : WriterAction) :
    (s.note g a).written = match s.writes a with
      | some w => g.written.insert w.1 w.2
      | none => g.written := rfl

theorem writes_of_reads_none (h : s.reads a = none) : s.writes a = none := by
  rw [writes, h, Option.bind_none]

/-- The times are kept by every action. -/
theorem Timed.step (h : s.Timed g) (a : WriterAction) : (s.step a).Timed (s.note g a) := by
  have hwrites (hreads : s.reads a = none) : (s.note g a).written = g.written := by
    rw [note_written, writes_of_reads_none hreads]
  rcases s.step_acts a with hacts | ⟨hsame, hreads, -⟩
  · generalize hs' : s.step a = s' at hacts
    cases hacts with
    | message => exact (h.message _ _).of_written (hwrites rfl)
    | mark => exact (h.mark _ _ _).of_written (hwrites rfl)
    | reset _ hbatch => exact (h.reset hbatch).of_written (hwrites rfl)
    | tick => exact (h.tick _ _).of_written (hwrites rfl)
    | finish hbatch hdone =>
        refine h.finish.of_written (hwrites ?_)
        rcases hdone with hrest | hgen
        · simp [reads, hbatch, hrest]
        · simp [reads, hbatch, hgen]
    | @read b e rest hbatch hwriting hgen hrest =>
        refine h.read hbatch hwriting hrest ?_
        rw [note_written, writes, reads_read hbatch hwriting hgen hrest, Option.bind_some]
        cases s.served e.instrumentID <;> rfl
    | wrote hbatch hwriting => exact (h.wrote hbatch hwriting).of_written (hwrites rfl)
  · rw [hsame]
    exact h.of_written (hwrites hreads)

/-- A write comes late enough, of an entry that has waited or is read out late enough. -/
theorem Timed.paced (h : s.Timed g) (hsound : s.Sound g a) : s.Paced g a := by
  intro k t hwrites last hlast
  obtain ⟨⟨e, t⟩, hreads, hserved⟩ := Option.bind_eq_some_iff.mp hwrites
  obtain ⟨i, hi, heq⟩ := Option.map_eq_some_iff.mp hserved
  obtain ⟨rfl, rfl⟩ := Prod.mk.inj heq
  by_cases hmoved : e.nextAllowedAt = e.dirtiedAt
  · exact hsound.pace e _ hreads (by rw [hi]; rfl) hmoved last hlast
  · obtain ⟨-, b, rest, hbatch, -, -, hrest, rfl⟩ := of_reads hreads
    have hmem : e ∈ b.rest := by
      rw [hrest]
      exact List.mem_cons_self
    exact (h.waited_rest b hbatch e hmem hmoved last hlast).trans (h.due b hbatch e hmem)

/-! ## The instruments on the ledger -/

/-- What is kept of a state and its ledger. -/
structure Kept (s : ReadOut) (g : Ledger) : Prop extends s.Timed g, s.OnTheWay g where
  held : ∀ k ∈ g.unread, s.held k = true

theorem mem_note {k : InstKey} (h : k ∈ (s.note g a).unread) :
    (s.marked a = some k ∨ k ∈ g.unread ∧ (s.writes a).map Prod.fst ≠ some k) ∧
      (s.step a).held k = true := by
  simp only [note, Finset.mem_filter, Finset.mem_union, Option.mem_toFinset] at h
  exact ⟨h.1.symm, h.2⟩

theorem note_mem {k : InstKey} (hheld : (s.step a).held k = true)
    (h : s.marked a = some k ∨ k ∈ g.unread ∧ (s.writes a).map Prod.fst ≠ some k) :
    k ∈ (s.note g a).unread := by
  simp only [note, Finset.mem_filter, Finset.mem_union, Option.mem_toFinset]
  exact ⟨h.symm, hheld⟩

/-- An instrument that is on its way is of channel 0. -/
theorem Pending.key {k : InstKey} (h : s.Pending k) : withInstrument k.id = k := h.1.1

/-- Two instruments that are on their way have an entry each. -/
theorem OnTheWay.of_pending (h : ∀ k ∈ g.unread, s.Pending k) : s.OnTheWay g where
  pending := h
  apart := by
    intro k hk k' hk' hid
    rw [← (h k hk).key, hid, (h k' hk').key]

/-- A read-out stays on its way, unless the action makes it or the step is not sound. -/
theorem Acts.pending (hacts : s.Acts a s') (h : s.Kept g) (hsound : s.Sound g a) {k : InstKey}
    (hk : k ∈ g.unread) (hwrites : (s.writes a).map Prod.fst ≠ some k) : s'.Pending k := by
  obtain ⟨⟨hkey, hchannel⟩, hplace⟩ := h.pending k hk
  cases hacts with
  | message => exact ⟨⟨hkey, hchannel⟩, hplace⟩
  | @mark now k' owed howed =>
      obtain ⟨hgen, hchannel', -⟩ := s.writer.markDirty_frame now k'.id
      refine ⟨⟨hkey, hchannel'.trans hchannel⟩, hplace.imp ?_ ?_⟩
      · exact fun hdirty ↦ SnapshotWriter.mem_markDirty.mpr (Or.inr hdirty)
      · rintro ⟨b, hb, hcurrent, hrest⟩
        exact ⟨b, hb, hcurrent.trans hgen.symm, hrest⟩
  | reset hresetting hbatch =>
      rcases hplace with hdirty | ⟨b, hb, -⟩
      · exact absurd hdirty (hsound.reset rfl ⟨hresetting, hbatch⟩ k hk)
      · simp [hbatch] at hb
  | @tick now order hbatch =>
      refine ⟨⟨hkey, hchannel⟩, ?_⟩
      rcases hplace with hdirty | ⟨b, hb, -⟩
      · refine (SnapshotWriter.mem_extract order hdirty h.keyed).imp id fun hdue ↦ ?_
        exact ⟨_, rfl, rfl, hdue⟩
      · simp [hbatch] at hb
  | finish hbatch hdone =>
      refine ⟨⟨hkey, hchannel⟩, Or.inl (hplace.resolve_right ?_)⟩
      rintro ⟨b, hb, hcurrent, e, he, -⟩
      obtain rfl := Option.some.inj (hbatch.symm.trans hb)
      rcases hdone with hrest | hgen
      · simp [hrest] at he
      · exact hgen hcurrent.symm
  | @read b e rest hbatch hwriting hgen hrest =>
      have hreads := reads_read hbatch hwriting hgen hrest
      refine ⟨⟨hkey, hchannel⟩, ?_⟩
      rcases hplace with hdirty | ⟨b', hb', hcurrent, e', he', hid⟩
      · exact Or.inl hdirty
      · obtain rfl := Option.some.inj (hbatch.symm.trans hb')
        rw [hrest] at he'
        rcases List.mem_cons.mp he' with rfl | htail
        · -- the instrument is found and written, or it has been marked again
          have hown : withInstrument e'.instrumentID = k := hid ▸ hkey
          rcases hsound.read e' b.now hreads (hown ▸ hk) with hserved | hdirty
          · obtain ⟨i, hi⟩ := Option.isSome_iff_exists.mp hserved
            simp [writes, hreads, hi, hown] at hwrites
          · exact Or.inl (hid ▸ hdirty)
        · exact Or.inr ⟨_, rfl, hcurrent, e', htail, hid⟩
  | @wrote b id hbatch hwriting =>
      obtain ⟨hgen, hchannel', -⟩ := s.writer.wrote_frame b.now id
      refine ⟨⟨hkey, hchannel'.trans hchannel⟩, hplace.imp SnapshotWriter.mem_wrote ?_⟩
      rintro ⟨b', hb', hcurrent, hrest⟩
      obtain rfl := Option.some.inj (hbatch.symm.trans hb')
      exact ⟨_, rfl, hcurrent.trans hgen.symm, hrest⟩

/-- A mark of channel 0 is on its way. -/
theorem Acts.pending_marked (hacts : s.Acts a s') (h : s.Kept g) (hsound : s.Sound g a)
    {k : InstKey} (hmarked : s.marked a = some k) (hheld : s'.held k = true) : s'.Pending k := by
  cases hacts with
  | @mark now k' owed howed =>
      rw [marked, howed, List.head?_cons] at hmarked
      obtain rfl := Option.some.inj hmarked
      have hch : k'.ch = 0 := hsound.mark k' (by rw [marked, howed, List.head?_cons]) hheld
      obtain ⟨-, hchannel, -⟩ := s.writer.markDirty_frame now k'.id
      refine ⟨⟨?_, ?_⟩, Or.inl (SnapshotWriter.mem_markDirty.mpr (Or.inl rfl))⟩
      · rw [withInstrument, ← hch]
      · rw [hch]
        exact hchannel.trans h.channel
  | _ => cases hmarked

theorem Kept.step (h : s.Kept g) (hsound : s.Sound g a) : (s.step a).Kept (s.note g a) := by
  have hheld : ∀ k ∈ (s.note g a).unread, (s.step a).held k = true := fun k hk ↦ (mem_note hk).2
  refine ⟨h.toTimed.step a, OnTheWay.of_pending fun k hk ↦ ?_, hheld⟩
  obtain ⟨hwas, hheld'⟩ := mem_note hk
  rcases s.step_acts a with hacts | ⟨hsame, -, hmarked⟩
  · rcases hwas with hmark | ⟨hunread, hwrites⟩
    · exact hacts.pending_marked h hsound hmark hheld'
    · exact hacts.pending h hsound hunread hwrites
  · rw [hsame]
    rcases hwas with hmark | ⟨hunread, -⟩
    · rw [hmarked] at hmark
      cases hmark
    · exact h.pending k hunread

/-- A step after which every marked instrument is on its way, and whose write comes late enough,
is sound. -/
theorem Kept.sound (h : s.Kept g) (hway : (s.step a).OnTheWay (s.note g a)) (hpaced : s.Paced g a) :
    s.Sound g a where
  mark := by
    intro k hmarked hheld
    cases a with
    | mark now =>
        obtain ⟨owed, howed⟩ := List.head?_eq_some_iff.mp hmarked
        have hheld' : (s.step (.mark now)).held k = true := by
          rw [ReadOut.step, howed]
          exact hheld
        have hkey := (hway.pending k (note_mem hheld' (Or.inl hmarked))).key
        exact (congrArg InstKey.ch hkey).symm
    | _ => cases hmarked
  read := by
    intro e t hreads hk
    obtain ⟨rfl, b, rest, hbatch, hwriting, hgen, hrest, -⟩ := of_reads hreads
    by_contra hlost
    obtain ⟨hserved, hdirty⟩ := not_or.mp hlost
    rw [Option.not_isSome_iff_eq_none] at hserved
    have hstep : s.step .read = { s with batch := some { b with rest := rest, writing := none } } := by
      simp [ReadOut.step, hbatch, hwriting, ReadOut.read, hrest, hgen, hserved]
    have hwrites : s.writes .read = none := by
      rw [writes, hreads, Option.bind_some, hserved, Option.map_none]
    have hheld : (s.step .read).held (withInstrument e.instrumentID) = true := by
      rw [hstep]
      exact h.held _ hk
    have hpending := hway.pending _ (note_mem hheld (Or.inr ⟨hk, by simp [hwrites]⟩))
    rw [hstep] at hpending
    rcases hpending.2 with hmem | ⟨b', ⟨⟩, -, e', he', hid⟩
    · exact hdirty hmem
    · -- an id stands once in a batch
      have hnodup := h.nodup b hbatch
      rw [Batch.ids, hwriting, hrest] at hnodup
      have hid' : e'.instrumentID = e.instrumentID := hid
      refine (List.nodup_cons.mp hnodup).1 ?_
      exact hid' ▸ List.mem_map_of_mem he'
  pace := by
    intro e t hreads hserved _ last hlast
    obtain ⟨i, hi⟩ := Option.isSome_iff_exists.mp hserved
    refine hpaced _ t ?_ last hlast
    rw [writes, hreads, Option.bind_some, hi, Option.map_some]
  reset := by
    rintro rfl henabled k hk hdirty
    have hstep : s.step .reset = { s with writer := s.writer.doReset, resetting := none } := by
      rw [ReadOut.step, if_pos henabled]
    have hheld : (s.step .reset).held k = true := by
      rw [hstep]
      exact h.held k hk
    have hpending := hway.pending k (note_mem hheld (Or.inr ⟨hk, by simp [writes, reads]⟩))
    rw [hstep] at hpending
    rcases hpending.2 with hmem | ⟨b, hb, -⟩
    · simp [SnapshotWriter.doReset] at hmem
    · simp [henabled.2] at hb

/-- The state in which `main` starts a shard and its writer. -/
theorem kept_new (coalesceInterval : ℕ) : (new coalesceInterval).Kept {} where
  channel := rfl
  keyed := by simp [new, SnapshotWriter.Keyed]
  current := by simp [new]
  nodup := by simp [new]
  due := by simp [new]
  made := by simp [new]
  written := by simp [new]
  waited := by simp [new]
  waited_rest := by simp [new]
  pending := by simp
  apart := by simp
  held := by simp

/-- **Read-outs are under an instrument's own key and at its own pace in a run of a shard and its
writer exactly when every step of the run is sound.** -/
theorem own_pace_iff (coalesceInterval : ℕ) (as : List WriterAction) :
    (∀ pre a, pre ++ [a] <+: as →
      ((run step (new coalesceInterval) pre).step a).OnTheWay
          ((run step (new coalesceInterval) pre).note
            (ghost step note (new coalesceInterval) {} pre) a) ∧
        (run step (new coalesceInterval) pre).Paced
          (ghost step note (new coalesceInterval) {} pre) a) ↔
    ∀ pre a, pre ++ [a] <+: as →
      (run step (new coalesceInterval) pre).Sound
        (ghost step note (new coalesceInterval) {} pre) a :=
  run_step_iff (P := Kept) (Q := fun s g a ↦ (s.step a).OnTheWay (s.note g a) ∧ s.Paced g a)
    (R := Sound) as (kept_new _) (fun _ _ _ _ h hmet ↦ h.sound hmet.1 hmet.2)
    fun _ _ _ _ h hsound ↦ ⟨⟨(h.step hsound).toOnTheWay, h.paced hsound⟩, h.step hsound⟩

/-- The book of an instrument becomes ready behind its definition, and is marked. -/
def readied (k : InstKey) : List WriterAction :=
  [.message default (.record (snapInstDefRec k "A")), .mark 0,
    .message default (.record (snapshotBeginRec k 7 0 20 4)),
    .message default (.record (snapshotEndRec k 7 20)), .mark 0]

/-- A tick, with the one read-out of its batch. -/
def flush (now : ℕ) : List WriterAction := [.tick now default, .read, .wrote, .read]

/-- The flush behind a mark of channel 1 reads nothing out: the instrument is ready, it has not
been read out, and nothing is on its way. -/
theorem foreign_mark_unread :
    let s := run step (new 100) (readied ⟨1, 11⟩ ++ [.tick 0 default])
    let g := ghost step note (new 100) {} (readied ⟨1, 11⟩ ++ [.tick 0 default])
    (s.shard.instruments[(⟨1, 11⟩ : InstKey)]?).map Instrument.status = some .ready ∧
      s.writes .read = none ∧ ⟨1, 11⟩ ∈ (s.note g .read).unread ∧
      ¬(s.step .read).OnTheWay (s.note g .read) := by
  have hunread : (⟨1, 11⟩ : InstKey) ∈
      ((run step (new 100) (readied ⟨1, 11⟩ ++ [.tick 0 default])).note
        (ghost step note (new 100) {} (readied ⟨1, 11⟩ ++ [.tick 0 default])) .read).unread := by
    decide +kernel
  refine ⟨by decide, by decide, hunread, fun hway ↦ ?_⟩
  exact absurd (hway.pending _ hunread).key (by decide)

/-- A change behind a write is written at the next tick. -/
theorem fresh_mark_unpaced :
    let as := readied ⟨0, 11⟩ ++ flush 0 ++
      [.message default (.record (orderAddRec ⟨0, 11⟩ 5 21 100 1)), .mark 5, .tick 10 default]
    ¬(run step (new 100) as).Paced (ghost step note (new 100) {} as) .read := by
  intro as hpaced
  have hwrites : (run step (new 100) as).writes .read = some (⟨0, 11⟩, 10) := by
    decide +kernel
  have hlast : (ghost step note (new 100) {} as).written[(⟨0, 11⟩ : InstKey)]? = some 0 := by
    decide +kernel
  have hinterval : (run step (new 100) as).writer.coalesceInterval = 100 := by decide +kernel
  have hlate := hpaced _ _ hwrites 0 hlast
  rw [hinterval] at hlate
  exact absurd hlate (by decide)

end ReadOut

end EdgeMulticast.MarketByOrder
