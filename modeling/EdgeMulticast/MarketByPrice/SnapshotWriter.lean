import EdgeMulticast.MarketByPrice.Dispatch

/-!
# The snapshot writer of the market-by-price book-builder

`snapshot_writer.go`, and the calls `Shard.handle` and `Shard.Run` make to it.

Two goroutines share a shard.  The shard's own takes messages from the inbox; behind a record it
marks the instruments whose books changed, one call at a time, and behind a channel reset it
waits until the writer has served the request it left.  The writer's goroutine serves a request
or takes a tick, which extracts the entries that are due and then reads them out one by one.
Each action of a `ReadOut` is what one goroutine does between two points where the other may
run.

A read-out is the look at the instrument under the shard's lock.  What is computed from it (the
levels, in floating point) and enqueued is left out.
-/

namespace EdgeMulticast.MarketByPrice

open Std (ExtTreeMap)
open EdgeMulticast.Lib

structure DirtyEntry where
  key : InstKey
  dirtiedAt : ℕ
  nextAllowedAt : ℕ
  coalescedCount : ℕ
deriving DecidableEq, Repr

structure SnapshotWriter where
  coalesceInterval : ℕ
  dirty : ExtTreeMap InstKey DirtyEntry := ∅
  lastWrittenAt : ExtTreeMap InstKey ℕ := ∅
  generation : ℕ := 0

namespace SnapshotWriter

variable (w : SnapshotWriter)

/-- When a fresh entry may be written: not before the window of the last write has passed. -/
def nextAllowedAt (now : ℕ) (k : InstKey) : ℕ :=
  match w.lastWrittenAt[k]? with
  | some last => if now < last + w.coalesceInterval then last + w.coalesceInterval else now
  | none => now

def markDirty (now : ℕ) (k : InstKey) : SnapshotWriter :=
  match w.dirty[k]? with
  | some e =>
      { w with dirty := w.dirty.insert k { e with coalescedCount := e.coalescedCount + 1 } }
  | none => { w with dirty := w.dirty.insert k ⟨k, now, w.nextAllowedAt now k, 0⟩ }

/-- Clear the pending work and the pacing, of every channel. -/
def doReset : SnapshotWriter :=
  { w with dirty := ∅, lastWrittenAt := ∅, generation := w.generation + 1 }

/-- The entries that are due, in the order the loop over the map meets them. -/
def due (now : ℕ) (order : RangeOrder InstKey) : List DirtyEntry :=
  (order.visit w.dirty.keys).filterMap fun k ↦
    (w.dirty[k]?).filter fun e ↦ decide (e.nextAllowedAt ≤ now)

/-- What is left when they are extracted. -/
def extract (now : ℕ) : SnapshotWriter :=
  { w with dirty := w.dirty.filter fun _ e ↦ !decide (e.nextAllowedAt ≤ now) }

section

variable {w} {now : ℕ} {k k' : InstKey}

/-- Marking adds a key. -/
theorem mem_markDirty : k' ∈ (w.markDirty now k).dirty ↔ k' = k ∨ k' ∈ w.dirty := by
  rw [markDirty, eq_comm]
  split <;> rw [ExtTreeMap.mem_insert, Std.LawfulEqCmp.compare_eq_iff_eq]

theorem markDirty_generation : (w.markDirty now k).generation = w.generation := by
  rw [markDirty]
  split <;> rfl

/-- Entries stand under their own keys. -/
def Keyed (w : SnapshotWriter) : Prop :=
  ∀ (k : InstKey) (e : DirtyEntry), w.dirty[k]? = some e → e.key = k

theorem Keyed.markDirty (h : w.Keyed) : (w.markDirty now k).Keyed := by
  intro k' e he
  rw [SnapshotWriter.markDirty] at he
  split at he
  all_goals
    rw [getElem?_insert_eq] at he
    split at he
  next e' he' hk =>
      obtain rfl := Option.some.inj he
      exact (h k e' he').trans hk
  next => exact h k' e he
  next hk =>
      obtain rfl := Option.some.inj he
      exact hk
  next => exact h k' e he

theorem Keyed.doReset : w.doReset.Keyed := by
  intro k e he
  simp [SnapshotWriter.doReset] at he

theorem Keyed.extract (h : w.Keyed) : (w.extract now).Keyed := by
  intro k e he
  rw [SnapshotWriter.extract, ExtTreeMap.getElem?_filter', Option.filter_eq_some_iff] at he
  exact h k e he.1

/-- An entry of the writer after a mark: one that was there, or the one that the mark makes. -/
theorem markDirty_cases {e : DirtyEntry} (he : (w.markDirty now k).dirty[k']? = some e) :
    (∃ was, w.dirty[k']? = some was ∧ e.nextAllowedAt = was.nextAllowedAt) ∨
      k' = k ∧ w.dirty[k]? = none ∧ e.nextAllowedAt = w.nextAllowedAt now k := by
  rw [markDirty] at he
  split at he
  all_goals
    rw [getElem?_insert_eq] at he
    split at he
  next was hwas hk =>
      obtain rfl := Option.some.inj he
      exact Or.inl ⟨was, hk ▸ hwas, rfl⟩
  next => exact Or.inl ⟨e, he, rfl⟩
  next hnone hk =>
      obtain rfl := Option.some.inj he
      exact Or.inr ⟨hk.symm, hnone, rfl⟩
  next => exact Or.inl ⟨e, he, rfl⟩

/-- A mark leaves the pacing alone. -/
theorem markDirty_frame : (w.markDirty now k).lastWrittenAt = w.lastWrittenAt ∧
    (w.markDirty now k).coalesceInterval = w.coalesceInterval := by
  rw [markDirty]
  split <;> exact ⟨rfl, rfl⟩

/-- A fresh entry is not allowed before the clock, nor before the window of the last write. -/
theorem le_nextAllowedAt : now ≤ w.nextAllowedAt now k ∧
    ∀ last, w.lastWrittenAt[k]? = some last → last + w.coalesceInterval ≤ w.nextAllowedAt now k := by
  rw [nextAllowedAt]
  cases hlast : w.lastWrittenAt[k]? with
  | none => exact ⟨le_rfl, by rintro last ⟨⟩⟩
  | some last =>
      dsimp only
      split
      next hlate => exact ⟨hlate.le, by rintro last' ⟨⟩; exact le_rfl⟩
      next hlate => exact ⟨le_rfl, by rintro last' ⟨⟩; exact not_lt.mp hlate⟩

theorem mem_due {order : RangeOrder InstKey} {e : DirtyEntry} :
    e ∈ w.due now order ↔ ∃ k : InstKey, w.dirty[k]? = some e ∧ e.nextAllowedAt ≤ now := by
  simp only [due, List.mem_filterMap, RangeOrder.mem_visit, ExtTreeMap.mem_keys,
    Option.filter_eq_some_iff, decide_eq_true_eq]
  constructor
  · rintro ⟨k, -, he, hdue⟩
    exact ⟨k, he, hdue⟩
  · rintro ⟨k, he, hdue⟩
    exact ⟨k, ExtTreeMap.mem_iff_isSome_getElem?.mpr (by rw [he]; rfl), he, hdue⟩

theorem getElem?_extract : (w.extract now).dirty[k]? =
    (w.dirty[k]?).filter fun e ↦ !decide (e.nextAllowedAt ≤ now) := by
  rw [extract, ExtTreeMap.getElem?_filter']

/-- The keys of a batch are not dirty when it has been extracted. -/
theorem notMem_extract {order : RangeOrder InstKey} (hkeyed : w.Keyed)
    (h : k ∈ (w.due now order).map DirtyEntry.key) : (w.extract now).dirty[k]? = none := by
  obtain ⟨e, he, rfl⟩ := List.mem_map.mp h
  obtain ⟨k, hk, hdue⟩ := mem_due.mp he
  rw [getElem?_extract, hkeyed k e hk, hk]
  simp [hdue]

theorem nodup_due (order : RangeOrder InstKey) (hkeyed : w.Keyed) :
    ((w.due now order).map DirtyEntry.key).Nodup := by
  have hkeys : (order.visit w.dirty.keys).Nodup := (order.perm _).nodup_iff.mpr ExtTreeMap.nodup_keys
  rw [due, List.Nodup, List.pairwise_map, List.pairwise_filterMap]
  refine hkeys.imp fun {k k'} hne e he e' he' heq ↦ hne ?_
  rw [← hkeyed k e (Option.filter_eq_some_iff.mp he).1, heq]
  exact hkeyed k' e' (Option.filter_eq_some_iff.mp he').1

/-- A tick takes an entry into the batch or leaves it. -/
theorem mem_extract (order : RangeOrder InstKey) (h : k ∈ w.dirty)
    (hkeyed : w.Keyed) :
    k ∈ (w.extract now).dirty ∨ ∃ e ∈ w.due now order, e.key = k := by
  obtain ⟨e, he⟩ := Option.isSome_iff_exists.mp (ExtTreeMap.mem_iff_isSome_getElem?.mp h)
  by_cases hdue : e.nextAllowedAt ≤ now
  · refine Or.inr ⟨e, ?_, hkeyed k e he⟩
    rw [due, List.mem_filterMap]
    refine ⟨k, ?_, by simp [he, hdue]⟩
    rwa [RangeOrder.mem_visit, ExtTreeMap.mem_keys]
  · left
    rw [ExtTreeMap.mem_iff_isSome_getElem?, extract, ExtTreeMap.getElem?_filter']
    simp [he, hdue]

end

end SnapshotWriter

/-- A batch that `flushDue` has extracted: the entries still to be read out, and the one that
has been read out and whose time of writing has not been recorded. -/
structure Batch where
  now : ℕ
  gen : ℕ
  rest : List DirtyEntry
  writing : Option InstKey := none
deriving DecidableEq, Repr

/-- A shard and its writer, with where the two goroutines stand. -/
structure ReadOut where
  shard : Shard
  writer : SnapshotWriter
  /-- The `MarkDirty` calls that `handle` still has to make. -/
  owed : List InstKey := []
  /-- The channel whose reset waits for the writer. -/
  resetting : Option ℕ := none
  batch : Option Batch := none

inductive WriterAction where
  | /-- The shard takes a message, up to the first call to the writer. -/
    message (σ : Choices) (msg : ShardMsg)
  | /-- The shard makes the next `MarkDirty` call. -/
    mark (now : ℕ)
  | /-- The writer serves a reset. -/
    reset
  | /-- The writer takes a tick. -/
    tick (now : ℕ) (order : RangeOrder InstKey)
  | /-- The writer reads out the next entry of its batch. -/
    read
  | /-- The writer records that it has written. -/
    wrote

namespace ReadOut

variable (s : ReadOut)

/-- The keys that `handle` marks behind a record. -/
def marks (rec : Record) (evs : List ChannelEvent) : List InstKey :=
  evs.filterMap fun e ↦ if Shard.isApplied e then some ⟨rec.channelID, e.instrumentID⟩ else none

/-- `Run`, up to the first call to the writer. -/
def message (σ : Choices) (msg : ShardMsg) : ReadOut :=
  { s with shard := s.shard.step (σ, msg)
           owed := match msg with
             | .record rec => marks rec (s.shard.apply σ rec).2
             | _ => []
           resetting := match msg with
             | .reset ch => some ch
             | _ => none }

/-- The instrument a read-out finds: one that has a book, and whose symbol is persisted. -/
def served (k : InstKey) : Option Instrument :=
  (s.shard.instruments[k]?).filter fun i ↦
    decide (i.status ≠ .awaitingSnapshot) && s.shard.persists i.symbol

/-- One round of the loop of `flushDue`, up to the record of the write. -/
def read (b : Batch) : ReadOut :=
  match b.rest with
  | [] => { s with batch := none }
  | e :: rest =>
      -- a reset landed after this batch was extracted
      if s.writer.generation ≠ b.gen then { s with batch := none }
      else { s with batch := some { b with rest := rest
                                           writing := (s.served e.key).map fun _ ↦ e.key } }

/-- An action that its goroutine cannot take changes nothing. -/
def step : WriterAction → ReadOut
  | .message σ msg => if s.owed = [] ∧ s.resetting = none then s.message σ msg else s
  | .mark now =>
      match s.owed with
      | [] => s
      | k :: owed => { s with writer := s.writer.markDirty now k, owed := owed }
  | .reset =>
      if s.resetting.isSome ∧ s.batch = none then
        { s with writer := s.writer.doReset, resetting := none }
      else s
  | .tick now order =>
      if s.batch = none then
        { s with writer := s.writer.extract now
                 batch := some { now := now, gen := s.writer.generation
                                 rest := s.writer.due now order } }
      else s
  | .read =>
      match s.batch with
      | none => s
      | some b => if b.writing.isSome then s else s.read b
  | .wrote =>
      match s.batch with
      | none => s
      | some b =>
          match b.writing with
          | none => s
          | some k =>
              { s with writer := { s.writer with
                  lastWrittenAt := s.writer.lastWrittenAt.insert k b.now }
                       batch := some { b with writing := none } }

/-- A shard and a writer as `main` starts them. -/
def new (maxBuffered : ℤ) (symbols : Option (List String)) (coalesceInterval : ℕ) : ReadOut where
  shard := Shard.new maxBuffered symbols
  writer := { coalesceInterval := coalesceInterval }

end ReadOut

end EdgeMulticast.MarketByPrice
