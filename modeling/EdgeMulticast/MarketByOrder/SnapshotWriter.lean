import EdgeMulticast.Lib.FiniteMap
import EdgeMulticast.MarketByOrder.Shard

/-!
# The snapshot writer of the market-by-order book-builder

`snapshot_writer.go`, its wiring in `main.go`, and the calls that `Shard.handle` and `Shard.Run`
make to it.

The writer knows an instrument by its bare id.  `main` gives every writer the channel 0, and
looks an id up under channel 0.

The shard's goroutine and the writer's share the shard and the dirty map.  Each action of a
`ReadOut` is what one of them does between two points where the other may run.  What a read-out
computes from the book, in floating point, is left out.
-/

namespace EdgeMulticast.MarketByOrder

open Std (ExtTreeMap)
open EdgeMulticast.Lib

structure DirtyEntry where
  instrumentID : ℕ
  dirtiedAt : ℕ
  nextAllowedAt : ℕ
  coalescedCount : ℕ
deriving DecidableEq, Repr

structure SnapshotWriter where
  coalesceInterval : ℕ
  /-- The `channel_id` of the rows. -/
  channel : ℕ
  dirty : ExtTreeMap ℕ DirtyEntry := ∅
  generation : ℕ := 0

namespace SnapshotWriter

variable (w : SnapshotWriter)

def markDirty (now id : ℕ) : SnapshotWriter :=
  match w.dirty[id]? with
  | some e =>
      { w with dirty := w.dirty.insert id { e with coalescedCount := e.coalescedCount + 1 } }
  | none => { w with dirty := w.dirty.insert id ⟨id, now, now, 0⟩ }

def doReset : SnapshotWriter := { w with dirty := ∅, generation := w.generation + 1 }

/-- The entries that are due, in the order the loop over the map meets them. -/
def due (now : ℕ) (order : RangeOrder ℕ) : List DirtyEntry :=
  (order.visit w.dirty.keys).filterMap fun id ↦
    (w.dirty[id]?).filter fun e ↦ decide (e.nextAllowedAt ≤ now)

/-- What is left when they are extracted. -/
def extract (now : ℕ) : SnapshotWriter :=
  { w with dirty := w.dirty.filter fun _ e ↦ !decide (e.nextAllowedAt ≤ now) }

/-- The end of a round of `flushDue`: an entry made while the batch was out waits for the window
of the write. -/
def wrote (now id : ℕ) : SnapshotWriter :=
  match w.dirty[id]? with
  | none => w
  | some e =>
      if e.nextAllowedAt < now + w.coalesceInterval then
        { w with dirty := w.dirty.insert id { e with nextAllowedAt := now + w.coalesceInterval } }
      else w

section

/-- Entries stand under their own ids. -/
def Keyed (w : SnapshotWriter) : Prop :=
  ∀ (id : ℕ) (e : DirtyEntry), w.dirty[id]? = some e → e.instrumentID = id

variable {w} {now id id' : ℕ}

theorem mem_markDirty : id' ∈ (w.markDirty now id).dirty ↔ id' = id ∨ id' ∈ w.dirty := by
  rw [markDirty, eq_comm]
  split <;> rw [ExtTreeMap.mem_insert, Std.LawfulEqCmp.compare_eq_iff_eq]

/-- A mark leaves the times of an entry, and makes one that has not waited. -/
theorem markDirty_cases {e : DirtyEntry} (he : (w.markDirty now id).dirty[id']? = some e) :
    (∃ was, w.dirty[id']? = some was ∧
        e = { was with coalescedCount := e.coalescedCount }) ∨
      id' = id ∧ e = ⟨id, now, now, 0⟩ := by
  rw [markDirty] at he
  split at he
  all_goals
    rw [getElem?_insert_eq] at he
    split at he
  next was hwas hid =>
      obtain rfl := Option.some.inj he
      exact Or.inl ⟨was, hid ▸ hwas, rfl⟩
  next => exact Or.inl ⟨e, he, rfl⟩
  next hid =>
      obtain rfl := Option.some.inj he
      exact Or.inr ⟨hid.symm, rfl⟩
  next => exact Or.inl ⟨e, he, rfl⟩

theorem markDirty_frame (w : SnapshotWriter) (now id : ℕ) :
    (w.markDirty now id).generation = w.generation ∧ (w.markDirty now id).channel = w.channel ∧
      (w.markDirty now id).coalesceInterval = w.coalesceInterval := by
  rw [markDirty]
  split <;> exact ⟨rfl, rfl, rfl⟩

theorem Keyed.markDirty (h : w.Keyed) : (w.markDirty now id).Keyed := by
  intro id' e he
  rcases markDirty_cases he with ⟨was, hwas, heq⟩ | ⟨rfl, rfl⟩
  · rw [heq]
    exact h id' was hwas
  · rfl

theorem mem_due {order : RangeOrder ℕ} {e : DirtyEntry} :
    e ∈ w.due now order ↔ ∃ id : ℕ, w.dirty[id]? = some e ∧ e.nextAllowedAt ≤ now := by
  simp only [due, List.mem_filterMap, RangeOrder.mem_visit, ExtTreeMap.mem_keys,
    Option.filter_eq_some_iff, decide_eq_true_eq]
  constructor
  · rintro ⟨id, -, he, hdue⟩
    exact ⟨id, he, hdue⟩
  · rintro ⟨id, he, hdue⟩
    exact ⟨id, ExtTreeMap.mem_iff_isSome_getElem?.mpr (by rw [he]; rfl), he, hdue⟩

theorem getElem?_extract : (w.extract now).dirty[id]? =
    (w.dirty[id]?).filter fun e ↦ !decide (e.nextAllowedAt ≤ now) := by
  rw [extract, ExtTreeMap.getElem?_filter']

/-- A tick takes an entry into the batch or leaves it. -/
theorem mem_extract (order : RangeOrder ℕ) (h : id ∈ w.dirty) (hkeyed : w.Keyed) :
    id ∈ (w.extract now).dirty ∨ ∃ e ∈ w.due now order, e.instrumentID = id := by
  obtain ⟨e, he⟩ := Option.isSome_iff_exists.mp (ExtTreeMap.mem_iff_isSome_getElem?.mp h)
  by_cases hdue : e.nextAllowedAt ≤ now
  · exact Or.inr ⟨e, mem_due.mpr ⟨id, he, hdue⟩, hkeyed id e he⟩
  · left
    rw [ExtTreeMap.mem_iff_isSome_getElem?, getElem?_extract]
    simp [he, hdue]

/-- What a tick takes is not left. -/
theorem notMem_extract {order : RangeOrder ℕ} (hkeyed : w.Keyed)
    (h : id ∈ (w.due now order).map DirtyEntry.instrumentID) : (w.extract now).dirty[id]? = none := by
  obtain ⟨e, he, rfl⟩ := List.mem_map.mp h
  obtain ⟨id, hid, hdue⟩ := mem_due.mp he
  rw [getElem?_extract, hkeyed id e hid, hid]
  simp [hdue]

theorem nodup_due (order : RangeOrder ℕ) (hkeyed : w.Keyed) :
    ((w.due now order).map DirtyEntry.instrumentID).Nodup := by
  have hkeys : (order.visit w.dirty.keys).Nodup := (order.perm _).nodup_iff.mpr ExtTreeMap.nodup_keys
  rw [due, List.Nodup, List.pairwise_map, List.pairwise_filterMap]
  refine hkeys.imp fun {id id'} hne e he e' he' heq ↦ hne ?_
  rw [← hkeyed id e (Option.filter_eq_some_iff.mp he).1, heq]
  exact hkeyed id' e' (Option.filter_eq_some_iff.mp he').1

theorem Keyed.extract (h : w.Keyed) : (w.extract now).Keyed := by
  intro id e he
  rw [getElem?_extract, Option.filter_eq_some_iff] at he
  exact h id e he.1

theorem Keyed.doReset : w.doReset.Keyed := by
  intro id e he
  simp [SnapshotWriter.doReset] at he

theorem wrote_frame (w : SnapshotWriter) (now id : ℕ) :
    (w.wrote now id).generation = w.generation ∧ (w.wrote now id).channel = w.channel ∧
      (w.wrote now id).coalesceInterval = w.coalesceInterval := by
  rw [wrote]
  split
  next => exact ⟨rfl, rfl, rfl⟩
  next => split <;> exact ⟨rfl, rfl, rfl⟩

/-- The record of a write touches the entry of its id, which waits for the write from then on. -/
theorem wrote_cases {e : DirtyEntry} (he : (w.wrote now id).dirty[id']? = some e) :
    (id' ≠ id ∧ w.dirty[id']? = some e) ∨
      id' = id ∧ now + w.coalesceInterval ≤ e.nextAllowedAt ∧
        ∃ was, w.dirty[id]? = some was ∧ e.instrumentID = was.instrumentID := by
  rw [wrote] at he
  split at he
  next hnone =>
      by_cases hid : id' = id
      · rw [hid, hnone] at he
        cases he
      · exact Or.inl ⟨hid, he⟩
  next was hwas =>
      split at he
      next =>
          rw [getElem?_insert_eq] at he
          split at he
          next hid =>
              obtain rfl := Option.some.inj he
              exact Or.inr ⟨hid.symm, le_refl _, was, hwas, rfl⟩
          next hid => exact Or.inl ⟨fun h ↦ hid h.symm, he⟩
      next hlate =>
          by_cases hid : id' = id
          · rw [hid, hwas] at he
            obtain rfl := Option.some.inj he
            exact Or.inr ⟨hid, Nat.le_of_not_lt hlate, was, hwas, rfl⟩
          · exact Or.inl ⟨hid, he⟩

theorem mem_wrote (h : id' ∈ w.dirty) : id' ∈ (w.wrote now id).dirty := by
  rw [wrote]
  split
  next => exact h
  next =>
      split
      next => exact ExtTreeMap.mem_insert.mpr (Or.inr h)
      next => exact h

theorem Keyed.wrote (h : w.Keyed) : (w.wrote now id).Keyed := by
  intro id' e he
  rcases wrote_cases he with ⟨-, hwas⟩ | ⟨rfl, -, was, hwas, heq⟩
  · exact h id' e hwas
  · rw [heq]
    exact h id' was hwas

end

end SnapshotWriter

/-- A batch that `flushDue` has extracted: the entries still to be read out, and the id that
has been written and whose write has not been recorded. -/
structure Batch where
  now : ℕ
  gen : ℕ
  rest : List DirtyEntry
  writing : Option ℕ := none
deriving DecidableEq, Repr

/-- A shard and its writer, with where the two goroutines stand. -/
structure ReadOut where
  shard : Shard
  writer : SnapshotWriter
  /-- The instruments whose `MarkDirty` call `handle` still has to make. -/
  owed : List InstKey := []
  /-- The channel whose reset waits for the writer. -/
  resetting : Option ℕ := none
  batch : Option Batch := none

inductive WriterAction where
  | /-- The shard takes a message, up to the first call to the writer. -/
    message (σ : Choices) (msg : ShardMsg)
  | /-- The shard makes the next `MarkDirty` call. -/
    mark (now : ℕ)
  | /-- The writer serves a reset. -/
    reset
  | /-- The writer takes a tick. -/
    tick (now : ℕ) (order : RangeOrder ℕ)
  | /-- The writer reads out the next entry of its batch. -/
    read
  | /-- The writer records that it has written. -/
    wrote

namespace ReadOut

variable (s : ReadOut)

/-- The instruments that `handle` marks behind a record. -/
def marks (rec : Record) (evs : List ChannelEvent) : List InstKey :=
  evs.filterMap fun e ↦
    match e.kind with
    | .appliedDelta | .appliedSnapshot =>
        if e.instrumentID ≠ 0 then some ⟨rec.channelID, e.instrumentID⟩ else none
    | .instrumentReset => some ⟨rec.channelID, e.instrumentID⟩
    | .perInstrumentGap => none

/-- `Run`, up to the first call to the writer. -/
def message (σ : Choices) (msg : ShardMsg) : ReadOut :=
  { s with shard := s.shard.step (σ, msg)
           owed := match msg with
             | .record rec => marks rec (s.shard.apply rec σ).2
             | _ => []
           resetting := match msg with
             | .reset ch => some ch
             | _ => none }

/-- `withInstrument`: the instrument that an id stands for. -/
def withInstrument (id : ℕ) : InstKey := ⟨0, id⟩

/-- The instrument a read-out finds: one that has a book. -/
def served (id : ℕ) : Option Instrument :=
  (s.shard.instruments[withInstrument id]?).filter fun i ↦ decide (i.status ≠ .awaitingSnapshot)

/-- One round of the loop of `flushDue`, up to the record of the write. -/
def read (b : Batch) : ReadOut :=
  match b.rest with
  | [] => { s with batch := none }
  | e :: rest =>
      -- a reset landed after this batch was extracted
      if s.writer.generation ≠ b.gen then { s with batch := none }
      else { s with batch := some { b with
        rest := rest, writing := (s.served e.instrumentID).map fun _ ↦ e.instrumentID } }

/-- An action that its goroutine cannot take changes nothing. -/
def step : WriterAction → ReadOut
  | .message σ msg => if s.owed = [] ∧ s.resetting = none then s.message σ msg else s
  | .mark now =>
      match s.owed with
      | [] => s
      | k :: owed => { s with writer := s.writer.markDirty now k.id, owed := owed }
  | .reset =>
      if s.resetting.isSome ∧ s.batch = none then
        { s with writer := s.writer.doReset, resetting := none }
      else s
  | .tick now order =>
      if s.batch = none then
        { s with writer := s.writer.extract now
                 batch := some { now := now, gen := s.writer.generation
                                 rest := s.writer.due now order } }
      else s
  | .read =>
      match s.batch with
      | none => s
      | some b => if b.writing.isSome then s else s.read b
  | .wrote =>
      match s.batch with
      | none => s
      | some b =>
          match b.writing with
          | none => s
          | some id =>
              { s with writer := s.writer.wrote b.now id
                       batch := some { b with writing := none } }

/-- A shard and a writer as `main` starts them. -/
def new (coalesceInterval : ℕ) : ReadOut where
  shard := Shard.new
  writer := { coalesceInterval := coalesceInterval, channel := 0 }

end ReadOut

end EdgeMulticast.MarketByOrder
