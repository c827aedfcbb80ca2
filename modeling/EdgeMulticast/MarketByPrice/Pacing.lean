import EdgeMulticast.MarketByPrice.SnapshotWriter

/-!
# The pace of the snapshot writer

A writer by itself: `MarkDirty` calls from anywhere, at any clock reading, between the steps of
`flushDue`, and read-outs that find an instrument or do not.  An entry waits for the last write
that is recorded when it is made.  While a batch is read out, the write that is under way is not
recorded yet, so an entry made then waits for the one before (`marked_in_flight`).

`paced_run` is what the writer keeps when no mark does that before the interval is over.
-/

namespace EdgeMulticast.MarketByPrice

open Std (ExtTreeMap)
open EdgeMulticast.Lib

/-- A snapshot writer, and the batch that its goroutine has in hand. -/
structure Flusher where
  writer : SnapshotWriter
  batch : Option Batch := none

inductive FlusherAction where
  | /-- A call of `MarkDirty`. -/
    mark (now : ℕ) (k : InstKey)
  | /-- `flushDue` extracts the entries that are due. -/
    tick (now : ℕ) (order : RangeOrder InstKey)
  | /-- It reads the next one out, and finds a book to write or none. -/
    read (served : Bool)
  | /-- It records the write. -/
    wrote

/-- The instruments that a batch has in hand. -/
def Batch.keys (b : Batch) : List InstKey := b.writing.toList ++ b.rest.map DirtyEntry.key

namespace Flusher

variable (s : Flusher)

/-- One round of the loop of `flushDue`, up to the record of the write. -/
def read (served : Bool) (b : Batch) : Flusher :=
  match b.rest with
  | [] => { s with batch := none }
  | e :: rest =>
      if s.writer.generation ≠ b.gen then { s with batch := none }
      else { s with batch := some { b with
        rest := rest, writing := if served then some e.key else none } }

/-- An action that the goroutine cannot take changes nothing. -/
def step : FlusherAction → Flusher
  | .mark now k => { s with writer := s.writer.markDirty now k }
  | .tick now order =>
      if s.batch = none then
        { s with writer := s.writer.extract now
                 batch := some { now := now, gen := s.writer.generation
                                 rest := s.writer.due now order } }
      else s
  | .read served =>
      match s.batch with
      | none => s
      | some b => if b.writing.isSome then s else s.read served b
  | .wrote =>
      match s.batch with
      | none => s
      | some b =>
          match b.writing with
          | none => s
          | some k =>
              { s with writer := { s.writer with
                  lastWrittenAt := s.writer.lastWrittenAt.insert k b.now }
                       batch := some { b with writing := none } }

def new (coalesceInterval : ℕ) : Flusher where
  writer := { coalesceInterval := coalesceInterval }

/-- The write that an action records. -/
def records : FlusherAction → Option (InstKey × ℕ)
  | .wrote => s.batch.bind fun b ↦ b.writing.map fun k ↦ (k, b.now)
  | _ => none

/-- The writes of a run, in order. -/
def note (log : List (InstKey × ℕ)) (a : FlusherAction) : List (InstKey × ℕ) :=
  log ++ (s.records a).toList

/-- A mark that comes while its instrument is in the batch finds an entry, or comes when the
interval is over. -/
def Clear : FlusherAction → Prop
  | .mark now k => ∀ b ∈ s.batch, k ∈ b.keys → k ∉ s.writer.dirty →
      b.now + s.writer.coalesceInterval ≤ now
  | _ => True

end Flusher

/-- When an instrument has been written. -/
def times (log : List (InstKey × ℕ)) (k : InstKey) : List ℕ :=
  (log.filter fun w ↦ decide (w.1 = k)).map Prod.snd

/-- Successive writes of an instrument are an interval apart. -/
def Paced (interval : ℕ) (log : List (InstKey × ℕ)) : Prop :=
  ∀ k, (times log k).IsChain fun t t' ↦ t + interval ≤ t'

theorem times_snoc (log : List (InstKey × ℕ)) (k k' : InstKey) (t : ℕ) :
    times (log ++ [(k, t)]) k' = if k = k' then times log k' ++ [t] else times log k' := by
  rw [times, times, List.filter_append, List.map_append]
  split
  next h => simp [h]
  next h => simp [h]

namespace Flusher

/-! ## What a batch and the entries have waited for -/

/-- An entry has waited for the last write of its instrument. -/
def Waited (w : SnapshotWriter) (k : InstKey) (t : ℕ) : Prop :=
  ∀ last, w.lastWrittenAt[k]? = some last → last + w.coalesceInterval ≤ t

structure BatchTimed (w : SnapshotWriter) (b : Batch) : Prop where
  nodup : b.keys.Nodup
  due : ∀ e ∈ b.rest, e.nextAllowedAt ≤ b.now
  waited : ∀ k ∈ b.keys, Waited w k b.now
  /-- An entry of an instrument that is in the batch waits for the write that is under way. -/
  apart : ∀ k ∈ b.keys, ∀ e, w.dirty[k]? = some e → b.now + w.coalesceInterval ≤ e.nextAllowedAt

/-- What holds between two actions. -/
structure Timed (interval : ℕ) (s : Flusher) (log : List (InstKey × ℕ)) : Prop where
  coalesces : s.writer.coalesceInterval = interval
  keyed : s.writer.Keyed
  entries : ∀ (k : InstKey) (e : DirtyEntry), s.writer.dirty[k]? = some e →
    Waited s.writer k e.nextAllowedAt
  batch : ∀ b ∈ s.batch, BatchTimed s.writer b
  last : ∀ k : InstKey, s.writer.lastWrittenAt[k]? = (times log k).getLast?
  paced : Paced interval log

variable {s : Flusher} {interval now : ℕ} {k : InstKey} {log : List (InstKey × ℕ)}

theorem Timed.mark (h : s.Timed interval log) (hclear : s.Clear (.mark now k)) :
    (s.step (.mark now k)).Timed interval log := by
  obtain ⟨hlast, hinterval⟩ := @SnapshotWriter.markDirty_frame s.writer now k
  have hwaited {k' : InstKey} {t : ℕ} :
      Waited (s.writer.markDirty now k) k' t ↔ Waited s.writer k' t := by
    rw [Waited, Waited, hlast, hinterval]
  refine ⟨hinterval.trans h.coalesces, h.keyed.markDirty, ?_, ?_, ?_, h.paced⟩
  · intro k' e he
    refine hwaited.mpr ?_
    rcases SnapshotWriter.markDirty_cases he with ⟨was, hwas, heq⟩ | ⟨rfl, -, heq⟩ <;> rw [heq]
    · exact h.entries k' was hwas
    · exact SnapshotWriter.le_nextAllowedAt.2
  · intro b hb
    obtain ⟨hnodup, hdue, hbatch, hapart⟩ := h.batch b hb
    refine ⟨hnodup, hdue, fun k' hk' ↦ hwaited.mpr (hbatch k' hk'), fun k' hk' e he ↦ ?_⟩
    rw [step, hinterval]
    rcases SnapshotWriter.markDirty_cases he with ⟨was, hwas, heq⟩ | ⟨rfl, hfresh, heq⟩ <;> rw [heq]
    · exact hapart k' hk' was hwas
    · -- the interval of the write under way is over
      have hover := hclear b hb hk' (by simpa using hfresh)
      exact hover.trans SnapshotWriter.le_nextAllowedAt.1
  · intro k'
    rw [step, hlast]
    exact h.last k'

theorem Timed.tick (h : s.Timed interval log) (order : RangeOrder InstKey) :
    (s.step (.tick now order)).Timed interval log := by
  rw [step]
  split
  next =>
    refine ⟨h.coalesces, h.keyed.extract, fun k e he ↦ ?_, ?_, h.last, h.paced⟩
    · rw [SnapshotWriter.getElem?_extract, Option.filter_eq_some_iff] at he
      exact h.entries k e he.1
    · rintro b ⟨⟩
      refine ⟨SnapshotWriter.nodup_due order h.keyed, ?_, ?_, ?_⟩
      · intro e he
        obtain ⟨-, -, hdue⟩ := SnapshotWriter.mem_due.mp he
        exact hdue
      · intro k hk last hlast
        obtain ⟨e, he, rfl⟩ := List.mem_map.mp hk
        obtain ⟨k, hk, hdue⟩ := SnapshotWriter.mem_due.mp he
        rw [h.keyed k e hk] at hlast
        exact (h.entries k e hk last hlast).trans hdue
      · intro k hk e he
        rw [SnapshotWriter.notMem_extract h.keyed hk] at he
        cases he
  next => exact h

theorem Timed.finish (h : s.Timed interval log) : Timed interval { s with batch := none } log :=
  ⟨h.coalesces, h.keyed, h.entries, by rintro b ⟨⟩, h.last, h.paced⟩

theorem Timed.read (h : s.Timed interval log) (served : Bool) :
    (s.step (.read served)).Timed interval log := by
  rw [step]
  cases hb : s.batch with
  | none => exact h
  | some b =>
      dsimp only
      split
      next => exact h
      next hwriting =>
        rw [Flusher.read]
        split
        next => exact h.finish
        next e rest hrest =>
          split
          next => exact h.finish
          next =>
            obtain ⟨hnodup, hdue, hwaited, hapart⟩ := h.batch b hb
            have hkeys : b.keys = e.key :: rest.map DirtyEntry.key := by
              rw [Batch.keys, Option.not_isSome_iff_eq_none.mp hwriting, hrest]
              rfl
            have hsub : (Batch.keys { b with
                rest := rest, writing := if served then some e.key else none }).Sublist b.keys := by
              rw [hkeys]
              cases served with
              | true => exact List.Sublist.refl _
              | false => exact List.sublist_cons_self ..
            refine ⟨h.coalesces, h.keyed, h.entries, ?_, h.last, h.paced⟩
            rintro b' ⟨⟩
            refine ⟨hnodup.sublist hsub, fun e' he' ↦ hdue e' ?_, fun k hk ↦ hwaited k (hsub.subset hk),
              fun k hk ↦ hapart k (hsub.subset hk)⟩
            rw [hrest]
            exact List.mem_cons_of_mem e he'

theorem Timed.wrote (h : s.Timed interval log) :
    (s.step .wrote).Timed interval (s.note log .wrote) := by
  cases hb : s.batch with
  | none =>
      have hnote : s.note log .wrote = log := by
        rw [note, records, hb]
        exact List.append_nil log
      rw [step, hb, hnote]
      exact h
  | some b =>
      cases hwriting : b.writing with
      | none =>
          have hnote : s.note log .wrote = log := by
            rw [note, records, hb, Option.bind_some, hwriting]
            exact List.append_nil log
          rw [step, hb, hnote]
          dsimp only
          rw [hwriting]
          exact h
      | some k =>
          have hnote : s.note log .wrote = log ++ [(k, b.now)] := by
            rw [note, records, hb, Option.bind_some, hwriting]
            rfl
          obtain ⟨hnodup, hdue, hwaited, hapart⟩ := h.batch b hb
          have hkeys : b.keys = k :: b.rest.map DirtyEntry.key := by
            rw [Batch.keys, hwriting]
            rfl
          rw [hkeys] at hnodup hwaited hapart
          obtain ⟨hnotMem, htail⟩ := List.nodup_cons.mp hnodup
          -- the record moves the window of its own instrument only
          have hrecord {k' : InstKey} {t : ℕ} (hown : k = k' → b.now + s.writer.coalesceInterval ≤ t)
              (hother : Waited s.writer k' t) :
              Waited { s.writer with lastWrittenAt := s.writer.lastWrittenAt.insert k b.now } k'
                t := by
            intro last hlast
            rw [getElem?_insert_eq] at hlast
            split at hlast
            next hk =>
              obtain rfl := Option.some.inj hlast
              exact hown hk
            next => exact hother last hlast
          rw [step, hb, hnote]
          dsimp only
          rw [hwriting]
          refine ⟨h.coalesces, h.keyed, fun k' e he ↦ ?_, ?_, fun k' ↦ ?_, fun k' ↦ ?_⟩
          · exact hrecord (fun hk ↦ hapart k List.mem_cons_self e (hk ▸ he)) (h.entries k' e he)
          · rintro b' ⟨⟩
            refine ⟨htail, hdue, fun k' hk' ↦ ?_, fun k' hk' ↦ hapart k' (List.mem_cons_of_mem k hk')⟩
            exact hrecord (fun hk ↦ absurd (hk ▸ hk') hnotMem)
              (hwaited k' (List.mem_cons_of_mem k hk'))
          · rw [getElem?_insert_eq, times_snoc]
            split
            next => rw [List.getLast?_concat]
            next => exact h.last k'
          · rw [times_snoc]
            split
            next hk =>
              subst hk
              refine List.isChain_append.mpr ⟨h.paced k, List.isChain_singleton _, ?_⟩
              intro last hlast t ht
              obtain rfl := Option.some.inj ht
              rw [← h.last, Option.mem_def] at hlast
              exact h.coalesces ▸ hwaited k List.mem_cons_self last hlast
            next => exact h.paced k'

theorem Timed.step (h : s.Timed interval log) {a : FlusherAction} (hclear : s.Clear a) :
    (s.step a).Timed interval (s.note log a) := by
  have hquiet {a : FlusherAction} (hnone : s.records a = none) : s.note log a = log := by
    rw [note, hnone]
    exact List.append_nil log
  cases a with
  | mark now k =>
      rw [hquiet rfl]
      exact h.mark hclear
  | tick now order =>
      rw [hquiet rfl]
      exact h.tick order
  | read served =>
      rw [hquiet rfl]
      exact h.read served
  | wrote => exact h.wrote

theorem new_timed (interval : ℕ) : (new interval).Timed interval [] where
  coalesces := rfl
  keyed := by simp [new, SnapshotWriter.Keyed]
  entries := by simp [new]
  batch := by simp [new]
  last := by simp [new, times]
  paced := fun k ↦ .nil

/-- **Successive writes of an instrument are an interval apart** in every run whose marks are clear
of the write under way. -/
theorem paced_run (interval : ℕ) {as : List FlusherAction}
    (hclear : ∀ pre a, pre ++ [a] <+: as → (run step (new interval) pre).Clear a) :
    Paced interval (ghost step note (new interval) [] as) :=
  (run_ghost (P := Timed interval) as (new_timed interval)
    fun pre a hpre h ↦ h.step (hclear pre a hpre)).paced

/-! ## A mark behind the write, and one under way -/

/-- An instrument is marked and written; it is marked again in the middle of that or behind it, and
written again. -/
def twoWrites (between behind : List FlusherAction) (later : ℕ) : List FlusherAction :=
  [.mark 0 ⟨0, 11⟩, .tick 0 default] ++ between ++ [.read true, .wrote, .read true] ++ behind ++
    [.tick later default, .read true, .wrote]

theorem paced_run_twoWrites :
    ghost step note (new 50) [] (twoWrites [] [.mark 1 ⟨0, 11⟩] 50) =
      [(⟨0, 11⟩, 0), (⟨0, 11⟩, 50)] ∧
    Paced 50 (ghost step note (new 50) [] (twoWrites [] [.mark 1 ⟨0, 11⟩] 50)) := by
  refine ⟨by decide +kernel, paced_run 50 fun pre a hpre ↦ ?_⟩
  simp only [twoWrites, List.nil_append, List.cons_append] at hpre
  revert pre a
  repeat rw [forall_prefix_cons]
  refine ⟨?_, trivial, trivial, trivial, trivial, ?_, trivial, trivial, trivial, forall_prefix_nil⟩
  · rintro b ⟨⟩
  · intro b hb
    have hnone : (run step (new 50) [.mark 0 ⟨0, 11⟩, .tick 0 default, .read true, .wrote,
        .read true]).batch.isNone = true := by
      decide +kernel
    rw [Option.isNone_iff_eq_none] at hnone
    rw [hnone] at hb
    cases hb

/-- A mark that comes while its instrument is read out is written at the next tick. -/
theorem marked_in_flight :
    ¬Paced 50 (ghost step note (new 50) [] (twoWrites [.mark 1 ⟨0, 11⟩] [] 10)) := by
  have hlog : ghost step note (new 50) [] (twoWrites [.mark 1 ⟨0, 11⟩] [] 10) =
      [(⟨0, 11⟩, 0), (⟨0, 11⟩, 10)] := by
    decide +kernel
  rw [hlog]
  intro hpaced
  have hchain : [0, 10].IsChain fun t t' ↦ t + 50 ≤ t' := hpaced ⟨0, 11⟩
  rw [List.isChain_cons_cons] at hchain
  omega

end Flusher

/-! ## The writer of a shard -/

namespace ReadOut

variable (s : ReadOut)

/-- The writer of a shard, by itself. -/
def flusher : Flusher := ⟨s.writer, s.batch⟩

/-- What the writer takes part in, of an action of the two goroutines. -/
def calls : WriterAction → List FlusherAction
  | .message _ _ | .reset => []
  | .mark now => s.owed.head?.toList.map (.mark now)
  | .tick now order => [.tick now order]
  | .read => [.read ((s.batch.bind fun b ↦ b.rest.head?).any fun e ↦ (s.served e.key).isSome)]
  | .wrote => [.wrote]

/-- Apart from resets, the writer of a shard takes the steps of a writer by itself. -/
theorem flusher_step {a : WriterAction} (hreset : a ≠ .reset) :
    (s.step a).flusher = run Flusher.step s.flusher (s.calls a) := by
  cases a with
  | message σ msg =>
      rw [step]
      split <;> rfl
  | mark now =>
      rw [step, calls]
      cases howed : s.owed <;> rfl
  | reset => exact absurd rfl hreset
  | tick now order =>
      rw [calls, run_cons, run_nil, step, Flusher.step]
      split
      next hbatch =>
        rw [if_pos (show s.flusher.batch = none from hbatch)]
        rfl
      next hbatch => rw [if_neg (show ¬s.flusher.batch = none from hbatch)]
  | read =>
      rw [calls, run_cons, run_nil, step, Flusher.step]
      cases hbatch : s.batch with
      | none => rw [flusher, hbatch]
      | some b =>
          simp only [flusher, hbatch, Option.bind_some]
          split
          next => rw [hbatch]
          next =>
            rw [read, Flusher.read]
            cases hrest : b.rest with
            | nil => rfl
            | cons e rest =>
                dsimp only [List.head?_cons, Option.any_some]
                split
                next => rfl
                next =>
                  have hwriting : (s.served e.key).map (fun _ ↦ e.key) =
                      if (s.served e.key).isSome then some e.key else none := by
                    cases s.served e.key <;> rfl
                  rw [hwriting]
                  rfl
  | wrote =>
      rw [calls, run_cons, run_nil, step, Flusher.step]
      cases hbatch : s.batch with
      | none => rw [flusher, hbatch]
      | some b =>
          simp only [flusher, hbatch]
          cases b.writing with
          | none => simp only [hbatch]
          | some k => rfl

/-- The steps of the writer in a run of the two goroutines. -/
def allCalls : ReadOut → List WriterAction → List FlusherAction
  | _, [] => []
  | s, a :: as => s.calls a ++ allCalls (s.step a) as

theorem flusher_run {as : List WriterAction} (hreset : .reset ∉ as) :
    (run step s as).flusher = run Flusher.step s.flusher (s.allCalls as) := by
  induction as generalizing s with
  | nil => rfl
  | cons a as ih =>
      obtain ⟨hne, has⟩ := not_or.mp (mt List.mem_cons.mpr hreset)
      rw [run_cons, ih (s.step a) has, allCalls, run_append, s.flusher_step (Ne.symm hne)]

end ReadOut

end EdgeMulticast.MarketByPrice
