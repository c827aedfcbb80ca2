import EdgeMulticast.Lib.Cursor
import EdgeMulticast.Lib.Run
import EdgeMulticast.Lowering.Table

/-!
# The snapshot rotation

`rotation.rs` (`dz-publisher-runtime`): which instrument is snapshotted next, and when.  A cycle is
one pass over the published set of a shard.  The cursor walks the slots that all shards share, and
the time of the next snapshot is counted from the call that served the last one.

Times are nanoseconds of a `u64` clock.
-/

namespace EdgeMulticast.Runtime

open EdgeMulticast.Lib
open EdgeMulticast.Lowering

def U32_MAX : ℕ := 2 ^ 32 - 1

def U64_MAX : ℕ := 2 ^ 64 - 1

/-- The floor under a derived tick: a millisecond. -/
def MIN_TICK : ℕ := 1000000

/-- The interval between per-instrument snapshots. -/
def tick (cycle instruments : ℕ) : ℕ := max (cycle / min (max instruments 1) U32_MAX) MIN_TICK

structure SnapshotRotation where
  cycleNs : ℕ
  cursor : ℕ := 0
  nextDueNs : Option ℕ := none
deriving DecidableEq, Repr

/-- A call of `due`: the clock, the table, and the shard the rotation serves. -/
structure DueCall where
  nowNs : ℕ
  instruments : InstrumentTable
  published : ℕ
  onShard : InstrumentRef → Bool

namespace DueCall

/-- How far the cursor goes. -/
def slots (c : DueCall) : ℕ := min c.instruments.slots.length U32_MAX

/-- Whether a slot holds an instrument of the shard. -/
def serves (c : DueCall) (slot : ℕ) : Bool :=
  c.instruments.holds (.fromAdmission slot) && c.onShard (.fromAdmission slot)

end DueCall

namespace SnapshotRotation

def new (cycle : ℕ) : SnapshotRotation := { cycleNs := cycle % 2 ^ 64 }

/-- When the next instrument falls due, a tick after now. -/
def rebased (r : SnapshotRotation) (c : DueCall) : ℕ :=
  min (c.nowNs + tick r.cycleNs c.published) U64_MAX

/-- The next instrument due a snapshot, if one is. -/
def due (r : SnapshotRotation) (c : DueCall) : Option InstrumentRef × SnapshotRotation :=
  if c.slots = 0 then (none, r)
  else match r.nextDueNs with
    -- the first call schedules a snapshot and takes none
    | none => (none, { r with nextDueNs := some (r.rebased c) })
    | some due =>
        if c.nowNs < due then (none, r)
        else
          let found := seek c.serves c.slots c.slots r.cursor
          (found.1.map InstrumentRef.fromAdmission,
            { r with cursor := found.2, nextDueNs := some (r.rebased c) })

def after (r : SnapshotRotation) (calls : List DueCall) : SnapshotRotation :=
  run (fun r c ↦ (r.due c).2) r calls

/-- What a sequence of calls served, and when. -/
def served : SnapshotRotation → List DueCall → List (ℕ × InstrumentRef)
  | _, [] => []
  | r, c :: calls => ((r.due c).1.map fun h ↦ (c.nowNs, h)).toList ++ served (r.due c).2 calls

/-- When the laps of a sequence of calls start: where the first snapshot is scheduled, and where
one is served. -/
def starts (r : SnapshotRotation) (calls : List DueCall) : List ℕ :=
  (if r.nextDueNs = none then (calls.head?.map DueCall.nowNs).toList else []) ++
    (r.served calls).map Prod.fst

end SnapshotRotation

/-! ## What is asked of a rotation -/

/-- Slots are added behind those that are there, and never taken away. -/
def Growing (calls : List DueCall) : Prop :=
  calls.IsChain fun a b ↦ a.instruments.slots.length ≤ b.instruments.slots.length

/-- Calls at increasing times no further apart than `d`, while the instruments of the shard are
those in the slots `S`. -/
structure Schedule (S : List ℕ) (d : ℕ) (calls : List DueCall) : Prop where
  times : calls.IsChain fun a b ↦ a.nowNs < b.nowNs ∧ b.nowNs ≤ a.nowNs + d
  clock : ∀ c ∈ calls, c.nowNs ≤ U64_MAX
  published : ∀ c ∈ calls, c.published = S.length
  steady : ∀ c ∈ calls, ∀ h, (c.instruments.holds h && c.onShard h) = true ↔ h.index.toNat ∈ S

/-- A rotation honours its cycle over the slots `S`, called every `d` at most, whatever calls were
made before: the instruments come round in the order of their slots, and a lap takes no longer
than the cycle and `d`. -/
def Honours (cycle : ℕ) (S : List ℕ) (d : ℕ) : Prop :=
  ∀ earlier calls, Growing (earlier ++ calls) → Schedule S d calls →
    let r := (SnapshotRotation.new cycle).after earlier
    (∃ first, ∀ i h, ((r.served calls).map Prod.snd)[i]? = some h →
      S[(first + i) % S.length]? = some h.index.toNat) ∧
    ∀ i start finish, (r.starts calls)[i]? = some start →
      (r.starts calls)[i + S.length]? = some finish → finish ≤ start + (cycle + d)

/-! ## One call -/

variable {S : List ℕ} {d : ℕ} {c : DueCall} {calls : List DueCall} {r : SnapshotRotation}

theorem Schedule.tail (h : Schedule S d (c :: calls)) : Schedule S d calls where
  times := h.times.of_cons
  clock c hc := h.clock c (List.mem_cons_of_mem _ hc)
  published c hc := h.published c (List.mem_cons_of_mem _ hc)
  steady c hc := h.steady c (List.mem_cons_of_mem _ hc)

/-- What a call sees of the shard: the slots `S`, and no other. -/
structure Sees (S : List ℕ) (c : DueCall) : Prop where
  published : c.published = S.length
  serves : ∀ i < c.slots, c.serves i = true ↔ i ∈ S
  inside : ∀ i ∈ S, i < c.slots

theorem Schedule.sees (h : Schedule S d calls) (hreach : ∀ i ∈ S, i < U32_MAX) (hc : c ∈ calls) :
    Sees S c where
  published := h.published c hc
  serves i hi := by
    have hindex : (InstrumentRef.fromAdmission i).index.toNat = i := by
      refine InstrumentRef.index_fromAdmission ?_
      have := hi.trans_le (Nat.min_le_right _ _)
      rw [U32_MAX] at this
      omega
    rw [DueCall.serves, h.steady c hc, hindex]
  inside i hi := by
    have hindex : (InstrumentRef.fromAdmission i).index.toNat = i := by
      refine InstrumentRef.index_fromAdmission ?_
      have := hreach i hi
      rw [U32_MAX] at this
      omega
    have hholds := (h.steady c hc (.fromAdmission i)).mpr (hindex.symm ▸ hi)
    rw [Bool.and_eq_true, InstrumentTable.holds, hindex] at hholds
    obtain ⟨inst, hinst⟩ := Option.isSome_iff_exists.mp hholds.1
    exact Nat.lt_min.mpr ⟨lt_of_slotAt hinst, hreach i hi⟩

/-- What a call does: it schedules, waits, or serves the instrument whose turn it is. -/
inductive Does (S : List ℕ) (r : SnapshotRotation) (c : DueCall) :
    Option InstrumentRef × SnapshotRotation → Prop
  | schedules (unscheduled : r.nextDueNs = none) :
      Does S r c (none, { r with nextDueNs := some (r.rebased c) })
  | waits {due : ℕ} (scheduled : r.nextDueNs = some due) (early : c.nowNs < due) :
      Does S r c (none, r)
  | serves {due : ℕ} {h : InstrumentRef} {cursor : ℕ} (scheduled : r.nextDueNs = some due)
      (late : due ≤ c.nowNs) (next : S[turn S r.cursor]? = some h.index.toNat)
      (inside : cursor < c.slots) (round : turn S cursor = (turn S r.cursor + 1) % S.length) :
      Does S r c (some h, { r with cursor, nextDueNs := some (r.rebased c) })

theorem does_due (hS : S.Pairwise (· < ·)) (hne : S ≠ []) (hsees : Sees S c)
    (hcursor : r.cursor < c.slots) : Does S r c (r.due c) := by
  rw [SnapshotRotation.due, if_neg (Nat.ne_zero_of_lt hcursor)]
  cases hdue : r.nextDueNs with
  | none => exact .schedules hdue
  | some due =>
      dsimp only
      split
      next hearly => exact .waits hdue hearly
      next hlate =>
          obtain ⟨i, hi⟩ := List.exists_mem_of_ne_nil S hne
          have hfinds := seek_ne_none hcursor (hsees.inside i hi)
            ((hsees.serves i (hsees.inside i hi)).mpr hi)
          obtain ⟨slot, hslot⟩ := Option.ne_none_iff_exists'.mp hfinds
          obtain ⟨hturn, hround⟩ := seek_some hS hsees.inside hsees.serves c.slots hcursor hslot
          have hindex : (InstrumentRef.fromAdmission slot).index.toNat = slot := by
            refine InstrumentRef.index_fromAdmission ?_
            have hlt := hsees.inside slot (List.mem_of_getElem? hturn)
            have := hlt.trans_le (Nat.min_le_right _ _)
            rw [U32_MAX] at this
            omega
          rw [hslot]
          refine .serves hdue (Nat.le_of_not_lt hlate) ?_ (seek_lt _ hcursor) hround
          rw [hindex]
          exact hturn

end EdgeMulticast.Runtime
