import EdgeMulticast.Lowering.Numbers
import EdgeMulticast.Refdata.Agreement

/-!
# The numbers of an Instrument ID

The depth side of a publisher: the registry that admits, withdraws and recalls instruments, and the
lowering that numbers the mutations of their books.  The series of numbers is kept for a handle; a
subscriber sees an Instrument ID on a shard.  An instrument that is withdrawn and listed again has
its Instrument ID back, under a new handle, and its numbers start over (`relisted_restarts`).

`series_run` is what holds when no book is written to through a second handle.
-/

namespace EdgeMulticast.Refdata

open EdgeMulticast.Lib
open EdgeMulticast.Codec
open EdgeMulticast.Lowering

/-- A registry, and the lowering that is called with its table. -/
structure DepthSide where
  registry : Registry
  lowering : DepthLowering

/-- What a process calls within an era. -/
inductive DepthCall where
  | registry (c : RegistryCall)
  | level (h : InstrumentRef) (sourceTsNs : UInt64) (side : Side) (px qty : Scalar)
      (orderCount : Option UInt16) (presence : Presence)
  | clear (h : InstrumentRef) (sourceTsNs : UInt64) (scope : ClearScope)
  | snapshot (h : InstrumentRef) (anchorSeq timestampNs : UInt64)

/-- What a subscriber tells the book of a message by: its Instrument ID, and the shard that carries
it. -/
structure Place where
  instrumentId : UInt32
  shard : Option ℕ
deriving DecidableEq, Repr

/-- A LevelUpdate or a BookClear that was lowered. -/
structure Mutation where
  handle : InstrumentRef
  place : Place
  number : UInt32
deriving DecidableEq, Repr

namespace DepthSide

variable (s : DepthSide)

/-- `Registry::shard_of`. -/
def shardOf (h : InstrumentRef) : Option ℕ := (s.registry.slot h).map Published.shard

def step : DepthCall → DepthSide
  | .registry c => { s with registry := s.registry.call c }
  | .level h sourceTsNs side px qty orderCount presence => { s with lowering :=
      (s.lowering.lowerLevel s.registry.instruments h sourceTsNs side px qty orderCount presence).2 }
  | .clear h sourceTsNs scope => { s with lowering :=
      (s.lowering.lowerClear s.registry.instruments h sourceTsNs scope).2 }
  | .snapshot h anchorSeq timestampNs => { s with lowering :=
      (s.lowering.openSnapshot s.registry.instruments h anchorSeq timestampNs).2 }

/-- The message that a call lowers, if it mutates a book. -/
def mutation : DepthCall → Option Mutation
  | .level h sourceTsNs side px qty orderCount presence =>
      (s.lowering.lowerLevel s.registry.instruments h sourceTsNs side px qty orderCount
        presence).1.toOption.map fun m ↦ ⟨h, ⟨m.instrumentId, s.shardOf h⟩, m.perInstrumentSeq⟩
  | .clear h sourceTsNs scope =>
      (s.lowering.lowerClear s.registry.instruments h sourceTsNs scope).1.toOption.map fun m ↦
        ⟨h, ⟨m.instrumentId, s.shardOf h⟩, m.perInstrumentSeq⟩
  | _ => none

/-- The snapshot that a call opens: its handle, its place, and its Last Instrument Seq. -/
def opening : DepthCall → Option Mutation
  | .snapshot h anchorSeq timestampNs =>
      (s.lowering.openSnapshot s.registry.instruments h anchorSeq timestampNs).1.toOption.map
        fun f ↦ ⟨h, ⟨f.instrument.instrumentId, s.shardOf h⟩, f.lastInstrumentSeq⟩
  | _ => none

/-- The mutations of an era, in order. -/
def note (log : List Mutation) (a : DepthCall) : List Mutation := log ++ (s.mutation a).toList

end DepthSide

/-- The numbers that a subscriber of a place sees. -/
def numbers (log : List Mutation) (place : Place) : List UInt32 :=
  (log.filter fun m ↦ decide (m.place = place)).map Mutation.number

/-- What is claimed of the mutations of an era: at every place they are numbered 1, 2, 3, … -/
def Dense (log : List Mutation) : Prop :=
  ∀ place, numbers log place = (List.range' 1 (numbers log place).length).map UInt32.ofNat

namespace DepthSide

/-- What is claimed of a snapshot: it states the last number of its place. -/
def Declares (s : DepthSide) (log : List Mutation) (a : DepthCall) : Prop :=
  ∀ o, s.opening a = some o → o.number = (numbers log o.place).getLast?.getD 0

/-- What is written or snapshotted has been written through this handle only, and the handle has
written nothing else. -/
def OneHandle (s : DepthSide) (log : List Mutation) (a : DepthCall) : Prop :=
  ∀ o, s.mutation a = some o ∨ s.opening a = some o →
    ∀ m ∈ log, m.handle = o.handle ↔ m.place = o.place

/-! ## One call -/

variable {s : DepthSide} {log : List Mutation} {a : DepthCall}

/-- The call of the lowering that a call makes. -/
def lowered : DepthCall → Option Call
  | .registry _ => none
  | .level h sourceTsNs side px qty orderCount presence =>
      some (.level h sourceTsNs side px qty orderCount presence)
  | .clear h sourceTsNs scope => some (.clear h sourceTsNs scope)
  | .snapshot h anchorSeq timestampNs => some (.snapshot h anchorSeq timestampNs)

/-- A mutation is what the lowering stamps. -/
theorem stamped_lowered {c : Call} (hc : lowered a = some c) (h : InstrumentRef) :
    Lowering.stamped h c (Lowered.call ⟨s.lowering, s.registry.instruments⟩ c).1 =
      ((s.mutation a).filter fun m ↦ decide (m.handle = h)).map Mutation.number := by
  cases a with
  | registry c => cases hc
  | snapshot h' anchorSeq timestampNs =>
      cases hc
      rfl
  | level h' sourceTsNs side px qty orderCount presence =>
      cases hc
      rw [mutation, Lowered.call]
      cases (s.lowering.lowerLevel s.registry.instruments h' sourceTsNs side px qty orderCount
          presence).1 with
      | error e => rfl
      | ok m => by_cases heq : h' = h <;> simp [Lowering.stamped, Except.toOption, heq]
  | clear h' sourceTsNs scope =>
      cases hc
      rw [mutation, Lowered.call]
      cases (s.lowering.lowerClear s.registry.instruments h' sourceTsNs scope).1 with
      | error e => rfl
      | ok m => by_cases heq : h' = h <;> simp [Lowering.stamped, Except.toOption, heq]

/-- What a call does to the series: a mutation takes the next number of its handle, and nothing else
takes one. -/
theorem lastOf_step (s : DepthSide) (a : DepthCall) (h : InstrumentRef) :
    (s.step a).lowering.seq.lastOf h =
      (((s.mutation a).filter fun m ↦ decide (m.handle = h)).map Mutation.number).getD
        (s.lowering.seq.lastOf h) := by
  have hcall {c : Call} (hc : lowered a = some c) :
      (Lowered.call ⟨s.lowering, s.registry.instruments⟩ c).2.lowering.seq.lastOf h =
        (((s.mutation a).filter fun m ↦ decide (m.handle = h)).map Mutation.number).getD
          (s.lowering.seq.lastOf h) := by
    rw [lastOf_call, stamped_lowered hc]
  cases a with
  | registry c => rfl
  | level h' sourceTsNs side px qty orderCount presence => exact hcall rfl
  | clear h' sourceTsNs scope => exact hcall rfl
  | snapshot h' anchorSeq timestampNs => exact hcall rfl

/-- The number of a mutation is the next of its handle. -/
theorem number_eq {m : Mutation} (hm : s.mutation a = some m) :
    m.number = saturatingSucc (s.lowering.seq.lastOf m.handle) := by
  obtain ⟨c, hc⟩ : ∃ c, lowered a = some c := by
    cases a with
    | registry c => cases hm
    | _ => exact ⟨_, rfl⟩
  refine stamped_eq (s := ⟨s.lowering, s.registry.instruments⟩) (c := c) ?_
  rw [stamped_lowered hc, hm]
  simp

/-- A snapshot declares the last number of its handle. -/
theorem opening_eq {o : Mutation} (ho : s.opening a = some o) :
    o.number = s.lowering.seq.lastOf o.handle := by
  cases a with
  | snapshot h anchorSeq timestampNs =>
      obtain ⟨f, hf, rfl⟩ := Option.map_eq_some_iff.mp ho
      rw [DepthLowering.openSnapshot] at hf
      split at hf
      next => cases hf
      next =>
        obtain rfl := Option.some.inj hf
        rfl
  | _ => cases ho

/-! ## A run -/

/-- What the counters and the mutations of an era have in common. -/
structure Counted (s : DepthSide) (log : List Mutation) : Prop where
  counts : ∀ h, (s.lowering.seq.lastOf h).toNat =
    (log.filter fun m ↦ decide (m.handle = h)).length
  dense : Dense log

/-- Through one handle, a place has as many numbers as the handle has stamped. -/
theorem Counted.length_numbers (h : s.Counted log) {o : Mutation}
    (hone : ∀ m ∈ log, m.handle = o.handle ↔ m.place = o.place) :
    (numbers log o.place).length = (s.lowering.seq.lastOf o.handle).toNat := by
  rw [h.counts, numbers, List.length_map]
  refine congrArg List.length (List.filter_congr fun m hm ↦ ?_)
  exact decide_eq_decide.mpr (hone m hm).symm

theorem Counted.declares (h : s.Counted log) (hone : s.OneHandle log a) : s.Declares log a := by
  intro o ho
  have hlength := h.length_numbers (hone o (.inr ho))
  rw [opening_eq ho, h.dense o.place, getLast?_series, hlength, UInt32.ofNat_toNat]

theorem numbers_snoc (log : List Mutation) (m : Mutation) (place : Place) :
    numbers (log ++ [m]) place =
      if m.place = place then numbers log place ++ [m.number] else numbers log place := by
  rw [numbers, numbers, List.filter_append, List.map_append]
  split
  next h => simp [h]
  next h => simp [h]

theorem Counted.step (h : s.Counted log) (hone : s.OneHandle log a)
    (hbound : ∀ place, (numbers (s.note log a) place).length < 2 ^ 32) :
    (s.step a).Counted (s.note log a) := by
  rw [note] at hbound ⊢
  cases hm : s.mutation a with
  | none =>
      rw [Option.toList_none, List.append_nil]
      refine ⟨fun h' ↦ ?_, h.dense⟩
      rw [lastOf_step, hm]
      exact h.counts h'
  | some m =>
      have hlength := h.length_numbers (hone m (.inl hm))
      rw [hm, Option.toList_some] at hbound
      have hroom := hbound m.place
      rw [numbers_snoc, if_pos rfl, List.length_append, List.length_singleton, hlength] at hroom
      have hnumber : m.number.toNat = (s.lowering.seq.lastOf m.handle).toNat + 1 := by
        rw [number_eq hm]
        exact toNat_saturatingSucc hroom
      rw [Option.toList_some]
      constructor
      · intro h'
        rw [lastOf_step, hm, List.filter_append, List.length_append]
        by_cases heq : m.handle = h'
        · subst heq
          simp [Option.filter, hnumber, h.counts]
        · simp [Option.filter, heq, h.counts]
      · intro place
        rw [numbers_snoc]
        split
        next heq =>
          subst heq
          rw [List.length_append, List.length_singleton, List.range'_concat, List.map_append,
            ← h.dense m.place, hlength, List.map_singleton, Nat.one_mul, Nat.add_comm 1, ← hnumber,
            UInt32.ofNat_toNat]
        next => exact h.dense place

theorem counted_new (registry : Registry) (sourceId : Lowering.SourceId) :
    (DepthSide.mk registry { sourceId }).Counted [] where
  counts := fun h ↦ congrArg UInt32.toNat (lastOf_new sourceId h)
  dense := fun _ ↦ rfl

/-- The mutations of an era that starts with a registry. -/
def mutations (registry : Registry) (sourceId : Lowering.SourceId) (as : List DepthCall) :
    List Mutation :=
  ghost step note ⟨registry, { sourceId }⟩ [] as

/-- The state within the era. -/
def reached (registry : Registry) (sourceId : Lowering.SourceId) (as : List DepthCall) : DepthSide :=
  run step ⟨registry, { sourceId }⟩ as

theorem mutations_snoc (registry : Registry) (sourceId : Lowering.SourceId) (as : List DepthCall)
    (a : DepthCall) : mutations registry sourceId (as ++ [a]) =
      (reached registry sourceId as).note (mutations registry sourceId as) a :=
  ghost_snoc ..

theorem length_numbers_le {pre as : List DepthCall} (hpre : pre <+: as) (registry : Registry)
    (sourceId : Lowering.SourceId) (place : Place) :
    (numbers (mutations registry sourceId pre) place).length ≤
      (numbers (mutations registry sourceId as) place).length := by
  obtain ⟨post, rfl⟩ := hpre
  induction post using List.reverseRecOn with
  | nil => rw [List.append_nil]
  | append_singleton post a ih =>
      rw [← List.append_assoc, mutations_snoc, note, numbers, numbers, List.filter_append,
        List.map_append, List.length_append]
      exact ih.trans (Nat.le_add_right _ _)

/-- **The series of an Instrument ID** is dense on every shard, and a snapshot states the last of it,
in every era whose books are each written to through one handle. -/
theorem series_run (registry : Registry) (sourceId : Lowering.SourceId) {as : List DepthCall}
    (hbound : ∀ place, (numbers (mutations registry sourceId as) place).length < 2 ^ 32)
    (hone : ∀ pre a, pre ++ [a] <+: as →
      (reached registry sourceId pre).OneHandle (mutations registry sourceId pre) a) :
    Dense (mutations registry sourceId as) ∧
      ∀ pre a, pre ++ [a] <+: as →
        (reached registry sourceId pre).Declares (mutations registry sourceId pre) a := by
  have hcounted (pre : List DepthCall) (hpre : pre <+: as) :
      (reached registry sourceId pre).Counted (mutations registry sourceId pre) := by
    refine run_ghost (P := Counted) pre (counted_new registry sourceId) fun pre' a hpre' h ↦ ?_
    refine h.step (hone pre' a (hpre'.trans hpre)) fun place ↦ ?_
    change (numbers ((reached registry sourceId pre').note (mutations registry sourceId pre') a)
      place).length < 2 ^ 32
    rw [← mutations_snoc]
    exact (length_numbers_le (hpre'.trans hpre) registry sourceId place).trans_lt (hbound place)
  refine ⟨(hcounted as (List.prefix_refl as)).dense, fun pre a hpre ↦ ?_⟩
  exact (hcounted pre ((List.prefix_append pre [a]).trans hpre)).declares (hone pre a hpre)

/-! ## A listing, and a relisting -/

/-- A test of `OneHandle`. -/
theorem oneHandle_of (h : ((s.mutation a).toList ++ (s.opening a).toList).all (fun o ↦
    log.all fun m ↦ decide (m.handle = o.handle ↔ m.place = o.place)) = true) :
    s.OneHandle log a := by
  intro o ho m hm
  rw [List.all_eq_true] at h
  have hall := h o (by
    rcases ho with ho | ho
    · simp [ho]
    · simp [ho])
  exact of_decide_eq_true (List.all_eq_true.mp hall m hm)

def soleSource : Lowering.SourceId := .first

/-- A bid through a handle. -/
def bidThrough (h : InstrumentRef) : DepthCall := .level h 0 .bid (.fixed 5 0) (.fixed 3 0) none .new

/-- An instrument is listed, its book is written to, and it is snapshotted. -/
def listed : List DepthCall :=
  [.registry (.sink (Registry.listing 65)), bidThrough ⟨0⟩, .clear ⟨0⟩ 0 .bothSides,
    .snapshot ⟨0⟩ 9 0]

theorem series_run_listed :
    numbers (mutations Registry.soleOpened soleSource listed) ⟨1, some 0⟩ = [1, 2] ∧
    Dense (mutations Registry.soleOpened soleSource listed) := by
  have hmutations : (mutations Registry.soleOpened soleSource listed).length = 2 := by
    decide +kernel
  refine ⟨by decide +kernel, (series_run Registry.soleOpened soleSource (fun place ↦ ?_) ?_).1⟩
  · rw [numbers, List.length_map]
    exact (List.length_filter_le _ _).trans_lt (by rw [hmutations]; decide)
  · rw [listed]
    repeat rw [forall_prefix_cons]
    exact ⟨oneHandle_of (by decide +kernel), oneHandle_of (by decide +kernel),
      oneHandle_of (by decide +kernel), oneHandle_of (by decide +kernel), forall_prefix_nil⟩

/-- An instrument whose book has been written to is delisted, listed again, and written to again. -/
def relisted : List DepthCall :=
  [.registry (.sink (Registry.listing 65)), bidThrough ⟨0⟩, .registry (.sink (.delist ⟨0⟩ 0)),
    .registry (.sink (Registry.listing 65)), bidThrough ⟨1⟩]

/-- The numbers of an Instrument ID restart when the instrument is listed again. -/
theorem relisted_restarts :
    numbers (mutations Registry.soleOpened soleSource relisted) ⟨1, some 0⟩ = [1, 1] ∧
    ¬Dense (mutations Registry.soleOpened soleSource relisted) := by
  have hnumbers : numbers (mutations Registry.soleOpened soleSource relisted) ⟨1, some 0⟩ =
      [1, 1] := by
    decide +kernel
  refine ⟨hnumbers, fun hdense ↦ ?_⟩
  have hseries := hdense ⟨1, some 0⟩
  rw [hnumbers] at hseries
  exact absurd hseries (by decide)

end DepthSide

end EdgeMulticast.Refdata
