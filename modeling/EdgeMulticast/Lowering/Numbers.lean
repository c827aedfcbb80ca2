import EdgeMulticast.Lib.Run
import EdgeMulticast.Lowering.Depth

/-!
# The numbers of a run

Calls of a depth lowering, in any order, over any instruments, as these are admitted, restated and
withdrawn within one era.  `call_numbers` says once what a call does to the numbers; the series of
each instrument and the identifiers of the snapshots follow from it by induction over the calls.
-/

namespace EdgeMulticast.Lowering

open EdgeMulticast.Lib
open EdgeMulticast.Codec

inductive Call where
  | admitInstrument (inst : Instrument)
  | withdraw (h : InstrumentRef)
  | replace (h : InstrumentRef) (inst : Instrument)
  | level (h : InstrumentRef) (sourceTsNs : UInt64) (side : Side) (px qty : Scalar)
      (orderCount : Option UInt16) (presence : Presence)
  | clear (h : InstrumentRef) (sourceTsNs : UInt64) (scope : ClearScope)
  | trade (h : InstrumentRef) (sourceTsNs : UInt64) (px qty : Scalar) (aggressor : Aggressor)
      (tradeId : Option UInt64) (cumulativeVolume : Option Scalar) (flags : TradeFlags)
  | reset (h : InstrumentRef) (sourceTsNs : UInt64) (reason : Desync) (sequenceNumber : UInt64)
  | snapshot (h : InstrumentRef) (anchorSeq timestampNs : UInt64)

inductive Answer where
  | admitted (h : InstrumentRef)
  | withdrawn
  | replaced (held : Bool)
  | level (r : Except LoweringError LevelUpdate)
  | clear (r : Except LoweringError BookClear)
  | trade (r : Except LoweringError Trade)
  | reset (r : Except LoweringError InstrumentReset)
  | snapshot (r : Except LoweringError SnapshotFramer)

/-- A lowering, and the admitted set that it is called with. -/
structure Lowered where
  lowering : DepthLowering
  instruments : InstrumentTable := {}

namespace Lowered

def call (s : Lowered) : Call → Answer × Lowered
  | .admitInstrument inst =>
      let admitted := s.instruments.admitInstrument inst
      (.admitted admitted.1, { s with instruments := admitted.2 })
  | .withdraw h => (.withdrawn, { s with instruments := s.instruments.withdraw h })
  | .replace h inst =>
      let replaced := s.instruments.replace h inst
      (.replaced replaced.1, { s with instruments := replaced.2 })
  | .level h sourceTsNs side px qty orderCount presence =>
      let lowered := s.lowering.lowerLevel s.instruments h sourceTsNs side px qty orderCount presence
      (.level lowered.1, { s with lowering := lowered.2 })
  | .clear h sourceTsNs scope =>
      let lowered := s.lowering.lowerClear s.instruments h sourceTsNs scope
      (.clear lowered.1, { s with lowering := lowered.2 })
  | .trade h sourceTsNs px qty aggressor tradeId cumulativeVolume flags =>
      (.trade (s.lowering.lowerTrade s.instruments h sourceTsNs px qty aggressor tradeId
        cumulativeVolume flags), s)
  | .reset h sourceTsNs reason sequenceNumber =>
      (.reset (DepthLowering.lowerInstrumentReset s.instruments h sourceTsNs reason sequenceNumber), s)
  | .snapshot h anchorSeq timestampNs =>
      let opened := s.lowering.openSnapshot s.instruments h anchorSeq timestampNs
      (.snapshot opened.1, { s with lowering := opened.2 })

def after (s : Lowered) (calls : List Call) : Lowered := run (fun s c ↦ (s.call c).2) s calls

end Lowered

/-- The number that a call stamped for an instrument. -/
def stamped (h : InstrumentRef) : Call → Answer → Option UInt32
  | .level h' .., .level (.ok m) => if h' = h then some m.perInstrumentSeq else none
  | .clear h' .., .clear (.ok m) => if h' = h then some m.perInstrumentSeq else none
  | _, _ => none

/-- The identifier that a call minted. -/
def minted : Answer → Option UInt32
  | .snapshot (.ok framer) => some framer.snapshotId
  | _ => none

/-- The numbers of the updates and clears of an instrument, in the order of the calls. -/
def stamps (h : InstrumentRef) : Lowered → List Call → List UInt32
  | _, [] => []
  | s, c :: calls => (stamped h c (s.call c).1).toList ++ stamps h (s.call c).2 calls

/-- The identifiers of the snapshots, in the order of the calls. -/
def snapshotIds : Lowered → List Call → List UInt32
  | _, [] => []
  | s, c :: calls => (minted (s.call c).1).toList ++ snapshotIds (s.call c).2 calls

/-! ## One call -/

/-- What a call does to the numbers: it takes the next number of one instrument, or the next
identifier of a snapshot, or none. -/
inductive Takes (s s' : DepthLowering) (stamp : InstrumentRef → Option UInt32)
    (id : Option UInt32) : Prop
  | none (same : s' = s) (quiet : ∀ h, stamp h = none) (unminted : id = none)
  | number (h : InstrumentRef) (next : s' = { s with seq := (s.seq.stamp h).2 })
      (loud : ∀ h', stamp h' = if h = h' then some (s.seq.stamp h).1 else none)
      (unminted : id = none)
  | identifier (next : s' = { s with nextSnapshotId := s.nextSnapshotId + 1 })
      (quiet : ∀ h, stamp h = none) (loud : id = some s.nextSnapshotId)

theorem call_numbers (s : Lowered) (c : Call) :
    Takes s.lowering (s.call c).2.lowering (fun h ↦ stamped h c (s.call c).1)
      (minted (s.call c).1) := by
  cases c with
  | admitInstrument inst => exact .none rfl (fun _ ↦ rfl) rfl
  | withdraw h => exact .none rfl (fun _ ↦ rfl) rfl
  | replace h inst => exact .none rfl (fun _ ↦ rfl) rfl
  | trade h ts px qty aggressor id volume flags => exact .none rfl (fun _ ↦ rfl) rfl
  | reset h ts reason n => exact .none rfl (fun _ ↦ rfl) rfl
  | level h ts side px qty count presence =>
      simp only [Lowered.call, DepthLowering.lowerLevel]
      cases s.instruments.get h with
      | error e => exact .none rfl (fun _ ↦ rfl) rfl
      | ok inst =>
          dsimp only
          cases priceFor inst px "price" with
          | error e => exact .none rfl (fun _ ↦ rfl) rfl
          | ok priceRaw =>
              dsimp only
              cases qtyFor inst qty "qty" with
              | error e => exact .none rfl (fun _ ↦ rfl) rfl
              | ok qtyRaw => exact .number h rfl (fun _ ↦ rfl) rfl
  | clear h ts scope =>
      simp only [Lowered.call, DepthLowering.lowerClear]
      cases s.instruments.get h with
      | error e => exact .none rfl (fun _ ↦ rfl) rfl
      | ok inst =>
          dsimp only
          cases DepthLowering.clearFields inst scope with
          | error e => exact .none rfl (fun _ ↦ rfl) rfl
          | ok fields => exact .number h rfl (fun _ ↦ rfl) rfl
  | snapshot h anchor ts =>
      simp only [Lowered.call, DepthLowering.openSnapshot]
      cases s.instruments.get h with
      | error e => exact .none rfl (fun _ ↦ rfl) rfl
      | ok inst => exact .identifier rfl (fun _ ↦ rfl) rfl

variable {s : Lowered} {h : InstrumentRef}

/-- A call moves the series of an instrument exactly when it stamps a number of it. -/
theorem lastOf_call (s : Lowered) (c : Call) (h : InstrumentRef) :
    (s.call c).2.lowering.seq.lastOf h =
      (stamped h c (s.call c).1).getD (s.lowering.seq.lastOf h) := by
  cases call_numbers s c with
  | none same quiet _ => rw [same, quiet, Option.getD_none]
  | number h' next loud _ =>
      rw [next, loud, PerInstrumentSeq.lastOf_stamp]
      by_cases heq : h' = h
      · rw [if_pos heq, if_pos heq.symm, Option.getD_some]
      · rw [if_neg heq, if_neg (Ne.symm heq), Option.getD_none]
  | identifier next quiet _ => rw [next, quiet, Option.getD_none]

/-- A number that is stamped is the next of its instrument. -/
theorem stamped_eq {c : Call} {n : UInt32} (hn : stamped h c (s.call c).1 = some n) :
    n = saturatingSucc (s.lowering.seq.lastOf h) := by
  cases call_numbers s c with
  | none _ quiet _ => cases (quiet h).symm.trans hn
  | identifier _ quiet _ => cases (quiet h).symm.trans hn
  | number h' _ loud _ =>
      have hloud := (loud h).symm.trans hn
      split at hloud
      next heq => rw [← Option.some.inj hloud, PerInstrumentSeq.stamp_fst, heq]
      next => cases hloud

theorem nextSnapshotId_call (s : Lowered) (c : Call) :
    (minted (s.call c).1 = none ∧
      (s.call c).2.lowering.nextSnapshotId = s.lowering.nextSnapshotId) ∨
    (minted (s.call c).1 = some s.lowering.nextSnapshotId ∧
      (s.call c).2.lowering.nextSnapshotId = s.lowering.nextSnapshotId + 1) := by
  cases call_numbers s c with
  | none same _ unminted => exact .inl ⟨unminted, by rw [same]⟩
  | number _ next _ unminted => exact .inl ⟨unminted, by rw [next]⟩
  | identifier next _ loud => exact .inr ⟨loud, by rw [next]⟩

/-! ## A run -/

/-- The numbers of an instrument go on from its last one, and the run ends at the last of them. -/
theorem stamps_eq (calls : List Call) (s : Lowered)
    (h32 : (s.lowering.seq.lastOf h).toNat + (stamps h s calls).length < 2 ^ 32) :
    stamps h s calls = (List.range' ((s.lowering.seq.lastOf h).toNat + 1)
        (stamps h s calls).length).map UInt32.ofNat ∧
      ((s.after calls).lowering.seq.lastOf h).toNat =
        (s.lowering.seq.lastOf h).toNat + (stamps h s calls).length := by
  induction calls generalizing s with
  | nil => exact ⟨rfl, rfl⟩
  | cons c calls ih =>
      have hlast := lastOf_call s c h
      change _ ∧ (((s.call c).2.after calls).lowering.seq.lastOf h).toNat = _
      rw [stamps] at h32 ⊢
      cases hstamped : stamped h c (s.call c).1 with
      | none =>
          rw [hstamped, Option.getD_none] at hlast
          rw [hstamped] at h32
          have hnext := ih (s.call c).2 (by rw [hlast]; exact h32)
          rw [hlast] at hnext
          exact hnext
      | some n =>
          rw [hstamped, Option.getD_some] at hlast
          rw [hstamped, Option.toList_some, List.length_append, List.length_singleton] at h32
          have hn : n.toNat = (s.lowering.seq.lastOf h).toNat + 1 := by
            rw [stamped_eq hstamped]
            exact toNat_saturatingSucc (by omega)
          obtain ⟨hseries, hend⟩ := ih (s.call c).2 (by rw [hlast, hn]; omega)
          rw [hlast, hn] at hseries hend
          rw [Option.toList_some, List.length_append, List.length_singleton, hend]
          refine ⟨?_, by omega⟩
          rw [Nat.add_comm 1, List.range'_succ, List.map_cons, ← hn, UInt32.ofNat_toNat, hn,
            ← hseries]
          rfl

/-- The identifiers of the snapshots count up, and wrap at `2 ^ 32`. -/
theorem snapshotIds_eq (calls : List Call) (s : Lowered) :
    snapshotIds s calls = (List.range' s.lowering.nextSnapshotId.toNat
      (snapshotIds s calls).length).map UInt32.ofNat := by
  suffices hfrom : ∀ n : ℕ, s.lowering.nextSnapshotId = UInt32.ofNat n →
      snapshotIds s calls = (List.range' n (snapshotIds s calls).length).map UInt32.ofNat from
    hfrom _ UInt32.ofNat_toNat.symm
  induction calls generalizing s with
  | nil => exact fun _ _ ↦ rfl
  | cons c calls ih =>
      intro n hn
      rw [snapshotIds]
      rcases nextSnapshotId_call s c with ⟨hminted, hnext⟩ | ⟨hminted, hnext⟩
      · rw [hminted]
        exact ih _ n (hnext.trans hn)
      · have hseries := ih (s.call c).2 (n + 1) (by rw [hnext, hn, UInt32.ofNat_add]; rfl)
        rw [hminted, Option.toList_some, List.length_append, List.length_singleton, Nat.add_comm 1,
          List.range'_succ, List.map_cons, ← hseries, ← hn]
        rfl

theorem lastOf_new (sourceId : SourceId) (h : InstrumentRef) :
    ({ sourceId } : DepthLowering).seq.lastOf h = 0 := rfl

theorem getLast?_series (n : ℕ) :
    ((List.range' 1 n).map UInt32.ofNat).getLast?.getD 0 = UInt32.ofNat n := by
  rw [List.getLast?_map, List.getLast?_range']
  split
  next hn => rw [hn]; rfl
  next => rw [Nat.add_comm 1, Nat.add_sub_cancel]; rfl

theorem pairwise_series {n : ℕ} (hn : n < 2 ^ 32) :
    ((List.range' 1 n).map UInt32.ofNat).Pairwise (· < ·) := by
  rw [List.pairwise_map]
  refine List.Pairwise.imp_of_mem (fun {i j} hi hj hlt ↦ ?_) List.pairwise_lt_range'
  rw [List.mem_range'_1] at hi hj
  have hsmall {k : ℕ} (hk : k < 1 + n) : (UInt32.ofNat k).toNat = k :=
    UInt32.toNat_ofNat_of_lt' (show k < 2 ^ 32 by omega)
  rw [UInt32.lt_iff_toNat_lt, hsmall hi.2, hsmall hj.2]
  exact hlt

/-- **Numbers are dense** in every run of an era.  The updates and clears of an instrument are
numbered 1, 2, 3, …; a snapshot declares the last of these numbers; the snapshots are numbered
1, 2, 3, … modulo `2 ^ 32`; and a call that stamps no number of an instrument leaves its series
alone. -/
theorem numbering (sourceId : SourceId) (calls : List Call) :
    let s : Lowered := { lowering := { sourceId } }
    (∀ h, (stamps h s calls).length < 2 ^ 32 →
      stamps h s calls = (List.range' 1 (stamps h s calls).length).map UInt32.ofNat) ∧
    (∀ pre h anchorSeq timestampNs post framer,
      calls = pre ++ .snapshot h anchorSeq timestampNs :: post →
      ((s.after pre).call (.snapshot h anchorSeq timestampNs)).1 = .snapshot (.ok framer) →
      (stamps h s pre).length < 2 ^ 32 →
      framer.lastInstrumentSeq = (stamps h s pre).getLast?.getD 0) ∧
    (snapshotIds s calls = (List.range' 1 (snapshotIds s calls).length).map UInt32.ofNat ∧
      ((snapshotIds s calls).length < 2 ^ 32 → (snapshotIds s calls).Pairwise (· < ·))) ∧
    (∀ pre c post h, calls = pre ++ c :: post → stamped h c ((s.after pre).call c).1 = none →
      ((s.after pre).call c).2.lowering.seq.lastOf h = (s.after pre).lowering.seq.lastOf h) := by
  intro s
  have hseries (h : InstrumentRef) (calls : List Call) (h32 : (stamps h s calls).length < 2 ^ 32) :
      stamps h s calls = (List.range' 1 (stamps h s calls).length).map UInt32.ofNat ∧
        ((s.after calls).lowering.seq.lastOf h).toNat = (stamps h s calls).length := by
    have hzero : (s.lowering.seq.lastOf h).toNat = 0 := congrArg UInt32.toNat (lastOf_new sourceId h)
    have hrun := stamps_eq (h := h) calls s (by rwa [hzero, Nat.zero_add])
    rwa [hzero, Nat.zero_add, Nat.zero_add] at hrun
  have hids := snapshotIds_eq calls s
  refine ⟨fun h h32 ↦ (hseries h calls h32).1, ?_, ⟨hids, ?_⟩, ?_⟩
  · intro pre h anchorSeq timestampNs post framer _ hopened h32
    obtain ⟨hstamps, hlast⟩ := hseries h pre h32
    have hframer : framer.lastInstrumentSeq = (s.after pre).lowering.seq.lastOf h := by
      simp only [Lowered.call, DepthLowering.openSnapshot] at hopened
      split at hopened
      next => cases hopened
      next => rw [← Except.ok.inj (Answer.snapshot.inj hopened)]
    rw [hstamps, getLast?_series, hframer, ← hlast, UInt32.ofNat_toNat]
  · intro h32
    rw [hids]
    exact pairwise_series h32
  · intro pre c post h _ hquiet
    rw [lastOf_call, hquiet, Option.getD_none]

/-- One instrument, one update, a trade that is refused, and a snapshot. -/
def exampleCalls : List Call := [
  .admitInstrument ⟨7, -2, 0, none⟩,
  .level ⟨0⟩ 0 .bid (.fixed 5 0) (.fixed 3 0) none .new,
  .trade ⟨0⟩ 0 (.text []) (.fixed 3 0) .buy none none ⟨false, false, false⟩,
  .clear ⟨0⟩ 0 .bothSides,
  .snapshot ⟨0⟩ 9 0]

theorem numbering_example :
    let s : Lowered := { lowering := { sourceId := ⟨1, .inl (by decide)⟩ } }
    stamps ⟨0⟩ s exampleCalls = [1, 2] ∧
      (snapshotIds s exampleCalls).Pairwise (· < ·) := by
  intro s
  have hall := numbering ⟨1, .inl (by decide)⟩ exampleCalls
  have htwo : (stamps ⟨0⟩ s exampleCalls).length = 2 := by decide +kernel
  have hone : (snapshotIds s exampleCalls).length = 1 := by decide +kernel
  refine ⟨(hall.1 ⟨0⟩ ?_).trans ?_, hall.2.2.1.2 ?_⟩
  · rw [htwo]
    decide
  · rw [htwo]
    rfl
  · rw [hone]
    decide

/-! ## Snapshots beyond the range of their identifiers -/

theorem length_snapshotIds_replicate {inst : Instrument} (n : ℕ) (anchorSeq timestampNs : UInt64)
    (s : Lowered) (hget : s.instruments.get h = .ok inst) :
    (snapshotIds s (List.replicate n (.snapshot h anchorSeq timestampNs))).length = n := by
  induction n generalizing s with
  | zero => rfl
  | succ n ih =>
      have hcall : s.call (.snapshot h anchorSeq timestampNs) =
          (.snapshot (.ok {
            instrument := inst, anchorSeq, snapshotId := s.lowering.nextSnapshotId
            lastInstrumentSeq := s.lowering.seq.lastOf h, timestampNs }),
            { s with lowering :=
              { s.lowering with nextSnapshotId := s.lowering.nextSnapshotId + 1 } }) := by
        simp only [Lowered.call, DepthLowering.openSnapshot, hget]
      rw [List.replicate_succ, snapshotIds, hcall, minted, Option.toList_some, List.length_append,
        ih, List.length_singleton, Nat.add_comm]
      exact hget

/-- The series past `2 ^ 32`: its last identifier is below its first. -/
theorem not_pairwise_series {n : ℕ} (hn : n = 2 ^ 32) :
    ¬((List.range' 1 n).map UInt32.ofNat).Pairwise (· < ·) := by
  intro h
  have hlen : ((List.range' 1 n).map UInt32.ofNat).length = n := by
    rw [List.length_map, List.length_range']
  have hlt := List.pairwise_iff_getElem.mp h 0 (n - 1) (by omega) (by omega) (by omega)
  rw [List.getElem_map, List.getElem_map, List.getElem_range', List.getElem_range',
    UInt32.lt_iff_toNat_lt, UInt32.toNat_ofNat', UInt32.toNat_ofNat'] at hlt
  omega

/-- An instrument is admitted, and its snapshot is opened `n` times. -/
def openings (inst : Instrument) (n : ℕ) : List Call :=
  .admitInstrument inst :: List.replicate n (.snapshot ⟨0⟩ 0 0)

theorem length_openings (lowering : DepthLowering) (inst : Instrument) (n : ℕ) :
    (snapshotIds { lowering } (openings inst n)).length = n := by
  rw [openings, snapshotIds]
  exact length_snapshotIds_replicate n 0 0 _ rfl

theorem not_pairwise_openings (sourceId : SourceId) (inst : Instrument) {n : ℕ}
    (hn : n = 2 ^ 32) :
    ¬(snapshotIds { lowering := { sourceId } } (openings inst n)).Pairwise (· < ·) := by
  rw [snapshotIds_eq, length_openings]
  exact not_pairwise_series hn

theorem snapshot_ids_wrap :
    ∃ calls : List Call,
      ¬(snapshotIds { lowering := { sourceId := ⟨1, .inl (by decide)⟩ } } calls).Pairwise
        (· < ·) :=
  ⟨openings ⟨7, 0, 0, none⟩ (2 ^ 32), not_pairwise_openings _ _ rfl⟩

end EdgeMulticast.Lowering
