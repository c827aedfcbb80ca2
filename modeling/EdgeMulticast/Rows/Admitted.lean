import EdgeMulticast.Loss.Placed
import EdgeMulticast.Rows.Derive
import Mathlib.Algebra.BigOperators.Group.Finset.Basic

/-!
# Which gap a drop of the recorder excuses

A datagram states what the recorder lost before it, and the run of missing values that ends right
before its own is excused by that much.  The derivation looks the datagram up by instance and sequence
number, and an instance that was reset has had some of its numbers twice: `excused_once_iff` says for
which objects every drop excuses one run at most, of the era it was lost in.
-/

namespace EdgeMulticast.Rows

open EdgeMulticast.Lib
open EdgeMulticast.Loss
open EdgeMulticast.Loss.InstanceState (AfterSpace)
open EdgeMulticast.Recorder (ChannelInstance PortRole)
open Std (ExtTreeMap)

/-! ## Who holds an admission -/

/-- The number of an instance that the drops of a datagram were lost before. -/
def admission : Captured → Option (Scoped ChannelInstance)
  | .short _ _ => none
  | .read _ key dg => if dg.dropDelta ≠ 0 then some ⟨key, dg.sequenceNumber⟩ else none

/-- The datagram whose drops stand for what was lost before a number: the first there to carry any. -/
def holder (dgs : List Captured) (k : Scoped ChannelInstance) : Option ℕ :=
  dgs.findIdx? fun c ↦ admission c = some k

/-- The drops of a datagram. -/
def dropsAt (dgs : List Captured) (j : ℕ) : ℕ := dgs[j]?.elim 0 Captured.dropDelta

/-- The drops of the datagrams of an instance. -/
def dropsOf (dgs : List Captured) (key : ChannelInstance) : ℕ :=
  ((dgs.filterMap (Captured.of key)).map RecordedDatagram.dropDelta).sum

section

variable {dgs : List Captured} {k : Scoped ChannelInstance} {j : ℕ}

theorem of_admission {c : Captured} (h : admission c = some k) :
    ∃ role dg, c = .read role k.scope dg ∧ dg.sequenceNumber = k.id := by
  cases c with
  | short => cases h
  | read role key dg =>
      rw [admission, Option.ite_none_right_eq_some, Option.some.injEq] at h
      exact ⟨role, dg, by rw [← h.2], by rw [← h.2]⟩

theorem of_holder (h : holder dgs k = some j) :
    ∃ role dg, dgs[j]? = some (.read role k.scope dg) ∧ dg.sequenceNumber = k.id := by
  obtain ⟨hlt, hj, -⟩ := List.findIdx?_eq_some_iff_getElem.mp h
  obtain ⟨role, dg, hc, hn⟩ := of_admission (of_decide_eq_true hj)
  exact ⟨role, dg, by rw [List.getElem?_eq_getElem hlt, hc], hn⟩

theorem holder_snoc (c : Captured) : holder (dgs ++ [c]) k =
    (holder dgs k).or (if admission c = some k then some dgs.length else none) := by
  rw [holder, List.findIdx?_append, holder, List.findIdx?_singleton]
  by_cases h : admission c = some k
  · rw [if_pos h, if_pos (decide_eq_true h), Option.map_some, Nat.zero_add]
  · rw [if_neg h, if_neg (by simpa using h), Option.map_none]

theorem dropsAt_snoc (c : Captured) (h : j < dgs.length) :
    dropsAt (dgs ++ [c]) j = dropsAt dgs j := by
  rw [dropsAt, dropsAt, List.getElem?_append_left h]

/-- A datagram admits its drops, unless the number has a holder. -/
theorem admittedBefore_observe (f : Fold) (c : Captured) : (f.observe c).admittedBefore[k]? =
    f.admittedBefore[k]?.or (if admission c = some k then some c.dropDelta else none) := by
  cases c with
  | short role dropDelta => exact Option.or_none.symm
  | read role key dg =>
      change (if dg.dropDelta ≠ 0 then f.admittedBefore.insertIfNew ⟨key, dg.sequenceNumber⟩
        dg.dropDelta else f.admittedBefore)[k]? = _
      by_cases hzero : dg.dropDelta ≠ 0
      · have hself : admission (.read role key dg) = some ⟨key, dg.sequenceNumber⟩ := if_pos hzero
        rw [if_pos hzero, getElem?_insertIfNew_eq, hself]
        by_cases hk : (⟨key, dg.sequenceNumber⟩ : Scoped ChannelInstance) = k
        · rw [if_pos hk, if_pos (congrArg some hk)]
          rfl
        · rw [if_neg hk, if_neg fun h ↦ hk (Option.some.inj h)]
      · have hself : admission (.read role key dg) = none := if_neg hzero
        rw [if_neg hzero, hself, if_neg (by simp), Option.or_none]

/-- The map that the fold leaves holds, of every number, what its holder carried. -/
theorem admittedBefore_folded (scope : CaptureDropScope) (dgs : List Captured)
    (k : Scoped ChannelInstance) :
    (folded scope dgs).admittedBefore[k]? = (holder dgs k).map (dropsAt dgs) := by
  induction dgs using List.reverseRecOn with
  | nil => exact ExtTreeMap.getElem?_empty
  | append_singleton dgs c ih =>
      have hsame : (holder dgs k).map (dropsAt (dgs ++ [c])) = (holder dgs k).map (dropsAt dgs) := by
        cases hj : holder dgs k with
        | none => rfl
        | some j =>
            obtain ⟨role, dg, hat, -⟩ := of_holder hj
            exact congrArg some (dropsAt_snoc c (List.getElem?_eq_some_iff.mp hat).1)
      have hlast : dropsAt (dgs ++ [c]) dgs.length = c.dropDelta := by
        rw [dropsAt, List.getElem?_concat_length, Option.elim_some]
      rw [folded, run_snoc, holder_snoc, Option.map_or, hsame, ← ih, admittedBefore_observe,
        apply_ite (Option.map (dropsAt (dgs ++ [c]))), Option.map_some, hlast, Option.map_none]
      rfl

theorem loss_folded (scope : CaptureDropScope) (dgs : List Captured) :
    (folded scope dgs).loss = run LossDeriver.observe { scope } dgs := by
  induction dgs using List.reverseRecOn with
  | nil => rfl
  | append_singleton dgs c ih =>
      rw [folded, run_snoc, run_snoc, ← ih]
      cases c <;> rfl

end

/-! ## The rows of an object -/

/-- Whether the scope that the drops of an object are declared at allows to subtract them from what
an instance is missing. -/
def subtractable (scope : CaptureDropScope) (dgs : List Captured) (key : ChannelInstance) : Bool :=
  match (folded scope dgs).loss.finish.unexplained key with
  | some (.count _) => true
  | some .unverifiable | none => false

section

variable {dgs : List Captured} {input : DeriveInput}

/-- The row of a run of an instance in a given state. -/
def rowIn (dgs : List Captured) (input : DeriveInput) (key : ChannelInstance) (s : InstanceState)
    (r : SequenceRun) : SequenceGap :=
  let f := folded input.dropScope dgs
  f.rowOfRun input f.loss.finish key (s.finish key) r

/-- The rows are those of the runs, instance by instance. -/
theorem sequenceGap_derive (dgs : List Captured) (input : DeriveInput) :
    (derive dgs input).sequenceGap = (folded input.dropScope dgs).loss.instances.toList.flatMap
      fun p ↦ (p.2.runs p.1).map (rowIn dgs input p.1 p.2) := by
  rw [derive]
  dsimp only [LossDeriver.finish]
  rw [ExtTreeMap.toList_map, List.flatMap_map]
  rfl

theorem mem_sequenceGap {row : SequenceGap} : row ∈ (derive dgs input).sequenceGap ↔
    ∃ key s, (folded input.dropScope dgs).loss.instances[key]? = some s ∧
      ∃ r ∈ s.runs key, rowIn dgs input key s r = row := by
  rw [sequenceGap_derive, List.mem_flatMap]
  constructor
  · rintro ⟨⟨key, s⟩, hs, hrow⟩
    exact ⟨key, s, ExtTreeMap.mem_toList_iff_getElem?_eq_some.mp hs, List.mem_map.mp hrow⟩
  · rintro ⟨key, s, hs, hrow⟩
    exact ⟨(key, s), ExtTreeMap.mem_toList_iff_getElem?_eq_some.mpr hs, List.mem_map.mpr hrow⟩

theorem unexplainedCount_rowIn (key : ChannelInstance) (s : InstanceState) (r : SequenceRun) :
    (rowIn dgs input key s r).unexplainedCount =
      if subtractable input.dropScope dgs key then
        some (r.missingCount - admittedForRun (folded input.dropScope dgs).admittedBefore key r)
      else none := by
  have hmin (a b : ℕ) : a - min b a = a - b := by omega
  exact if_congr Iff.rfl (congrArg some (hmin _ _)) rfl

end

/-! ## Every drop once -/

/-- The drops of a datagram are those in the admitted loss of a row. -/
def Excuses (dgs : List Captured) (j : ℕ) (row : SequenceGap) : Prop :=
  holder dgs ⟨row.instance, row.missingTo + 1⟩ = some j

instance (dgs : List Captured) (j : ℕ) (row : SequenceGap) : Decidable (Excuses dgs j row) :=
  inferInstanceAs (Decidable (_ = _))

/-- Every drop of the recorder excuses one gap at most, the one it precedes. -/
structure ExcusedOnce (dgs : List Captured) (scope : CaptureDropScope) (rows : List SequenceGap) :
    Prop where
  /-- What is admitted of a gap is what a datagram carried, or nothing. -/
  admitted : ∀ row ∈ rows, row.admittedRecorder =
    (holder dgs ⟨row.instance, row.missingTo + 1⟩).elim 0 (dropsAt dgs)
  once : ∀ j, (rows.filter fun row ↦ Excuses dgs j row).length ≤ 1
  /-- The gap is of the datagram's instance and era, and ends right before it. -/
  own : ∀ row ∈ rows, ∀ j, Excuses dgs j row → ∃ role dg k,
    dgs[j]? = some (.read role row.instance dg) ∧ eraOf dgs j = some k ∧ row.eraIndex = k + 1 ∧
      row.missingTo + 1 = dg.sequenceNumber
  sum_le : ∀ key, ((rows.filter fun row ↦ row.instance = key).map
    SequenceGap.admittedRecorder).sum ≤ dropsOf dgs key
  unexplained : ∀ row ∈ rows, row.unexplainedCount =
    if subtractable scope dgs row.instance then some (row.missingCount - row.admittedRecorder)
    else none

/-- No number that drops were admitted before ends a space of an era other than that of the datagram
that admits them. -/
def Apart (dgs : List Captured) : Prop :=
  ∀ key n j k, holder dgs ⟨key, n⟩ = some j → AfterSpace (Brought dgs key) k n →
    eraOf dgs j = some k

/-! ## The sum of what is admitted -/

section

variable {dgs : List Captured}

/-- The drops of an instance, datagram by datagram. -/
theorem dropsOf_eq (key : ChannelInstance) : dropsOf dgs key =
    ∑ j ∈ Finset.range dgs.length, (dgs[j]?.bind (Captured.of key)).elim 0 RecordedDatagram.dropDelta := by
  induction dgs using List.reverseRecOn with
  | nil => rfl
  | append_singleton dgs c ih =>
      have hsame : ∀ j ∈ Finset.range dgs.length, (dgs ++ [c])[j]? = dgs[j]? := fun j hj ↦
        List.getElem?_append_left (Finset.mem_range.mp hj)
      rw [List.length_append, List.length_singleton, Finset.sum_range_succ,
        List.getElem?_concat_length, Option.bind_some,
        Finset.sum_congr rfl fun j hj ↦ by rw [hsame j hj], ← ih, dropsOf, dropsOf,
        List.filterMap_append, List.map_append, List.sum_append]
      cases h : c.of key with
      | none => rw [List.filterMap_cons_none h]; rfl
      | some dg => rw [List.filterMap_cons_some h]; rfl

theorem sum_elim_eq {α : Type*} (f : α → Option ℕ) (g : ℕ → ℕ) (l : List α) :
    (l.map fun a ↦ (f a).elim 0 g).sum = ((l.filterMap f).map g).sum := by
  induction l with
  | nil => rfl
  | cons a l ih =>
      rw [List.map_cons, List.sum_cons, ih]
      cases h : f a with
      | none => rw [List.filterMap_cons_none h, Option.elim_none, Nat.zero_add]
      | some j => rw [List.filterMap_cons_some h, List.map_cons, List.sum_cons, Option.elim_some]

/-- Where every datagram excuses one row at most, the rows of an instance are excused by no more than
its drops. -/
theorem sum_admitted_le {rows : List SequenceGap} (key : ChannelInstance)
    (hadmitted : ∀ row ∈ rows, row.admittedRecorder =
      (holder dgs ⟨row.instance, row.missingTo + 1⟩).elim 0 (dropsAt dgs))
    (honce : ∀ j, (rows.filter fun row ↦ Excuses dgs j row).length ≤ 1) :
    ((rows.filter fun row ↦ row.instance = key).map SequenceGap.admittedRecorder).sum ≤
      dropsOf dgs key := by
  let by' : SequenceGap → Option ℕ := fun row ↦ holder dgs ⟨row.instance, row.missingTo + 1⟩
  let mine := rows.filter fun row ↦ row.instance = key
  have hnodup : (mine.filterMap by').Nodup := by
    rw [List.nodup_iff_count_le_one]
    intro j
    rw [List.count_filterMap, List.countP_eq_length_filter]
    refine Nat.le_trans ?_ (honce j)
    refine ((List.filter_sublist (l := rows)).filter _).length_le.trans (Nat.le_of_eq ?_)
    exact congrArg List.length (List.filter_congr fun row _ ↦ beq_eq_decide ..)
  have hof {j : ℕ} (hj : j ∈ mine.filterMap by') : j ∈ Finset.range dgs.length ∧
      dropsAt dgs j = (dgs[j]?.bind (Captured.of key)).elim 0 RecordedDatagram.dropDelta := by
    obtain ⟨row, hrow, hj⟩ := List.mem_filterMap.mp hj
    obtain ⟨role, dg, hat, -⟩ := of_holder hj
    have hkey : row.instance = key := of_decide_eq_true (List.mem_filter.mp hrow).2
    refine ⟨Finset.mem_range.mpr (List.getElem?_eq_some_iff.mp hat).1, ?_⟩
    rw [dropsAt, hat, Option.bind_some, Captured.of, if_pos hkey]
    rfl
  calc (mine.map SequenceGap.admittedRecorder).sum
      = (mine.map fun row ↦ (by' row).elim 0 (dropsAt dgs)).sum := by
        refine congrArg List.sum (List.map_congr_left fun row hrow ↦ ?_)
        exact hadmitted row (List.mem_of_mem_filter hrow)
    _ = ∑ j ∈ (mine.filterMap by').toFinset, dropsAt dgs j := by
        rw [sum_elim_eq, List.sum_toFinset _ hnodup]
    _ = ∑ j ∈ (mine.filterMap by').toFinset,
          (dgs[j]?.bind (Captured.of key)).elim 0 RecordedDatagram.dropDelta :=
        Finset.sum_congr rfl fun j hj ↦ (hof (List.mem_toFinset.mp hj)).2
    _ ≤ dropsOf dgs key := by
        rw [dropsOf_eq]
        refine Finset.sum_le_sum_of_subset fun j hj ↦ ?_
        exact (hof (List.mem_toFinset.mp hj)).1

end

/-! ## Runs and rows -/

section

variable {dgs : List Captured} {input : DeriveInput}
  (hwithin : (folded input.dropScope dgs).loss.Within)

include hwithin

theorem keeps_folded : (folded input.dropScope dgs).loss.Keeps dgs := by
  rw [loss_folded] at hwithin ⊢
  exact LossDeriver.keeps _ dgs hwithin

theorem eras_folded {key : ChannelInstance} {s : InstanceState}
    (hs : (folded input.dropScope dgs).loss.instances[key]? = some s) :
    s.Eras (marksOf key dgs) (Brought dgs key) := by
  have h := (keeps_folded hwithin).eras key 0 .mktdata
  rwa [hs] at h

theorem length_folded {key : ChannelInstance} {s : InstanceState}
    (hs : (folded input.dropScope dgs).loss.instances[key]? = some s) : s.eras.length < 2 ^ 32 - 1 := by
  have hlimits : (folded input.dropScope dgs).loss.limits = {} := by
    rw [loss_folded]
    exact run_induction (P := fun d : LossDeriver ↦ d.limits = {}) dgs rfl fun d c _ hd ↦
      (d.limits_observe c).trans hd
  have hle := (keeps_folded hwithin).bounded key s hs
  rw [hlimits] at hle
  exact Nat.lt_of_le_of_lt hle (by decide)

/-- What a row says of its run. -/
theorem rowIn_eq {key : ChannelInstance} {s : InstanceState} {r : SequenceRun}
    (hs : (folded input.dropScope dgs).loss.instances[key]? = some s) (hr : r ∈ s.runs key) :
    (rowIn dgs input key s r).instance = key ∧ (rowIn dgs input key s r).eraIndex = r.eraOrdinal := by
  obtain ⟨hinstance, k, hk, hordinal, -⟩ := (eras_folded hwithin hs).of_mem_runs hr
  have hlt := length_folded hwithin hs
  refine ⟨hinstance, ?_⟩
  change min r.eraOrdinal (2 ^ 32 - 1) = r.eraOrdinal
  omega

/-- A row is of an era of its instance, and the datagram right after it comes after a space there. -/
theorem of_mem_sequenceGap {row : SequenceGap} (h : row ∈ (derive dgs input).sequenceGap) :
    (∃ k, row.eraIndex = k + 1 ∧ AfterSpace (Brought dgs row.instance) k (row.missingTo + 1)) ∧
    row.admittedRecorder =
      (holder dgs ⟨row.instance, row.missingTo + 1⟩).elim 0 (dropsAt dgs) ∧
    row.unexplainedCount = if subtractable input.dropScope dgs row.instance then
      some (row.missingCount - row.admittedRecorder) else none := by
  obtain ⟨key, s, hs, r, hr, rfl⟩ := mem_sequenceGap.mp h
  obtain ⟨-, k, -, hordinal, hafter⟩ := (eras_folded hwithin hs).of_mem_runs hr
  obtain ⟨hinstance, heraIndex⟩ := rowIn_eq hwithin hs hr
  have hadmitted : admittedForRun (folded input.dropScope dgs).admittedBefore key r =
      (holder dgs ⟨key, r.missingTo + 1⟩).elim 0 (dropsAt dgs) := by
    obtain ⟨⟨-, -, dg, -, -, hn⟩, -⟩ := hafter
    rw [admittedForRun, saturatingAdd, Nat.min_eq_left (hn ▸ dg.word), admittedBefore_folded]
    cases holder dgs ⟨key, r.missingTo + 1⟩ <;> rfl
  rw [unexplainedCount_rowIn, hinstance, heraIndex]
  exact ⟨⟨k, hordinal, hafter⟩, hadmitted, rfl⟩

/-- Every value that comes after a space has a row right before it. -/
theorem exists_sequenceGap {key : ChannelInstance} {k n : ℕ}
    (h : AfterSpace (Brought dgs key) k n) : ∃ row ∈ (derive dgs input).sequenceGap,
      row.instance = key ∧ row.eraIndex = k + 1 ∧ row.missingTo + 1 = n := by
  obtain ⟨s, hs⟩ : ∃ s, (folded input.dropScope dgs).loss.instances[key]? = some s := by
    cases hs : (folded input.dropScope dgs).loss.instances[key]? with
    | some s => exact ⟨s, rfl⟩
    | none =>
        have heras := (keeps_folded hwithin).eras key 0 .mktdata
        rw [hs] at heras
        exact absurd (heras.beyond k n h.1) (Nat.not_lt_zero k)
  obtain ⟨r, hr, hordinal, hn⟩ := ((eras_folded hwithin hs).exists_run_iff key k n).mpr h
  obtain ⟨hinstance, heraIndex⟩ := rowIn_eq hwithin hs hr
  exact ⟨_, mem_sequenceGap.mpr ⟨key, s, hs, r, hr, rfl⟩, hinstance, heraIndex.trans hordinal, hn⟩

/-- No two rows of an era end at one value. -/
theorem nodup_sequenceGap : ((derive dgs input).sequenceGap.map fun row ↦
    (row.instance, row.eraIndex, row.missingTo)).Nodup := by
  have hends {key : ChannelInstance} {s : InstanceState}
      (hs : (folded input.dropScope dgs).loss.instances[key]? = some s) :
      ((s.runs key).map (rowIn dgs input key s)).map (fun row ↦
        (row.instance, row.eraIndex, row.missingTo)) =
      ((s.runs key).map fun r ↦ (r.eraOrdinal, r.missingTo)).map fun p ↦ (key, p) := by
    rw [List.map_map, List.map_map]
    refine List.map_congr_left fun r hr ↦ ?_
    obtain ⟨hinstance, heraIndex⟩ := rowIn_eq hwithin hs hr
    change ((rowIn dgs input key s r).instance, (rowIn dgs input key s r).eraIndex, r.missingTo) = _
    rw [hinstance, heraIndex]
    rfl
  rw [sequenceGap_derive, List.map_flatMap, List.nodup_flatMap]
  constructor
  · rintro ⟨key, s⟩ hmem
    have hs := ExtTreeMap.mem_toList_iff_getElem?_eq_some.mp hmem
    rw [hends hs]
    exact ((eras_folded hwithin hs).nodup_runs key).map fun p q h ↦ congrArg Prod.snd h
  · refine ExtTreeMap.distinct_keys_toList.imp_of_mem ?_
    rintro ⟨key, s⟩ ⟨key', s'⟩ hmem hmem' hne x hx hx'
    have hs := ExtTreeMap.mem_toList_iff_getElem?_eq_some.mp hmem
    have hs' := ExtTreeMap.mem_toList_iff_getElem?_eq_some.mp hmem'
    dsimp only at hx hx'
    rw [hends hs] at hx
    rw [hends hs'] at hx'
    obtain ⟨p, -, rfl⟩ := List.mem_map.mp hx
    obtain ⟨p', -, heq⟩ := List.mem_map.mp hx'
    exact hne (Std.LawfulEqCmp.compare_eq_iff_eq.mpr (congrArg Prod.fst heq).symm)

/-- **Every drop excuses one gap at most, of its own era, exactly of the objects in which no number
that drops were admitted before ends a space of another era.** -/
theorem excused_once_iff :
    ExcusedOnce dgs input.dropScope (derive dgs input).sequenceGap ↔ Apart dgs := by
  constructor
  · intro h key n j k hj hafter
    obtain ⟨row, hrow, hinstance, heraIndex, hn⟩ := exists_sequenceGap hwithin hafter
    have hexcuses : Excuses dgs j row := by rw [Excuses, hinstance, hn, hj]
    obtain ⟨-, -, k', -, hera, hindex, -⟩ := h.own row hrow j hexcuses
    obtain rfl : k = k' := by omega
    exact hera
  · intro h
    have hown : ∀ row ∈ (derive dgs input).sequenceGap, ∀ j, Excuses dgs j row → ∃ role dg k,
        dgs[j]? = some (.read role row.instance dg) ∧ eraOf dgs j = some k ∧
          row.eraIndex = k + 1 ∧ row.missingTo + 1 = dg.sequenceNumber := by
      intro row hrow j hj
      obtain ⟨⟨k, hk, hafter⟩, -⟩ := of_mem_sequenceGap hwithin hrow
      obtain ⟨role, dg, hat, hn⟩ := of_holder hj
      exact ⟨role, dg, k, hat, h _ _ j k hj hafter, hk, hn.symm⟩
    have honce : ∀ j, ((derive dgs input).sequenceGap.filter fun row ↦
        Excuses dgs j row).length ≤ 1 := by
      intro j
      -- the rows a datagram excuses are of its instance and era, and end at one value
      obtain ⟨ident, hident⟩ : ∃ ident, ∀ row ∈ (derive dgs input).sequenceGap, Excuses dgs j row →
          (row.instance, row.eraIndex, row.missingTo) = ident := by
        by_cases hsome : ∃ row ∈ (derive dgs input).sequenceGap, Excuses dgs j row
        · obtain ⟨row, hrow, hj⟩ := hsome
          obtain ⟨role, dg, k, hat, hera, hk, hn⟩ := hown row hrow j hj
          refine ⟨(row.instance, row.eraIndex, row.missingTo), fun row' hrow' hj' ↦ ?_⟩
          obtain ⟨role', dg', k', hat', hera', hk', hn'⟩ := hown row' hrow' j hj'
          obtain ⟨-, hinstance, rfl⟩ := Captured.read.inj (Option.some.inj (hat.symm.trans hat'))
          obtain rfl := Option.some.inj (hera.symm.trans hera')
          exact (Prod.ext hinstance (Prod.ext (hk.trans hk'.symm)
            (Nat.add_right_cancel (hn.trans hn'.symm)))).symm
        · exact ⟨(⟨0, 0, 0⟩, 0, 0), fun row hrow hj ↦ absurd ⟨row, hrow, hj⟩ hsome⟩
      have hnodup := (nodup_sequenceGap hwithin).sublist
        ((List.filter_sublist (p := fun row ↦ Excuses dgs j row)).map _)
      have hall := List.eq_replicate_of_mem (a := ident) fun x hx ↦ by
        obtain ⟨row, hrow, rfl⟩ := List.mem_map.mp hx
        obtain ⟨hrow, hj⟩ := List.mem_filter.mp hrow
        exact hident row hrow (of_decide_eq_true hj)
      rw [hall, List.nodup_replicate, List.length_map] at hnodup
      exact hnodup
    have hadmitted : ∀ row ∈ (derive dgs input).sequenceGap, row.admittedRecorder =
        (holder dgs ⟨row.instance, row.missingTo + 1⟩).elim 0 (dropsAt dgs) :=
      fun row hrow ↦ (of_mem_sequenceGap hwithin hrow).2.1
    exact ⟨hadmitted, honce, hown, fun key ↦ sum_admitted_le key hadmitted honce,
      fun row hrow ↦ (of_mem_sequenceGap hwithin hrow).2.2⟩

end

/-- An object without a reset keeps its drops apart. -/
theorem apart_of_one_era {dgs : List Captured}
    (h : ∀ j < dgs.length, ∀ k ∈ eraOf dgs j, k = 0) : Apart dgs := by
  intro key n j k hj hafter
  obtain ⟨role, dg, hat, -⟩ := of_holder hj
  obtain ⟨⟨j', role', dg', hat', hera', -⟩, -⟩ := hafter
  obtain rfl := h j' (List.getElem?_eq_some_iff.mp hat').1 k hera'
  obtain ⟨k', hk'⟩ : ∃ k', eraOf dgs j = some k' := by
    rw [eraOf, hat]
    exact ⟨_, rfl⟩
  rw [hk', h j (List.getElem?_eq_some_iff.mp hat).1 k' hk']

/-! ## An instance that was reset -/

/-- A datagram of the one instance of the objects below. -/
def heard (sequenceNumber resetCount dropDelta : ℕ)
    (word : sequenceNumber ≤ U64_MAX := by decide) : Captured :=
  .read .mktdata ⟨1, 0, 5000⟩ { sequenceNumber, resetCount, dropDelta, word }

def heardInput : DeriveInput where
  manifest := ⟨"", "", "", "", "", "", 0, 0⟩
  dropScope := .portRole
  preceding := none
  derivation := .archive

theorem excused_once_heard : ExcusedOnce [heard 1 0 0, heard 5 0 3] .portRole
    (derive [heard 1 0 0, heard 5 0 3] heardInput).sequenceGap := by
  show ExcusedOnce _ heardInput.dropScope _
  exact (excused_once_iff (by decide +kernel)).mpr (apart_of_one_era (by decide +kernel))

/-- The drops before a number of one era excuse the run before that number of the next as well. -/
theorem excused_twice :
    (folded .portRole [heard 1 0 0, heard 5 0 3, heard 1 1 0, heard 5 1 0]).loss.Within ∧
      ¬ExcusedOnce [heard 1 0 0, heard 5 0 3, heard 1 1 0, heard 5 1 0] .portRole
        (derive [heard 1 0 0, heard 5 0 3, heard 1 1 0, heard 5 1 0] heardInput).sequenceGap :=
  ⟨by decide +kernel, fun h ↦ absurd (h.once 1) (by decide +kernel)⟩

end EdgeMulticast.Rows
