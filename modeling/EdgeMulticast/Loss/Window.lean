import EdgeMulticast.Loss.Instance

/-!
# The figures of a window

An era is the value that opened it and the deliveries after that (`EraHistory`).  Whatever their
order, the ranges it ends with are those of the values recorded (`EraHistory.holds`), the runs
that `finish` builds of them are the maximal intervals of values missing among these
(`mem_runs_iff`), and its figures count them (`Era.Exact`).

The totals of an instance are sums over its eras that stop at the width of a word.  `offline_exact`
has them exact for fewer than 2^32 eras; at 2^32 the sum of the reference counts can stop short
(`reference_cut_off`).
-/

namespace EdgeMulticast.Loss

open EdgeMulticast.Lib
open EdgeMulticast.Lib.Ranges (covered Separated width gaps IsGap)
open EdgeMulticast.Recorder (ChannelInstance PortRole)

/-! ## Sums that stop -/

theorem foldl_saturatingAdd {α : Type*} (f : α → ℕ) (l : List α) {n : ℕ} (hn : n ≤ U64_MAX) :
    l.foldl (fun total a ↦ saturatingAdd total (f a)) n = min (n + (l.map f).sum) U64_MAX := by
  induction l generalizing n with
  | nil => simpa using hn
  | cons a l ih =>
      have hle : saturatingAdd n (f a) ≤ U64_MAX := min_le_right _ _
      rw [List.foldl_cons, ih hle, List.map_cons, List.sum_cons, saturatingAdd]
      omega

/-! ## The history of an era -/

/-- The value that opened an era, and the deliveries after that, with their stamps. -/
structure EraHistory where
  ordinal : ℕ
  resetCount : ℕ
  anchorSeq : ℕ
  anchorTsNs : ℕ
  calls : List (ℕ × ℕ)

namespace EraHistory

variable (limits : DeriverLimits)

/-- A delivery, as a step of the era. -/
def step (e : Era) (call : ℕ × ℕ) : Era := (e.deliver call.1 call.2 limits).1

/-- The set of values recorded, as it follows the era. -/
def note (e : Era) (S : Finset ℕ) (call : ℕ × ℕ) : Finset ℕ :=
  Era.record S call.1 (e.deliver call.1 call.2 limits).2

variable (H : EraHistory)

def first : Era := .opened H.ordinal H.resetCount H.anchorSeq H.anchorTsNs

/-- The era the history leads to. -/
def era : Era := run (step limits) H.first H.calls

/-- The opening value, and every value answered `recorded`. -/
def recorded : Finset ℕ := ghost (step limits) (note limits) H.first {H.anchorSeq} H.calls

/-- The values are words. -/
structure Words : Prop where
  anchor : H.anchorSeq ≤ U64_MAX
  calls : ∀ call ∈ H.calls, call.1 ≤ U64_MAX

variable {limits} {H}

/-- **The ranges of an era stand for what was recorded in it.** -/
theorem holds (h : H.Words) : (H.era limits).Holds (H.recorded limits) :=
  run_ghost (P := Era.Holds) H.calls (Era.holds_opened _ _ _ h.anchor)
    fun _ call hpre hholds ↦ hholds.deliver (h.calls call (hpre.subset (by simp))) call.2 limits

end EraHistory

/-! ## The runs of an era -/

/-- The bounds of a run. -/
def SequenceRun.bounds (r : SequenceRun) : ℕ × ℕ := (r.missingFrom, r.missingTo)

namespace InstanceState

variable {s : InstanceState} {i : ChannelInstance} {era : Era} {S : Finset ℕ}

/-- The runs of ranges that are apart are the spaces between them. -/
theorem map_bounds_eraRuns {l : List Delivered} (hsep : Separated (l.map Delivered.span))
    (hmax : ∀ r ∈ l, r.end ≤ U64_MAX) :
    (s.eraRuns i era l).map SequenceRun.bounds = gaps (l.map Delivered.span) := by
  induction l with
  | nil => rfl
  | cons before l ih =>
      cases l with
      | nil => rfl
      | cons after l =>
          obtain ⟨-, hafter, hsep⟩ := Ranges.separated_cons.mp hsep
          have hspace : before.end + 1 < after.start := hafter _ List.mem_cons_self
          have hle : after.start ≤ after.end := (Ranges.separated_cons.mp hsep).1
          have hword := hmax after (by simp)
          have hfrom : saturatingAdd before.end 1 = before.end + 1 := by
            unfold saturatingAdd
            omega
          rw [eraRuns, List.map_cons, ih hsep fun r hr ↦ hmax r (List.mem_cons_of_mem _ hr),
            SequenceRun.bounds, hfrom]
          rfl

theorem map_bounds_of_holds (h : era.Holds S) :
    (s.eraRuns i era era.delivered).map SequenceRun.bounds = gaps era.spans :=
  map_bounds_eraRuns h.separated fun _ hr ↦ h.le_max _ (h.ends hr).2.2

/-- The runs of an era are the maximal intervals of missing values. -/
theorem mem_runs_iff (h : era.Holds S) {g : ℕ × ℕ} :
    g ∈ (s.eraRuns i era era.delivered).map SequenceRun.bounds ↔ IsGap S g := by
  rw [map_bounds_of_holds h, Ranges.mem_gaps_iff h.separated, h.covered_eq]

/-- The missing values of the runs are those of the era. -/
theorem sum_missingCount (h : era.Holds S) :
    ((s.eraRuns i era era.delivered).map SequenceRun.missingCount).sum = era.coverage.missing := by
  rw [h.exact.missing, ← map_bounds_of_holds (s := s) (i := i) h, List.map_map]
  congr 1
  refine List.map_congr_left fun r hr ↦ ?_
  have hgap := (mem_runs_iff (s := s) (i := i) h).mp (List.mem_map_of_mem hr)
  have hword := h.le_max _ hgap.after
  have hle : r.missingFrom ≤ r.missingTo := hgap.le
  have hto : r.missingTo + 1 ≤ U64_MAX := hword
  rw [SequenceRun.missingCount, saturatingAdd, Function.comp_apply, SequenceRun.bounds, width]
  obtain ⟨m, hm, hbefore⟩ := hgap.before
  have hfrom : r.missingFrom = m + 1 := hbefore
  dsimp only
  omega

/-! ## The totals of an instance -/

theorem finish_missing (h : ∀ era ∈ s.eras, ∃ S, era.Holds S) :
    (s.finish i).missing = min (s.eras.map fun era ↦ era.coverage.missing).sum U64_MAX := by
  show (s.runs i).foldl (fun missing run ↦ saturatingAdd missing run.missingCount) 0 = _
  rw [foldl_saturatingAdd _ _ (Nat.zero_le _), Nat.zero_add, runs]
  congr 1
  generalize s.eras = eras at h ⊢
  induction eras with
  | nil => rfl
  | cons era eras ih =>
      obtain ⟨S, hS⟩ := h era List.mem_cons_self
      rw [List.flatMap_cons, List.map_append, List.sum_append, sum_missingCount hS,
        ih fun e he ↦ h e (List.mem_cons_of_mem _ he), List.map_cons, List.sum_cons]

theorem finish_referenceSeqs : (s.finish i).referenceSeqs =
    min (s.eras.map fun era ↦ era.coverage.referenceSeqs).sum U64_MAX := by
  show s.eras.foldl (fun total era ↦ saturatingAdd total era.coverage.referenceSeqs) 0 = _
  rw [foldl_saturatingAdd _ _ (Nat.zero_le _), Nat.zero_add]

theorem finish_delivered : ((s.finish i).eras.map EraCoverage.delivered).sum =
    (s.eras.map fun era ↦ era.coverage.delivered).sum := by
  rw [finish, List.map_map]
  rfl

/-- What is missing and what was delivered make up the reference, era by era. -/
theorem sum_account {eras : List Era} (h : ∀ era ∈ eras, ∃ S, era.Holds S) :
    (eras.map fun era ↦ era.coverage.missing).sum +
        (eras.map fun era ↦ era.coverage.delivered).sum =
      (eras.map fun era ↦ era.coverage.referenceSeqs).sum := by
  induction eras with
  | nil => rfl
  | cons era eras ih =>
      obtain ⟨S, hS⟩ := h era List.mem_cons_self
      have haccount := hS.exact.account
      have hrest := ih fun e he ↦ h e (List.mem_cons_of_mem _ he)
      simp only [List.map_cons, List.sum_cons]
      omega

/-- The reference of fewer than 2^32 eras is a word. -/
theorem sum_referenceSeqs_le {eras : List Era} (h : ∀ era ∈ eras, ∃ S, era.Holds S) :
    (eras.map fun era ↦ era.coverage.referenceSeqs).sum ≤
      eras.length * (MAX_FORWARD_JUMP + 1) := by
  induction eras with
  | nil => exact Nat.zero_le _
  | cons era eras ih =>
      obtain ⟨S, hS⟩ := h era List.mem_cons_self
      have hbounded := hS.exact.bounded
      have hrest := ih fun e he ↦ h e (List.mem_cons_of_mem _ he)
      rw [List.map_cons, List.sum_cons, List.length_cons, Nat.succ_mul]
      omega

end InstanceState

/-! ## Exactness -/

namespace EraHistory

/-- What a history leads to is exact: the ranges are those of the values recorded, a refusal
changes nothing, the runs are the maximal intervals of values missing, and the figures count. -/
structure Faithful (H : EraHistory) (limits : DeriverLimits) (s : InstanceState)
    (i : ChannelInstance) : Prop where
  separated : Separated (H.era limits).spans
  covered_eq : covered (H.era limits).spans = H.recorded limits
  refused : ∀ seq ≤ U64_MAX, ∀ tsNs, ((H.era limits).deliver seq tsNs limits).2 ≠ .recorded →
    ((H.era limits).deliver seq tsNs limits).1 = H.era limits
  runs : ∀ g, g ∈ (s.eraRuns i (H.era limits) (H.era limits).delivered).map SequenceRun.bounds ↔
    IsGap (H.recorded limits) g
  ascending : ((s.eraRuns i (H.era limits) (H.era limits).delivered).map
    SequenceRun.bounds).Pairwise fun g g' ↦ g.2 < g'.1
  figures : (H.era limits).Exact (H.recorded limits)

variable {limits : DeriverLimits} {H : EraHistory}

theorem faithful (h : H.Words) (s : InstanceState) (i : ChannelInstance) :
    H.Faithful limits s i where
  separated := (holds h).separated
  covered_eq := (holds h).covered_eq
  refused _ hseq _ := (holds h).deliver_refused hseq
  runs _ := InstanceState.mem_runs_iff (holds h)
  ascending := by
    rw [InstanceState.map_bounds_of_holds (holds h)]
    exact Ranges.pairwise_gaps (holds h).separated
  figures := (holds h).exact

end EraHistory

/-- An instance whose eras have given histories. -/
def ofHistories (limits : DeriverLimits) (Hs : List EraHistory) : InstanceState :=
  { InstanceState.new 0 .mktdata with eras := Hs.map (EraHistory.era limits) }

/-- **Offline loss is exact**: every era is, and for fewer than 2^32 of them so are the totals. -/
theorem offline_exact (limits : DeriverLimits) (Hs : List EraHistory) (i : ChannelInstance)
    (hwords : ∀ H ∈ Hs, H.Words) (hfew : Hs.length < MAX_FORWARD_JUMP) :
    (∀ H ∈ Hs, H.Faithful limits (ofHistories limits Hs) i) ∧
      ((ofHistories limits Hs).finish i).runs = (Hs.flatMap fun H ↦
        (ofHistories limits Hs).eraRuns i (H.era limits) (H.era limits).delivered) ∧
      ((ofHistories limits Hs).finish i).missing +
          (((ofHistories limits Hs).finish i).eras.map EraCoverage.delivered).sum =
        ((ofHistories limits Hs).finish i).referenceSeqs ∧
      ((ofHistories limits Hs).finish i).missing =
        (((ofHistories limits Hs).finish i).eras.map EraCoverage.missing).sum := by
  have hholds : ∀ era ∈ (ofHistories limits Hs).eras, ∃ S, era.Holds S := by
    intro era hera
    obtain ⟨H, hH, rfl⟩ := List.mem_map.mp hera
    exact ⟨_, EraHistory.holds (hwords H hH)⟩
  have haccount := InstanceState.sum_account hholds
  have hbound := InstanceState.sum_referenceSeqs_le hholds
  have hlength : (ofHistories limits Hs).eras.length ≤ MAX_FORWARD_JUMP - 1 := by
    rw [ofHistories, List.length_map]
    omega
  have hwide : (MAX_FORWARD_JUMP - 1) * (MAX_FORWARD_JUMP + 1) = U64_MAX := by decide
  have hmul := Nat.mul_le_mul_right (MAX_FORWARD_JUMP + 1) hlength
  refine ⟨fun H hH ↦ EraHistory.faithful (hwords H hH) _ i, List.flatMap_map .., ?_, ?_⟩
  · rw [InstanceState.finish_missing hholds, InstanceState.finish_referenceSeqs,
      InstanceState.finish_delivered]
    omega
  · rw [InstanceState.finish_missing hholds]
    show _ = (((ofHistories limits Hs).eras.map Era.coverage).map EraCoverage.missing).sum
    rw [List.map_map]
    show _ = ((ofHistories limits Hs).eras.map fun era ↦ era.coverage.missing).sum
    omega

/-- Values out of order, at the limit of a word, twice, and too far. -/
def scattered : EraHistory :=
  ⟨1, 0, U64_MAX - 3, 0, [(U64_MAX, 1), (U64_MAX - 6, 2), (U64_MAX - 2, 3), (U64_MAX - 5, 4),
    (U64_MAX, 5), (7, 6), (U64_MAX - 1, 7)]⟩

theorem offline_exact_scattered :
    ((ofHistories {} [scattered]).finish ⟨1, 2, 3⟩).missing = 1 ∧
      scattered.Faithful {} (ofHistories {} [scattered]) ⟨1, 2, 3⟩ := by
  have h := offline_exact {} [scattered] ⟨1, 2, 3⟩
    (by simpa using ⟨by decide, by decide⟩) (by decide)
  exact ⟨by rw [h.2.2.2]; decide, h.1 scattered (by simp)⟩

/-- An era that was delivered its first value and the one a jump further. -/
def wideEra (ordinal : ℕ) : EraHistory := ⟨ordinal, ordinal % 2, 0, 0, [(MAX_FORWARD_JUMP, 0)]⟩

def wideEras (n : ℕ) : List EraHistory := (List.range n).map wideEra

theorem delivered_wideEra (ordinal : ℕ) : ((wideEra ordinal).era {}).delivered =
    [⟨0, 0, 0, 0⟩, ⟨MAX_FORWARD_JUMP, MAX_FORWARD_JUMP, 0, 0⟩] := by
  rw [EraHistory.era, wideEra, EraHistory.first, run_cons, run_nil, EraHistory.step]
  rfl

/-- What is delivered of each is the two values, and the rest of the jump is missing. -/
theorem figures_wideEra (ordinal : ℕ) :
    ((wideEra ordinal).era {}).coverage.delivered = 2 ∧
      ((wideEra ordinal).era {}).coverage.referenceSeqs = MAX_FORWARD_JUMP + 1 ∧
      ((wideEra ordinal).era {}).coverage.missing = MAX_FORWARD_JUMP - 1 := by
  rw [EraCoverage.missing, EraCoverage.referenceSeqs, Era.coverage, delivered_wideEra]
  exact ⟨rfl, rfl, rfl⟩

theorem words_wideEras {n : ℕ} : ∀ H ∈ wideEras n, H.Words := by
  intro H hH
  obtain ⟨ordinal, -, rfl⟩ := List.mem_map.mp hH
  refine ⟨Nat.zero_le _, fun call hcall ↦ ?_⟩
  obtain rfl := List.mem_singleton.mp hcall
  show MAX_FORWARD_JUMP ≤ U64_MAX
  decide

/-- A figure that is the same for all of them. -/
theorem sum_wideEras {n k : ℕ} (f : EraCoverage → ℕ)
    (hf : ∀ ordinal, f ((wideEra ordinal).era {}).coverage = k) :
    ((ofHistories {} (wideEras n)).eras.map fun era ↦ f era.coverage).sum = n * k := by
  have hmap : ((ofHistories {} (wideEras n)).eras.map fun era ↦ f era.coverage) =
      (List.range n).map fun _ ↦ k := by
    rw [ofHistories, wideEras, List.map_map, List.map_map]
    exact List.map_congr_left fun ordinal _ ↦ hf ordinal
  rw [hmap, List.map_const', List.sum_replicate, List.length_range]
  rfl

theorem totals_wideEras (n : ℕ) (i : ChannelInstance) :
    ((ofHistories {} (wideEras n)).finish i).missing =
        min (n * (MAX_FORWARD_JUMP - 1)) U64_MAX ∧
      ((ofHistories {} (wideEras n)).finish i).referenceSeqs =
        min (n * (MAX_FORWARD_JUMP + 1)) U64_MAX ∧
      (((ofHistories {} (wideEras n)).finish i).eras.map EraCoverage.delivered).sum = n * 2 := by
  have hholds : ∀ era ∈ (ofHistories {} (wideEras n)).eras, ∃ S, era.Holds S := by
    intro era hera
    obtain ⟨H, hH, rfl⟩ := List.mem_map.mp hera
    exact ⟨_, EraHistory.holds (words_wideEras H hH)⟩
  rw [InstanceState.finish_missing hholds, InstanceState.finish_referenceSeqs,
    InstanceState.finish_delivered,
    sum_wideEras EraCoverage.missing fun ordinal ↦ (figures_wideEra ordinal).2.2,
    sum_wideEras EraCoverage.referenceSeqs fun ordinal ↦ (figures_wideEra ordinal).2.1,
    sum_wideEras EraCoverage.delivered fun ordinal ↦ (figures_wideEra ordinal).1]
  exact ⟨rfl, rfl, rfl⟩

/-- The reference of 2^32 eras stops at the width of a word, and no longer accounts for what is
missing and what was delivered. -/
theorem reference_cut_off : ∃ Hs : List EraHistory, Hs.length = MAX_FORWARD_JUMP ∧
    (∀ H ∈ Hs, H.Words) ∧
    ((ofHistories {} Hs).finish ⟨1, 2, 3⟩).missing +
        (((ofHistories {} Hs).finish ⟨1, 2, 3⟩).eras.map EraCoverage.delivered).sum ≠
      ((ofHistories {} Hs).finish ⟨1, 2, 3⟩).referenceSeqs := by
  refine ⟨wideEras MAX_FORWARD_JUMP, by rw [wideEras, List.length_map, List.length_range],
    words_wideEras, ?_⟩
  obtain ⟨hmissing, hreference, hdelivered⟩ := totals_wideEras MAX_FORWARD_JUMP ⟨1, 2, 3⟩
  rw [hmissing, hreference, hdelivered]
  decide

/-!
## Which values an era holds

A reset opens a new sequence space, and an era is meant to hold the values of one.  The tracker
enters the new era whether or not the deriver opens one: once the limit has refused an era, what
goes on with it is delivered into the last era that was opened (`refused_era_merged`).

`unmerged` says which runs keep the spaces apart: those in which every datagram that goes on with
the era of the tracker finds the last era with its own Reset Count.
-/

/-- A datagram that was seen carried the value with the Reset Count. -/
def Carried (seen : List RecordedDatagram) (seq resetCount : ℕ) : Prop :=
  ∃ dg ∈ seen, dg.sequenceNumber = seq ∧ dg.resetCount = resetCount

instance (seen : List RecordedDatagram) (seq resetCount : ℕ) :
    Decidable (Carried seen seq resetCount) := List.decidableBEx _ _

theorem Carried.mono {seen : List RecordedDatagram} {seq resetCount : ℕ}
    (h : Carried seen seq resetCount) (dg : RecordedDatagram) :
    Carried (seen ++ [dg]) seq resetCount := by
  obtain ⟨dg', hdg', heq⟩ := h
  exact ⟨dg', List.mem_append_left _ hdg', heq⟩

namespace Era

/-- Every value of the era was carried with its Reset Count. -/
def Unmerged (e : Era) (seen : List RecordedDatagram) : Prop :=
  ∀ m ∈ covered e.spans, Carried seen m e.resetCount

/-- What an era holds once a value has been delivered: what it held, and possibly the value. -/
theorem Holds.covered_deliver_subset {e : Era} {S : Finset ℕ} (h : e.Holds S) {seq : ℕ}
    (hseq : seq ≤ U64_MAX) (tsNs : ℕ) (limits : DeriverLimits) :
    covered (e.deliver seq tsNs limits).1.spans ⊆ insert seq S := by
  rw [(h.deliver hseq tsNs limits).covered_eq]
  cases (e.deliver seq tsNs limits).2 with
  | recorded => exact Finset.Subset.refl _
  | tooManyRanges | tooDistant => exact Finset.subset_insert _ _

end Era

namespace InstanceState

/-- The eras stand for sets of values carried with their Reset Counts. -/
def Sound (eras : List Era) (seen : List RecordedDatagram) : Prop :=
  ∀ era ∈ eras, (∃ S, era.Holds S) ∧ era.Unmerged seen

theorem Sound.mono {eras : List Era} {seen : List RecordedDatagram} (h : Sound eras seen)
    (dg : RecordedDatagram) : Sound eras (seen ++ [dg]) := fun era hera ↦
  ⟨(h era hera).1, fun m hm ↦ ((h era hera).2 m hm).mono dg⟩

/-- A new era holds the value of the datagram that opened it. -/
theorem Sound.opened {eras : List Era} {seen : List RecordedDatagram} (h : Sound eras seen)
    (ordinal : ℕ) (dg : RecordedDatagram) :
    Sound (eras ++ [.opened ordinal dg.resetCount dg.sequenceNumber dg.recvTsNs])
      (seen ++ [dg]) := by
  intro era hera
  rcases List.mem_append.mp hera with hera | hera
  · exact h.mono dg era hera
  · obtain rfl := List.mem_singleton.mp hera
    have hholds := Era.holds_opened ordinal dg.resetCount dg.recvTsNs dg.word
    refine ⟨⟨_, hholds⟩, fun m hm ↦ ?_⟩
    rw [hholds.covered_eq, Finset.mem_singleton] at hm
    exact ⟨dg, by simp, hm.symm, rfl⟩

/-- A delivery into an era of the datagram's Reset Count. -/
theorem Sound.deliver {s : InstanceState} {seen : List RecordedDatagram} (h : Sound s.eras seen)
    {index : ℕ} {dg : RecordedDatagram} {limits : DeriverLimits}
    (hreset : ∀ era, s.eras[index]? = some era → era.resetCount = dg.resetCount) :
    Sound (s.deliver index dg limits).eras (seen ++ [dg]) := by
  unfold InstanceState.deliver
  split
  next era hera =>
      obtain ⟨⟨S, hS⟩, hcarried⟩ := h era (List.mem_of_getElem? hera)
      have hset : Sound (s.eras.set index (era.deliver dg.sequenceNumber dg.recvTsNs limits).1)
          (seen ++ [dg]) := by
        intro era' hera'
        rcases List.mem_or_eq_of_mem_set hera' with hera' | rfl
        · exact h.mono dg era' hera'
        · refine ⟨⟨_, hS.deliver dg.word dg.recvTsNs limits⟩, fun m hm ↦ ?_⟩
          rw [hS.deliver_resetCount dg.word]
          rcases Finset.mem_insert.mp (hS.covered_deliver_subset dg.word _ _ hm) with rfl | hm
          · exact ⟨dg, by simp, rfl, (hreset era hera).symm⟩
          · exact (hcarried m (hS.covered_eq ▸ hm)).mono dg
      dsimp only
      split <;> exact hset
  next => exact h.mono dg

/-- Every datagram that goes on with the era of the tracker finds the last era with its own Reset
Count. -/
def KeepsApart (s : InstanceState) (dg : RecordedDatagram) : Prop :=
  s.GoesOn dg → ∀ era, s.eras.getLast? = some era → era.resetCount = dg.resetCount

theorem Sound.observe {s : InstanceState} {seen : List RecordedDatagram} (h : Sound s.eras seen)
    {limits : DeriverLimits} {dg : RecordedDatagram} (happart : s.KeepsApart dg) :
    Sound (s.observe limits dg).eras (seen ++ [dg]) := by
  generalize s.observe limits dg = s', s.observe_cases limits dg = hobs
  cases hobs with
  | straggler index hindex =>
      obtain ⟨-, era, -, hera, -, hreset, -⟩ := eraOfStraggler_eq_some hindex
      refine Sound.deliver (s := { s.count dg with stragglers := s.stragglers + 1 }) h
        fun era' hera' ↦ ?_
      obtain rfl : era = era' := Option.some.inj (hera.symm.trans hera')
      exact hreset
  | opened | reset => exact h.opened _ dg
  | refused | forwardJump => exact h.mono dg
  | goesOn hgoes =>
      unfold deliverLast
      simp only [tally_eras, count_eras]
      split
      next => exact h.mono dg
      next =>
          refine Sound.deliver (by simpa using h) fun era hera ↦ happart hgoes era ?_
          rw [List.getLast?_eq_getElem?]
          simpa using hera

/-- The eras of an instance, and the runs that will be made of them, each keep to one sequence
space: the values at both ends of a run were carried with the Reset Count of the run. -/
structure Apart (s : InstanceState) (seen : List RecordedDatagram) : Prop where
  eras : ∀ era ∈ s.eras, era.Unmerged seen
  runs : ∀ i, ∀ r ∈ s.runs i, Carried seen (r.missingFrom - 1) r.resetCount ∧
    Carried seen (r.missingTo + 1) r.resetCount

theorem resetCount_of_mem_eraRuns {s : InstanceState} {i : ChannelInstance} {era : Era}
    {l : List Delivered} {r : SequenceRun} (h : r ∈ s.eraRuns i era l) :
    r.resetCount = era.resetCount := by
  induction l with
  | nil => exact absurd h List.not_mem_nil
  | cons before l ih =>
      cases l with
      | nil => exact absurd h List.not_mem_nil
      | cons after l =>
          rcases List.mem_cons.mp h with rfl | h
          · rfl
          · exact ih h

theorem Sound.apart {s : InstanceState} {seen : List RecordedDatagram} (h : Sound s.eras seen) :
    s.Apart seen where
  eras era hera := (h era hera).2
  runs i r hr := by
    obtain ⟨era, hera, hr⟩ := List.mem_flatMap.mp hr
    obtain ⟨⟨S, hS⟩, hcarried⟩ := h era hera
    obtain ⟨-, ⟨m, hm, hfrom⟩, -, hto⟩ := (mem_runs_iff (s := s) (i := i) hS).mp
      (List.mem_map_of_mem hr)
    rw [resetCount_of_mem_eraRuns hr]
    rw [← hS.covered_eq] at hm hto
    have hbefore : r.missingFrom - 1 = m := by
      show r.bounds.1 - 1 = m
      omega
    exact ⟨hbefore ▸ hcarried m hm, hcarried _ hto⟩

/-- A reset, a value in flight when it happened, and one that goes on after it. -/
def acrossReset : List RecordedDatagram :=
  [.ofWord 7 0 1, .ofWord 0 1 2, .ofWord 9 0 3, .ofWord 1 1 4]

/-- One era is all that may be held, and the second is refused and goes on. -/
def refusedEra : List RecordedDatagram :=
  [.ofWord 0 0 1, .ofWord 100 1 2, .ofWord 101 1 3]

end InstanceState

end EdgeMulticast.Loss
