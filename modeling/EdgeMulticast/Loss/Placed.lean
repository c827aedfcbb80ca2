import EdgeMulticast.Loss.Arrival

/-!
# What each era was delivered

`EraMark.belongs` says, of the datagrams of an instance alone, to which of its eras the next one
belongs.  As long as nothing is refused, an era holds exactly the values of the datagrams that
belong to it (`Eras.observe`), and its runs end right before the values that come after a space
(`Eras.exists_run_iff`).
-/

namespace EdgeMulticast.Loss

open EdgeMulticast.Lib
open EdgeMulticast.Lib.Ranges (covered IsGap)
open EdgeMulticast.Recorder (ChannelInstance PortRole)
open Std (ExtTreeMap)

/-! ## Where a datagram belongs -/

/-- What tells where the next datagrams of an instance belong: of every era so far, its Reset Count
and the highest value of it. -/
structure EraMark where
  resetCount : ℕ
  top : ℕ
deriving DecidableEq, Repr

namespace EraMark

/-- The era a value belongs to: the one before the last, if it carries that one's Reset Count and
lies beyond it; the last, if it carries that one's; and else a new one. -/
def belongs (marks : List EraMark) (resetCount seq : ℕ) : ℕ :=
  if marks.dropLast.getLast?.any fun before ↦ before.resetCount = resetCount ∧ before.top < seq then
    marks.length - 2
  else if marks.getLast?.any fun last ↦ last.resetCount = resetCount then marks.length - 1
  else marks.length

/-- The eras after a value. -/
def noted (marks : List EraMark) (resetCount seq : ℕ) : List EraMark :=
  if belongs marks resetCount seq = marks.length then marks ++ [⟨resetCount, seq⟩]
  else marks.modify (belongs marks resetCount seq) fun m ↦ { m with top := max m.top seq }

theorem belongs_of_beyond {marks : List EraMark} (before : EraMark) {resetCount seq : ℕ}
    (h : marks.dropLast.getLast? = some before) (hreset : before.resetCount = resetCount)
    (hlt : before.top < seq) : belongs marks resetCount seq = marks.length - 2 := by
  rw [belongs, h]
  exact if_pos (decide_eq_true ⟨hreset, hlt⟩)

theorem belongs_of_last {marks : List EraMark} (last : EraMark) {resetCount seq : ℕ}
    (h : ∀ before, marks.dropLast.getLast? = some before →
      ¬(before.resetCount = resetCount ∧ before.top < seq))
    (hlast : marks.getLast? = some last) (hreset : last.resetCount = resetCount) :
    belongs marks resetCount seq = marks.length - 1 := by
  rw [belongs, hlast, if_neg]
  · exact if_pos (decide_eq_true hreset)
  · rw [Option.any_eq_true]
    rintro ⟨before, hbefore, hand⟩
    exact h before hbefore (of_decide_eq_true hand)

theorem belongs_of_new {marks : List EraMark} {resetCount seq : ℕ}
    (h : ∀ before, marks.dropLast.getLast? = some before →
      ¬(before.resetCount = resetCount ∧ before.top < seq))
    (hlast : ∀ last, marks.getLast? = some last → last.resetCount ≠ resetCount) :
    belongs marks resetCount seq = marks.length := by
  rw [belongs, if_neg, if_neg]
  · rw [Option.any_eq_true]
    rintro ⟨last, hsome, hreset⟩
    exact hlast last hsome (of_decide_eq_true hreset)
  · rw [Option.any_eq_true]
    rintro ⟨before, hbefore, hand⟩
    exact h before hbefore (of_decide_eq_true hand)

end EraMark

/-! ## What a delivery leaves -/

namespace Era

/-- The mark of an era. -/
def mark (e : Era) : EraMark := ⟨e.resetCount, e.coverage.lastSeq⟩

variable {e : Era} {S : Finset ℕ} {seq tsNs : ℕ} {limits : DeriverLimits}

/-- A value that is recorded raises the highest. -/
theorem Holds.mark_deliver (h : e.Holds S) (hseq : seq ≤ U64_MAX)
    (hrecorded : (e.deliver seq tsNs limits).2 = .recorded) :
    (e.deliver seq tsNs limits).1.mark = { e.mark with top := max e.mark.top seq } := by
  have hnext := h.deliver hseq tsNs limits
  rw [hrecorded, record] at hnext
  have hold := h.exact
  have hnew := hnext.exact
  rw [mark, h.deliver_resetCount hseq tsNs limits, mark, EraMark.mk.injEq]
  refine ⟨rfl, Nat.le_antisymm ?_ (Nat.max_le.mpr ⟨?_, ?_⟩)⟩
  · rcases Finset.mem_insert.mp hnew.last_mem with heq | hmem
    · exact Nat.le_trans (Nat.le_of_eq heq) (Nat.le_max_right _ _)
    · exact Nat.le_trans (hold.ends _ hmem).2 (Nat.le_max_left _ _)
  · exact (hnew.ends _ (Finset.mem_insert_of_mem hold.last_mem)).2
  · exact (hnew.ends _ (Finset.mem_insert_self _ _)).2

/-- The highest value of an era is the end of its last range. -/
theorem top_eq {last : Delivered} (hlast : e.delivered.getLast? = some last) :
    e.mark.top = last.end := by
  rw [mark, coverage, hlast]
  rfl

end Era

/-- A datagram that goes on with the era of the tracker leaves its number. -/
theorem SequenceTracker.goes_on {t : SequenceTracker} {n reset : ℕ}
    (hopened : t.opened = true) (hreset : reset = t.resetCount) :
    (t.observe n reset).1.eraOrdinal = t.eraOrdinal ∧
      (t.observe n reset).1.opened = true ∧ (t.observe n reset).1.resetCount = t.resetCount := by
  have hobs := t.observe_cases n reset
  generalize t.observe n reset = out at hobs ⊢
  cases hobs with
  | opened h => cases h.symm.trans hopened
  | reset h hdiffers => exact absurd hreset hdiffers
  | forwardJump | inOrder | gap | backward | duplicate | reordered => exact ⟨rfl, hopened, rfl⟩

open EraMark (belongs noted belongs_of_beyond belongs_of_last belongs_of_new)

namespace InstanceState

variable {s : InstanceState} {limits : DeriverLimits} {dg : RecordedDatagram}

/-- How many datagrams were not delivered. -/
def refusals (s : InstanceState) : ℕ :=
  s.erasRefused + s.rangesRefused + s.implausibleDeliveries + s.forwardJumps

/-- The eras have the marks of what came in, and hold what they were delivered. -/
structure Eras (s : InstanceState) (marks : List EraMark) (D : ℕ → ℕ → Prop) : Prop where
  holds : ∀ (k : ℕ) era, s.eras[k]? = some era → ∃ S, era.Holds S ∧ ∀ n, n ∈ S ↔ D k n
  ordinal : ∀ (k : ℕ) era, s.eras[k]? = some era → era.ordinal = k + 1
  beyond : ∀ k n, D k n → k < s.eras.length
  last : s.eras.length = s.sequence.eraOrdinal
  marked : s.eras.map Era.mark = marks
  opened : s.sequence.opened = true ↔ s.eras ≠ []
  reset : ∀ era, s.eras.getLast? = some era → era.resetCount = s.sequence.resetCount

/-- What an era was delivered, with one more value. -/
def delivering (D : ℕ → ℕ → Prop) (index seq : ℕ) : ℕ → ℕ → Prop :=
  fun k n ↦ D k n ∨ k = index ∧ n = seq

theorem eras_new (group : ℕ) (role : PortRole) : (new group role).Eras [] fun _ _ ↦ False where
  holds k era h := by cases h
  ordinal k era h := by cases h
  beyond k n h := h.elim
  last := rfl
  marked := rfl
  opened := by simp [new, SequenceTracker.new]
  reset era h := by cases h

theorem refusals_deliver (s : InstanceState) (index : ℕ) (dg : RecordedDatagram)
    (limits : DeriverLimits) : s.refusals ≤ (s.deliver index dg limits).refusals := by
  cases hera : s.eras[index]? with
  | none => rw [deliver, hera]
  | some era =>
      rw [deliver_eq hera, refusals, refusals]
      dsimp only
      omega

/-- A delivery that is not refused. -/
theorem recorded_of_refusals {index : ℕ} {era : Era} (hera : s.eras[index]? = some era)
    (h : (s.deliver index dg limits).refusals = 0) :
    (era.deliver dg.sequenceNumber dg.recvTsNs limits).2 = .recorded := by
  rw [deliver_eq hera, refusals] at h
  dsimp only at h
  cases hd : (era.deliver dg.sequenceNumber dg.recvTsNs limits).2 with
  | recorded => rfl
  | tooManyRanges =>
      rw [hd, if_pos rfl] at h
      omega
  | tooDistant =>
      rw [hd, if_pos rfl] at h
      omega

section

variable {marks : List EraMark} {D : ℕ → ℕ → Prop} (h : s.Eras marks D)

include h

theorem Eras.length : marks.length = s.eras.length := by rw [← h.marked, List.length_map]

/-- The mark of the era before the last is that of a straggler's. -/
theorem Eras.before_eq : marks.dropLast.getLast? = if 2 ≤ s.eras.length then
    s.eras[s.eras.length - 2]?.map Era.mark else none := by
  rw [List.getLast?_dropLast, h.length, ← h.marked, List.getElem?_map]
  by_cases hlen : 2 ≤ s.eras.length
  · rw [if_pos hlen, if_neg (by omega)]
  · rw [if_neg hlen, if_pos (by omega)]

theorem Eras.last_eq : marks.getLast? = s.eras.getLast?.map Era.mark := by
  rw [← h.marked, List.getLast?_map]

/-- A datagram that is no straggler does not go beyond the era before the last. -/
theorem Eras.not_beyond {resetCount seq : ℕ} (hstays : s.eraOfStraggler resetCount seq = none) :
    ∀ before, marks.dropLast.getLast? = some before →
      ¬(before.resetCount = resetCount ∧ before.top < seq) := by
  rintro before hbefore ⟨hreset, hlt⟩
  rw [h.before_eq] at hbefore
  split at hbefore
  next hlen =>
      obtain ⟨era, hera, rfl⟩ := Option.map_eq_some_iff.mp hbefore
      obtain ⟨S, hS, -⟩ := h.holds _ era hera
      obtain ⟨-, last, -, hlast, -⟩ := hS.exists_ends
      rw [Era.top_eq hlast] at hlt
      rw [eraOfStraggler, if_pos hlen] at hstays
      dsimp only at hstays
      rw [hera] at hstays
      dsimp only at hstays
      rw [hlast] at hstays
      dsimp only at hstays
      rw [if_pos ⟨hreset, hlt⟩] at hstays
      cases hstays
  next => cases hbefore

/-- A datagram that is delivered into an era adds its value there. -/
theorem Eras.deliver {t : InstanceState} {index : ℕ} {era : Era}
    (hera : s.eras[index]? = some era)
    (hindex : belongs marks dg.resetCount dg.sequenceNumber = index)
    (heras : t.eras = s.eras) (hordinal : t.sequence.eraOrdinal = s.sequence.eraOrdinal)
    (hopened : t.sequence.opened = s.sequence.opened)
    (hreset : t.sequence.resetCount = s.sequence.resetCount)
    (hnone : (t.deliver index dg limits).refusals = 0) :
    (t.deliver index dg limits).Eras (noted marks dg.resetCount dg.sequenceNumber)
      (delivering D index dg.sequenceNumber) := by
  have hera' : t.eras[index]? = some era := by rw [heras, hera]
  have hrecorded := recorded_of_refusals hera' hnone
  obtain ⟨S, hS, hmem⟩ := h.holds index era hera
  have hnext := hS.deliver dg.word dg.recvTsNs limits
  rw [hrecorded] at hnext
  have hlt := (List.getElem?_eq_some_iff.mp hera).1
  have hset : (t.deliver index dg limits).eras =
      s.eras.set index (era.deliver dg.sequenceNumber dg.recvTsNs limits).1 := by
    rw [deliver_eq hera', heras]
  have hsequence : (t.deliver index dg limits).sequence = t.sequence := by rw [deliver_eq hera']
  -- an era afterwards is the one delivered to, or as it was
  have hget {k : ℕ} {era' : Era} (hk : (t.deliver index dg limits).eras[k]? = some era') :
      k = index ∧ era' = (era.deliver dg.sequenceNumber dg.recvTsNs limits).1 ∨
        k ≠ index ∧ s.eras[k]? = some era' := by
    rw [hset, List.getElem?_set] at hk
    split at hk
    next hkindex =>
        rw [Option.some.injEq] at hk
        exact .inl ⟨hkindex.symm, hk.symm⟩
    next hkindex => exact .inr ⟨Ne.symm hkindex, hk⟩
  constructor
  · intro k era' hk
    rcases hget hk with ⟨rfl, rfl⟩ | ⟨hne, hk⟩
    · refine ⟨_, hnext, fun n ↦ ?_⟩
      rw [Era.record, Finset.mem_insert, delivering, hmem, eq_self_iff_true, true_and]
      exact or_comm
    · obtain ⟨S', hS', hmem'⟩ := h.holds k era' hk
      refine ⟨S', hS', fun n ↦ ?_⟩
      rw [delivering, hmem', or_iff_left]
      rintro ⟨rfl, -⟩
      exact hne rfl
  · intro k era' hk
    rcases hget hk with ⟨rfl, rfl⟩ | ⟨-, hk⟩
    · rw [hS.deliver_ordinal dg.word dg.recvTsNs limits, h.ordinal _ era hera]
    · exact h.ordinal k era' hk
  · rintro k n (hk | ⟨rfl, -⟩)
    · rw [hset, List.length_set]
      exact h.beyond k n hk
    · rwa [hset, List.length_set]
  · rw [hset, List.length_set, hsequence, hordinal]
    exact h.last
  · rw [noted, hindex, if_neg (by rw [h.length]; exact Nat.ne_of_lt hlt), hset, List.map_set,
      hS.mark_deliver dg.word hrecorded, ← h.marked, List.modify_eq_set_getElem?, List.getElem?_map,
      hera]
    rfl
  · rw [hset, hsequence, hopened, h.opened, ne_eq, ne_eq, List.set_eq_nil_iff]
  · intro era' hlast
    rw [hsequence, hreset]
    rw [List.getLast?_eq_getElem?] at hlast
    rcases hget hlast with ⟨hk, rfl⟩ | ⟨-, hk⟩
    · rw [hS.deliver_resetCount dg.word dg.recvTsNs limits]
      refine h.reset era ?_
      rw [List.getLast?_eq_getElem?, ← hera, ← hk, hset, List.length_set]
    · refine h.reset era' ?_
      rw [List.getLast?_eq_getElem?, ← hk, hset, List.length_set]

/-- A datagram that opens an era. -/
theorem Eras.opens {t : InstanceState}
    (hindex : belongs marks dg.resetCount dg.sequenceNumber = marks.length)
    (heras : t.eras = s.eras ++
      [.opened (s.sequence.eraOrdinal + 1) dg.resetCount dg.sequenceNumber dg.recvTsNs])
    (hsequence : t.sequence = s.sequence.open dg.sequenceNumber dg.resetCount) :
    t.Eras (noted marks dg.resetCount dg.sequenceNumber)
      (delivering D s.eras.length dg.sequenceNumber) := by
  have hnew := Era.holds_opened (s.sequence.eraOrdinal + 1) dg.resetCount dg.recvTsNs dg.word
  have hget {k : ℕ} {era : Era} (hk : t.eras[k]? = some era) : s.eras[k]? = some era ∨
      k = s.eras.length ∧
        era = .opened (s.sequence.eraOrdinal + 1) dg.resetCount dg.sequenceNumber dg.recvTsNs := by
    rw [heras, List.getElem?_append] at hk
    split at hk
    next => exact .inl hk
    next hle =>
        rw [List.getElem?_singleton, Option.ite_none_right_eq_some, Option.some.injEq] at hk
        exact .inr ⟨by omega, hk.2.symm⟩
  constructor
  · intro k era hk
    rcases hget hk with hold | ⟨rfl, rfl⟩
    · obtain ⟨S, hS, hmem⟩ := h.holds k era hold
      refine ⟨S, hS, fun n ↦ ?_⟩
      rw [delivering, hmem, or_iff_left]
      rintro ⟨rfl, -⟩
      exact absurd (List.getElem?_eq_some_iff.mp hold).1 (Nat.lt_irrefl _)
    · refine ⟨_, hnew, fun n ↦ ?_⟩
      rw [Finset.mem_singleton, delivering, eq_self_iff_true, true_and, or_iff_right]
      exact fun hD ↦ absurd (h.beyond _ n hD) (Nat.lt_irrefl _)
  · intro k era hk
    rcases hget hk with hold | ⟨rfl, rfl⟩
    · exact h.ordinal k era hold
    · exact congrArg Nat.succ h.last.symm
  · rintro k n (hk | ⟨rfl, -⟩)
    · rw [heras, List.length_append]
      exact Nat.lt_add_right _ (h.beyond k n hk)
    · rw [heras, List.length_append]
      exact Nat.lt_succ_self _
  · rw [heras, List.length_append, hsequence, h.last]
    rfl
  · rw [noted, hindex, if_pos rfl, heras, List.map_append, h.marked]
    rfl
  · rw [hsequence, heras]
    exact iff_of_true rfl (List.append_ne_nil_of_right_ne_nil _ (List.cons_ne_nil _ _))
  · intro era hlast
    rw [heras, List.getLast?_concat, Option.some.injEq] at hlast
    rw [← hlast, hsequence]
    rfl

/-- Every datagram of an instance from which nothing is refused is delivered where it belongs. -/
theorem Eras.observe (hnone : (s.observe limits dg).refusals = 0) :
    (s.observe limits dg).Eras (noted marks dg.resetCount dg.sequenceNumber)
      (delivering D (belongs marks dg.resetCount dg.sequenceNumber) dg.sequenceNumber) := by
  have hobs := s.observe_cases limits dg
  generalize s.observe limits dg = s' at hnone hobs ⊢
  cases hobs with
  | straggler index hindex =>
      obtain ⟨hlen, era, last, hera, hlast, hreset, hlt⟩ := eraOfStraggler_eq_some hindex
      have hbelongs : belongs marks dg.resetCount dg.sequenceNumber = index := by
        rw [belongs_of_beyond era.mark _ hreset (Era.top_eq hlast ▸ hlt), h.length,
          ← hlen, Nat.add_sub_cancel]
        rw [h.before_eq, if_pos (by omega), ← hlen, Nat.add_sub_cancel, hera, Option.map_some]
      rw [hbelongs]
      exact h.deliver hera hbelongs rfl rfl rfl rfl hnone
  | opened hstays hopened =>
      have hnil : s.eras = [] := by
        by_contra hne
        exact Bool.noConfusion (hopened.symm.trans (h.opened.mpr hne))
      have hbelongs := belongs_of_new (h.not_beyond hstays) fun last hlast ↦ by
        rw [h.last_eq, hnil] at hlast
        cases hlast
      rw [hbelongs, h.length]
      exact h.opens hbelongs rfl rfl
  | refused hstays hopened hreset hfull =>
      rw [refusals] at hnone
      dsimp only at hnone
      omega
  | reset hstays hopened hreset hroom =>
      have hbelongs := belongs_of_new (h.not_beyond hstays) fun last hlast heq ↦ by
        rw [h.last_eq] at hlast
        obtain ⟨era, hera, rfl⟩ := Option.map_eq_some_iff.mp hlast
        exact hreset (heq.symm.trans (h.reset era hera))
      rw [hbelongs, h.length]
      exact h.opens hbelongs rfl rfl
  | forwardJump hstays hopened hreset hfar =>
      rw [refusals] at hnone
      dsimp only at hnone
      omega
  | goesOn hgoes =>
      have hne := h.opened.mp hgoes.opened
      have hlast : s.eras.getLast? = some (s.eras.getLast hne) := List.getLast?_eq_some_getLast hne
      have hbelongs : belongs marks dg.resetCount dg.sequenceNumber = s.eras.length - 1 := by
        rw [← h.length]
        refine belongs_of_last (s.eras.getLast hne).mark (h.not_beyond hgoes.stays) ?_ ?_
        · rw [h.last_eq, hlast, Option.map_some]
        · exact (h.reset _ hlast).trans hgoes.reset.symm
      obtain ⟨hordinal, hopened, hreset⟩ :=
        SequenceTracker.goes_on (n := dg.sequenceNumber) hgoes.opened hgoes.reset
      have hsequence (t : InstanceState) (outcome : SequenceOutcome) :
          (t.tally outcome).sequence = t.sequence := by cases outcome <;> rfl
      rw [hbelongs]
      generalize hgone : ({ s.count dg with
        sequence := (s.sequence.observe dg.sequenceNumber dg.resetCount).1 }.tally
          (s.sequence.observe dg.sequenceNumber dg.resetCount).2) = t at hnone ⊢
      have heras : t.eras = s.eras := by rw [← hgone, tally_eras, count_eras]
      unfold deliverLast at hnone ⊢
      rw [heras, if_neg hne] at hnone ⊢
      rw [List.getLast?_eq_getElem?] at hlast
      refine h.deliver hlast hbelongs heras ?_ ?_ ?_ hnone
      · rw [← hgone, hsequence]
        exact hordinal
      · rw [← hgone, hsequence]
        exact hopened.trans hgoes.opened.symm
      · rw [← hgone, hsequence]
        exact hreset

end

/-- A datagram only adds to what was refused. -/
theorem refusals_observe (s : InstanceState) (limits : DeriverLimits) (dg : RecordedDatagram) :
    s.refusals ≤ (s.observe limits dg).refusals := by
  have hobs := s.observe_cases limits dg
  generalize s.observe limits dg = s' at hobs ⊢
  cases hobs with
  | straggler index hindex =>
      exact refusals_deliver { s.count dg with stragglers := s.stragglers + 1 } index dg limits
  | opened | reset => exact Nat.le_refl _
  | refused =>
      rw [refusals, refusals]
      dsimp only [count]
      omega
  | forwardJump =>
      rw [refusals, refusals]
      dsimp only [count]
      omega
  | goesOn =>
      have htally (t : InstanceState) (outcome : SequenceOutcome) :
          (t.tally outcome).refusals = t.refusals := by cases outcome <;> rfl
      have hgone := htally { s.count dg with
        sequence := (s.sequence.observe dg.sequenceNumber dg.resetCount).1 }
          (s.sequence.observe dg.sequenceNumber dg.resetCount).2
      refine Nat.le_trans (Nat.le_of_eq hgone.symm) ?_
      unfold deliverLast
      split
      · rw [refusals, refusals]
        dsimp only
        omega
      · exact refusals_deliver _ _ _ _

/-! ## The runs -/

/-- A value that an era was delivered after a space. -/
def AfterSpace (D : ℕ → ℕ → Prop) (k n : ℕ) : Prop := D k n ∧ ¬D k (n - 1) ∧ ∃ m < n, D k m

theorem of_mem_eraRuns {i : ChannelInstance} {era : Era} {l : List Delivered} {r : SequenceRun}
    (h : r ∈ s.eraRuns i era l) : r.instance = i ∧ r.eraOrdinal = era.ordinal := by
  induction l with
  | nil => exact absurd h List.not_mem_nil
  | cons before l ih =>
      cases l with
      | nil => exact absurd h List.not_mem_nil
      | cons after l =>
          rcases List.mem_cons.mp h with rfl | h
          · exact ⟨rfl, rfl⟩
          · exact ih h

/-- The runs of an instance end right before the values that come after a space. -/
theorem Eras.exists_run_iff {marks : List EraMark} {D : ℕ → ℕ → Prop} (h : s.Eras marks D)
    (i : ChannelInstance) (k n : ℕ) :
    (∃ r ∈ s.runs i, r.eraOrdinal = k + 1 ∧ r.missingTo + 1 = n) ↔ AfterSpace D k n := by
  -- the spaces of an era
  have hgap {j : ℕ} {era : Era} {S : Finset ℕ} (hera : s.eras[j]? = some era) (hS : era.Holds S) :
      (∃ r ∈ s.eraRuns i era era.delivered, r.missingTo + 1 = n) ↔
        ∃ g, IsGap S g ∧ g.2 + 1 = n := by
    constructor
    · rintro ⟨r, hr, rfl⟩
      exact ⟨r.bounds, (mem_runs_iff hS).mp (List.mem_map_of_mem hr), rfl⟩
    · rintro ⟨g, hg, rfl⟩
      obtain ⟨r, hr, rfl⟩ := List.mem_map.mp ((mem_runs_iff (s := s) (i := i) hS).mpr hg)
      exact ⟨r, hr, rfl⟩
  constructor
  · rintro ⟨r, hr, hordinal, hn⟩
    obtain ⟨era, hera, hr⟩ := List.mem_flatMap.mp hr
    obtain ⟨j, hj⟩ := List.mem_iff_getElem?.mp hera
    obtain rfl : j = k := by
      have := h.ordinal j era hj
      have := (of_mem_eraRuns hr).2
      omega
    obtain ⟨S, hS, hmem⟩ := h.holds j era hj
    obtain ⟨hn, hbefore, m, hm, hlt⟩ := Ranges.exists_isGap_iff.mp ((hgap hj hS).mp ⟨r, hr, hn⟩)
    exact ⟨(hmem n).mp hn, fun hD ↦ hbefore ((hmem _).mpr hD), m, hlt, (hmem m).mp hm⟩
  · rintro ⟨hn, hbefore, m, hlt, hm⟩
    obtain ⟨era, hera⟩ : ∃ era, s.eras[k]? = some era :=
      ⟨_, List.getElem?_eq_getElem (h.beyond k n hn)⟩
    obtain ⟨S, hS, hmem⟩ := h.holds k era hera
    obtain ⟨r, hr, hrn⟩ := (hgap hera hS).mpr (Ranges.exists_isGap_iff.mpr
      ⟨(hmem n).mpr hn, fun hin ↦ hbefore ((hmem _).mp hin), m, (hmem m).mpr hm, hlt⟩)
    refine ⟨r, List.mem_flatMap.mpr ⟨era, List.mem_of_getElem? hera, hr⟩, ?_, hrn⟩
    rw [(of_mem_eraRuns hr).2, h.ordinal k era hera]

/-- A run of an instance is of one of its eras. -/
theorem Eras.of_mem_runs {marks : List EraMark} {D : ℕ → ℕ → Prop} (h : s.Eras marks D)
    {i : ChannelInstance} {r : SequenceRun} (hr : r ∈ s.runs i) :
    r.instance = i ∧ ∃ k < s.eras.length, r.eraOrdinal = k + 1 ∧ AfterSpace D k (r.missingTo + 1) := by
  obtain ⟨era, hera, hin⟩ := List.mem_flatMap.mp hr
  obtain ⟨k, hk⟩ := List.mem_iff_getElem?.mp hera
  have hordinal : r.eraOrdinal = k + 1 := by rw [(of_mem_eraRuns hin).2, h.ordinal k era hk]
  exact ⟨(of_mem_eraRuns hin).1, k, (List.getElem?_eq_some_iff.mp hk).1, hordinal,
    (h.exists_run_iff i k _).mp ⟨r, hr, hordinal, rfl⟩⟩

/-- No two runs of an instance end at one value of one era. -/
theorem Eras.nodup_runs {marks : List EraMark} {D : ℕ → ℕ → Prop} (h : s.Eras marks D)
    (i : ChannelInstance) :
    ((s.runs i).map fun r ↦ (r.eraOrdinal, r.missingTo)).Nodup := by
  rw [runs, List.map_flatMap, List.nodup_flatMap]
  constructor
  · intro era hera
    obtain ⟨k, hk⟩ := List.mem_iff_getElem?.mp hera
    obtain ⟨S, hS, -⟩ := h.holds k era hk
    have hends : ((s.eraRuns i era era.delivered).map SequenceRun.missingTo).Pairwise (· < ·) := by
      have hgaps := Ranges.pairwise_gaps hS.separated
      rw [← map_bounds_of_holds (s := s) (i := i) hS, List.pairwise_map] at hgaps
      rw [List.pairwise_map]
      refine hgaps.imp_of_mem fun {a b} _ hb hlt ↦ ?_
      have hle := ((mem_runs_iff hS).mp (List.mem_map_of_mem hb)).le
      exact hlt.trans_le hle
    refine List.Nodup.of_map Prod.snd ?_
    rw [List.map_map]
    exact hends.imp fun hlt ↦ hlt.ne
  · have hordinals : s.eras.Pairwise fun e e' ↦ e.ordinal ≠ e'.ordinal := by
      rw [List.pairwise_iff_getElem]
      intro j k hj hk hlt
      rw [h.ordinal j _ (List.getElem?_eq_getElem hj), h.ordinal k _ (List.getElem?_eq_getElem hk)]
      omega
    refine hordinals.imp fun {e e'} hne ↦ ?_
    intro x hx hx'
    obtain ⟨r, hr, rfl⟩ := List.mem_map.mp hx
    obtain ⟨r', hr', heq⟩ := List.mem_map.mp hx'
    refine hne ?_
    rw [← (of_mem_eraRuns hr).2, ← (of_mem_eraRuns hr').2]
    exact (congrArg Prod.fst heq).symm

/-- The eras stay within the limit. -/
theorem Eras.length_observe {marks : List EraMark} {D : ℕ → ℕ → Prop} (h : s.Eras marks D)
    (hroom : 0 < limits.maxErasPerInstance) (hle : s.eras.length ≤ limits.maxErasPerInstance) :
    (s.observe limits dg).eras.length ≤ limits.maxErasPerInstance := by
  have hdeliver (t : InstanceState) (index : ℕ) :
      (t.deliver index dg limits).eras.length = t.eras.length := by
    cases hera : t.eras[index]? with
    | none => rw [InstanceState.deliver, hera]
    | some era => rw [deliver_eq hera, List.length_set]
  have hobs := s.observe_cases limits dg
  generalize s.observe limits dg = s' at hobs ⊢
  cases hobs with
  | straggler index hindex =>
      rw [hdeliver]
      exact hle
  | opened hstays hopened =>
      have hnil : s.eras = [] := by
        by_contra hne
        exact Bool.noConfusion (hopened.symm.trans (h.opened.mpr hne))
      rw [hnil]
      exact hroom
  | refused | forwardJump => exact hle
  | reset hstays hopened hreset hlt =>
      rw [List.length_append]
      exact hlt
  | goesOn hgoes =>
      unfold deliverLast
      split
      · rw [tally_eras]
        exact hle
      · rw [hdeliver, tally_eras]
        exact hle

end InstanceState

/-! ## The eras of an object -/

/-- The header of a datagram of an instance. -/
def Captured.of (key : ChannelInstance) : Captured → Option RecordedDatagram
  | .short _ _ => none
  | .read _ i dg => if i = key then some dg else none

/-- The eras of an instance over some datagrams. -/
def marksOf (key : ChannelInstance) (dgs : List Captured) : List EraMark :=
  (dgs.filterMap (Captured.of key)).foldl (fun marks dg ↦
    noted marks dg.resetCount dg.sequenceNumber) []

/-- The era of its instance that a datagram belongs to. -/
def eraOf (dgs : List Captured) (j : ℕ) : Option ℕ :=
  match dgs[j]? with
  | some (.read _ key dg) =>
      some (belongs (marksOf key (dgs.take j)) dg.resetCount dg.sequenceNumber)
  | some (.short _ _) | none => none

/-- A datagram of an instance and era carried the value. -/
def Brought (dgs : List Captured) (key : ChannelInstance) (k n : ℕ) : Prop :=
  ∃ (j : ℕ) (role : PortRole) (dg : RecordedDatagram), dgs[j]? = some (.read role key dg) ∧
    eraOf dgs j = some k ∧ dg.sequenceNumber = n

section

variable {dgs : List Captured} {c : Captured} {key : ChannelInstance} {k n : ℕ}

theorem marksOf_snoc_of_none (h : c.of key = none) :
    marksOf key (dgs ++ [c]) = marksOf key dgs := by
  rw [marksOf, List.filterMap_append, List.filterMap_cons_none h, List.filterMap_nil,
    List.append_nil]
  rfl

theorem marksOf_snoc (role : PortRole) (dg : RecordedDatagram) :
    marksOf key (dgs ++ [.read role key dg]) =
      noted (marksOf key dgs) dg.resetCount dg.sequenceNumber := by
  have hself : (Captured.read role key dg).of key = some dg := if_pos rfl
  rw [marksOf, List.filterMap_append, List.filterMap_cons_some hself, List.foldl_append]
  rfl

theorem eraOf_snoc {j : ℕ} (h : j < dgs.length) : eraOf (dgs ++ [c]) j = eraOf dgs j := by
  rw [eraOf, eraOf, List.getElem?_append_left h, List.take_append_of_le_length (Nat.le_of_lt h)]

/-- One more datagram adds its value to the era it belongs to. -/
theorem brought_snoc : Brought (dgs ++ [c]) key k n ↔ Brought dgs key k n ∨
    ∃ role dg, c = .read role key dg ∧
      belongs (marksOf key dgs) dg.resetCount dg.sequenceNumber = k ∧ dg.sequenceNumber = n := by
  have hlast : (dgs ++ [c])[dgs.length]? = some c := List.getElem?_concat_length
  constructor
  · rintro ⟨j, role, dg, hj, hera, hn⟩
    rcases Nat.lt_or_ge j dgs.length with hlt | hge
    · rw [List.getElem?_append_left hlt] at hj
      rw [eraOf_snoc hlt] at hera
      exact .inl ⟨j, role, dg, hj, hera, hn⟩
    · obtain ⟨hlt, -⟩ := List.getElem?_eq_some_iff.mp hj
      rw [List.length_append, List.length_singleton] at hlt
      obtain rfl : j = dgs.length := by omega
      rw [eraOf, hj, Option.some.injEq, List.take_left] at hera
      rw [hlast, Option.some.injEq] at hj
      exact .inr ⟨role, dg, hj, hera, hn⟩
  · rintro (⟨j, role, dg, hj, hera, hn⟩ | ⟨role, dg, rfl, hera, hn⟩)
    · have hlt := (List.getElem?_eq_some_iff.mp hj).1
      refine ⟨j, role, dg, ?_, ?_, hn⟩
      · rw [List.getElem?_append_left hlt, hj]
      · rw [eraOf_snoc hlt, hera]
    · refine ⟨dgs.length, role, dg, hlast, ?_, hn⟩
      rw [eraOf, hlast, List.take_left]
      exact congrArg some hera

end

namespace LossDeriver

variable {d : LossDeriver} {c : Captured}

/-- Every value was delivered within the limits: no instance, no era and no range was refused, and
no value was too far from the others. -/
structure Within (d : LossDeriver) : Prop where
  instances : d.instancesRefused = 0
  refusals : ∀ (key : ChannelInstance) (s : InstanceState), d.instances[key]? = some s →
    s.refusals = 0

instance (d : LossDeriver) : Decidable d.Within :=
  decidable_of_iff (d.instancesRefused = 0 ∧ ∀ p ∈ d.instances.toList, p.2.refusals = 0)
    ⟨fun h ↦ ⟨h.1, fun key s hs ↦
        h.2 (key, s) (ExtTreeMap.mem_toList_iff_getElem?_eq_some.mpr hs)⟩,
      fun h ↦ ⟨h.instances, fun p hp ↦
        h.refusals p.1 p.2 (ExtTreeMap.mem_toList_iff_getElem?_eq_some.mp hp)⟩⟩

/-- What a datagram does to an object within the limits. -/
inductive Observes (d : LossDeriver) : Captured → LossDeriver → Prop where
  | short (role : PortRole) (dropDelta : ℕ) (d' : LossDeriver)
      (hinstances : d'.instances = d.instances) (hlimits : d'.limits = d.limits)
      (hrefused : d'.instancesRefused = d.instancesRefused) : Observes d (.short role dropDelta) d'
  | refused (role : PortRole) (key : ChannelInstance) (dg : RecordedDatagram) (d' : LossDeriver)
      (hinstances : d'.instances = d.instances) (hlimits : d'.limits = d.limits)
      (hrefused : d'.instancesRefused = d.instancesRefused + 1) : Observes d (.read role key dg) d'
  | read (role : PortRole) (key : ChannelInstance) (dg : RecordedDatagram) (d' : LossDeriver)
      (hinstances : d'.instances =
        d.instances.insert key ((d.state role key dg).observe d.limits dg))
      (hlimits : d'.limits = d.limits) (hrefused : d'.instancesRefused = d.instancesRefused) :
      Observes d (.read role key dg) d'

theorem observe_cases (d : LossDeriver) (c : Captured) : d.Observes c (d.observe c) := by
  cases c with
  | short role dropDelta => exact .short role dropDelta _ rfl rfl rfl
  | read role key dg =>
      change d.Observes _ (if (!d.instances.contains key &&
        decide (d.limits.maxInstances ≤ d.instances.size)) = true then _ else _)
      split
      · exact .refused role key dg _ rfl rfl rfl
      · exact .read role key dg _ rfl rfl rfl

theorem limits_observe (d : LossDeriver) (c : Captured) : (d.observe c).limits = d.limits := by
  cases d.observe_cases c with
  | short _ _ _ _ hlimits | refused _ _ _ _ _ hlimits | read _ _ _ _ _ hlimits => exact hlimits

/-- What was within the limits was so before. -/
theorem Within.before (h : (d.observe c).Within) : d.Within := by
  have hobs := d.observe_cases c
  generalize d.observe c = d' at h hobs
  cases hobs with
  | short role dropDelta d' hinstances hlimits hrefused =>
      exact ⟨hrefused ▸ h.instances, fun key s hs ↦ h.refusals key s (hinstances ▸ hs)⟩
  | refused role key dg d' hinstances hlimits hrefused =>
      exact absurd (hrefused.symm.trans h.instances) (Nat.succ_ne_zero _)
  | read role key dg d' hinstances hlimits hrefused =>
      refine ⟨hrefused ▸ h.instances, fun i s hs ↦ ?_⟩
      have hget := h.refusals
      rw [hinstances] at hget
      by_cases hkey : key = i
      · subst hkey
        have hzero := hget key _ (by rw [getElem?_insert_eq, if_pos rfl])
        have hle := (d.state role key dg).refusals_observe d.limits dg
        rw [hzero, state, hs] at hle
        exact Nat.le_zero.mp hle
      · exact hget i s (by rwa [getElem?_insert_ne hkey])

/-- The states of the instances are those that their datagrams lead to. -/
structure Keeps (d : LossDeriver) (dgs : List Captured) : Prop where
  eras : ∀ key group role, (d.instances[key]?.getD (InstanceState.new group role)).Eras
    (marksOf key dgs) (Brought dgs key)
  bounded : ∀ (key : ChannelInstance) (s : InstanceState), d.instances[key]? = some s →
    s.eras.length ≤ d.limits.maxErasPerInstance

theorem Keeps.observe {dgs : List Captured} (h : d.Keeps dgs) (hwithin : (d.observe c).Within)
    (hroom : 0 < d.limits.maxErasPerInstance) : (d.observe c).Keeps (dgs ++ [c]) := by
  -- the other instances do not see the datagram
  have hother {key : ChannelInstance} (hkey : c.of key = none) (group : ℕ) (role : PortRole) :
      (d.instances[key]?.getD (InstanceState.new group role)).Eras (marksOf key (dgs ++ [c]))
        (Brought (dgs ++ [c]) key) := by
    have hbrought : Brought (dgs ++ [c]) key = Brought dgs key := by
      funext k n
      rw [eq_iff_iff, brought_snoc, or_iff_left]
      rintro ⟨role, dg, rfl, -⟩
      rw [Captured.of, if_pos rfl] at hkey
      cases hkey
    rw [marksOf_snoc_of_none hkey, hbrought]
    exact h.eras key group role
  have hobs := d.observe_cases c
  generalize d.observe c = d' at hwithin hobs ⊢
  cases hobs with
  | short role dropDelta d' hinstances hlimits hrefused =>
      constructor
      · intro key
        rw [hinstances]
        exact hother rfl
      · rw [hinstances, hlimits]
        exact h.bounded
  | refused role key dg d' hinstances hlimits hrefused =>
      exact absurd (hrefused.symm.trans hwithin.instances) (Nat.succ_ne_zero _)
  | read role key dg d' hinstances hlimits hrefused =>
      have hnone := hwithin.refusals
      rw [hinstances] at hnone
      have hself := hnone key _ (by rw [getElem?_insert_eq, if_pos rfl])
      have hbefore : (d.state role key dg).Eras (marksOf key dgs) (Brought dgs key) :=
        h.eras key dg.dstIp role
      have hnext := hbefore.observe hself
      constructor
      · intro i group role'
        rw [hinstances, getElem?_insert_eq]
        split
        next hkey =>
            subst hkey
            rw [Option.getD_some, marksOf_snoc]
            have hbrought : Brought (dgs ++ [.read role key dg]) key =
                InstanceState.delivering (Brought dgs key)
                  (belongs (marksOf key dgs) dg.resetCount dg.sequenceNumber)
                  dg.sequenceNumber := by
              funext k n
              rw [eq_iff_iff, brought_snoc, InstanceState.delivering]
              refine or_congr_right ⟨?_, ?_⟩
              · rintro ⟨role', dg', hc, rfl, rfl⟩
                obtain ⟨-, -, rfl⟩ := Captured.read.inj hc
                exact ⟨rfl, rfl⟩
              · rintro ⟨rfl, rfl⟩
                exact ⟨role, dg, rfl, rfl, rfl⟩
            rw [hbrought]
            exact hnext
        next hkey => exact hother (by rw [Captured.of, if_neg hkey]) group role'
      · intro i s hs
        rw [hlimits]
        rw [hinstances, getElem?_insert_eq] at hs
        split at hs
        next hkey =>
            obtain rfl := Option.some.inj hs
            refine hbefore.length_observe hroom ?_
            rw [state]
            cases hold : d.instances[key]? with
            | none => exact Nat.zero_le _
            | some s => exact h.bounded key s hold
        next => exact h.bounded i s hs

theorem keeps_nil (scope : CaptureDropScope) : Keeps { scope } [] where
  eras key group role := by
    have hnone : Brought [] key = fun _ _ ↦ False := by
      funext k n
      rw [eq_iff_iff, iff_false]
      rintro ⟨j, role, dg, hj, -⟩
      cases hj
    rw [hnone]
    exact InstanceState.eras_new group role
  bounded key s hs := by
    rw [show ({ scope } : LossDeriver).instances[key]? = none from ExtTreeMap.getElem?_empty] at hs
    cases hs

/-- **An object within the limits is delivered where it belongs.** -/
theorem keeps (scope : CaptureDropScope) (dgs : List Captured)
    (h : (run observe { scope } dgs).Within) : (run observe { scope } dgs).Keeps dgs := by
  have hlimits (dgs : List Captured) : (run observe { scope } dgs).limits = {} :=
    run_induction (P := fun d : LossDeriver ↦ d.limits = {}) dgs rfl fun d c _ hd ↦
      (d.limits_observe c).trans hd
  revert h
  refine run_history (P := fun pre (d : LossDeriver) ↦ d.Within → d.Keeps pre) dgs
    (fun _ ↦ keeps_nil scope) ?_
  intro pre c hpre ih h
  refine (ih h.before).observe h ?_
  rw [hlimits]
  exact Nat.zero_lt_succ _

end LossDeriver

end EdgeMulticast.Loss
