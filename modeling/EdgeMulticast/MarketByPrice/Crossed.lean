import EdgeMulticast.MarketByPrice.Runs

/-!
# Crossed books

A shard keeps the set of instruments whose books are crossed, which is what its gauge counts.  A
book that changes is evaluated at once, or marked as touched and evaluated at the next boundary;
which of the two depends on whether the shard has seen a boundary, and a channel's reset forgets
that it has.

In every reachable state the set holds exactly the crossed ones among the books that are not
touched (`Shard.CrossedKept`).  An operation on one instrument reports a change whenever it makes
that instrument's inside market another one (`Shard.Leaves`), so that no change is missed.
-/

namespace EdgeMulticast.MarketByPrice

open Std (ExtTreeMap)
open EdgeMulticast.Lib

namespace Instrument

variable (i : Instrument)

theorem crossed_of_empty {j : Instrument} (hbids : j.bids = ∅) : j.crossed = false := by
  have hkeys : (∅ : Book).keys = [] := by simp
  rw [crossed, hbids, hkeys]
  rfl

@[simp] theorem requireSnapshotAtLeast_crossed (n : ℕ) :
    (i.requireSnapshotAtLeast n).crossed = i.crossed := by
  obtain ⟨r, hr, -⟩ := i.requireSnapshotAtLeast_spec n
  rw [hr]
  rfl

theorem evictInstrument_crossed (buf : List BufferedDelta) :
    (Shard.evictInstrument i buf).crossed = i.crossed := by
  rw [Shard.evictInstrument, requireSnapshotAtLeast_crossed]
  rfl

theorem declareGap_crossed (n : ℕ) : (i.declareGap n).crossed = i.crossed := by
  rw [declareGap, requireSnapshotAtLeast_crossed]
  rfl

theorem demote_crossed (n : ℕ) : (i.demote n).crossed = i.crossed := by
  have h : (({ i with status := .gap } : Instrument).markInstrumentSeqLost n).crossed =
      i.crossed := rfl
  rw [demote]
  exact (requireSnapshotAtLeast_crossed _ n).trans h

theorem snapshotBegin_crossed (rec : Record) : (i.snapshotBegin rec).crossed = i.crossed := by
  simp only [snapshotBegin]
  split <;> rfl

theorem snapshotLevel_crossed (rec : Record) : (i.snapshotLevel rec).1.crossed = i.crossed := by
  simp only [snapshotLevel, addSnapshotLevel]
  split
  · rfl
  · split <;> rfl

/-- Applying one record reports a change, or fails and leaves the book alone. -/
theorem applyOne_cases (rec : Record) :
    ((i.applyOne rec).2.2 = none ∧ (i.applyOne rec).2.1.kind = .appliedDelta) ∨
      (i.applyOne rec).2.2 ≠ none ∧ (i.applyOne rec).1.crossed = i.crossed := by
  simp only [applyOne]
  split
  · exact Or.inl ⟨rfl, rfl⟩
  · cases h : bookClearMalformed (clearSideFromString rec.fields.clearSide)
      (scopeFromString rec.fields.scope) with
    | none =>
        rw [applyBookClear, h]
        exact Or.inl ⟨rfl, rfl⟩
    | some err =>
        rw [applyBookClear, h]
        exact Or.inr ⟨Option.some_ne_none _, rfl⟩
  · exact Or.inl ⟨rfl, rfl⟩

end Instrument

namespace Shard

variable (s : Shard) {k : InstKey}

/-- Whether the book held under a key is crossed. -/
def crossedAt (k : InstKey) : Bool := (s.instruments[k]?).any Instrument.crossed

theorem crossedAt_setInst (k k' : InstKey) (i : Instrument) :
    (s.setInst k i).crossedAt k' = if k = k' then i.crossed else s.crossedAt k' := by
  rw [crossedAt, getElem?_setInst]
  split <;> rfl

/-! ## What an operation on one instrument leaves -/

/-- What an operation on the instrument under `k` leaves: the monitoring state, the other
instruments' books, and its own unless it reports a change. -/
structure Leaves (k : InstKey) (s : Shard) (r : Shard × List ChannelEvent) : Prop where
  crossed : r.1.crossed = s.crossed
  touched : r.1.touched = s.touched
  batching : r.1.sawBatchBoundary = s.sawBatchBoundary
  held : ∀ k' : InstKey, (s.instruments[k']?).isSome → (r.1.instruments[k']?).isSome
  others : ∀ k', k' ≠ k → r.1.crossedAt k' = s.crossedAt k'
  own : r.2.any isApplied = false → r.1.crossedAt k = s.crossedAt k

variable {s}

theorem Leaves.refl : s.Leaves k (s, []) :=
  ⟨rfl, rfl, rfl, fun _ h ↦ h, fun _ _ ↦ rfl, fun _ ↦ rfl⟩

theorem Leaves.trans {r r' : Shard × List ChannelEvent} (h : s.Leaves k r)
    (h' : r.1.Leaves k r') : s.Leaves k (r'.1, r.2 ++ r'.2) where
  crossed := h'.crossed.trans h.crossed
  touched := h'.touched.trans h.touched
  batching := h'.batching.trans h.batching
  held k' hk' := h'.held k' (h.held k' hk')
  others k' hk' := (h'.others k' hk').trans (h.others k' hk')
  own hevs := by
    rw [List.any_append, Bool.or_eq_false_iff] at hevs
    exact (h'.own hevs.2).trans (h.own hevs.1)

/-- An operation that leaves every book reports what it likes. -/
theorem Leaves.report {s' : Shard} (h : s.Leaves k (s', [])) (evs : List ChannelEvent) :
    s.Leaves k (s', evs) :=
  ⟨h.crossed, h.touched, h.batching, h.held, h.others, fun _ ↦ h.own rfl⟩

/-- An operation that leaves every book does so from the view of any instrument. -/
theorem Leaves.anywhere {s' : Shard} {k' : InstKey} (h : s.Leaves k' (s', [])) (k : InstKey) :
    s.Leaves k (s', []) := by
  have hall (x : InstKey) : s'.crossedAt x = s.crossedAt x := by
    by_cases hx : x = k'
    · exact hx ▸ h.own rfl
    · exact h.others x hx
  exact ⟨h.crossed, h.touched, h.batching, h.held, fun x _ ↦ hall x, fun _ ↦ hall k⟩

theorem Leaves.setInst {i : Instrument} {evs : List ChannelEvent}
    (h : evs.any isApplied = false → i.crossed = s.crossedAt k) :
    s.Leaves k (s.setInst k i, evs) where
  crossed := rfl
  touched := rfl
  batching := rfl
  held k' hk' := by
    rw [getElem?_setInst]
    split
    · rfl
    · exact hk'
  others k' hk' := by rw [crossedAt_setInst, if_neg (Ne.symm hk')]
  own hevs := by rw [crossedAt_setInst, if_pos rfl, h hevs]

/-- The instrument that is read or made under a key is crossed if the one held is. -/
theorem instrumentFor_crossed (k : InstKey) :
    (s.instrumentFor k).2.crossed = s.crossedAt k := by
  rw [instrumentFor, crossedAt]
  cases s.instruments[k]? with
  | none => exact Instrument.crossed_of_empty rfl
  | some i => rfl

theorem Leaves.instrumentFor (k' : InstKey) : s.Leaves k ((s.instrumentFor k').1, []) := by
  have hnew : s.Leaves k' ((s.instrumentFor k').1, []) := by
    rw [Shard.instrumentFor]
    cases h : s.instruments[k']? with
    | some i => exact Leaves.refl
    | none =>
        refine Leaves.setInst fun _ ↦ ?_
        rw [crossedAt, h]
        exact Instrument.crossed_of_empty rfl
  exact hnew.anywhere k

/-- Buffering a delta may evict a buffer, and an eviction leaves the book of its victim. -/
theorem Leaves.bufferDelta (σ : MapOrder) (k' : InstKey) (rec : Record) :
    s.Leaves k (s.bufferDelta σ k' rec, []) := by
  rcases s.bufferDelta_cases σ k' rec with ⟨heq, -⟩ | ⟨victim, buf, -, -, heq⟩
  · rw [heq]
    exact ⟨rfl, rfl, rfl, fun _ h ↦ h, fun _ _ ↦ rfl, fun _ ↦ rfl⟩
  · rw [heq]
    have hfor : (s.enqueue k' rec).Leaves victim (((s.enqueue k' rec).instrumentFor victim).1, []) :=
      Leaves.instrumentFor victim
    have hset : (((s.enqueue k' rec).instrumentFor victim).1).Leaves victim
        ((((s.enqueue k' rec).instrumentFor victim).1).setInst victim
          (evictInstrument ((s.enqueue k' rec).instrumentFor victim).2 buf), []) := by
      refine Leaves.setInst fun _ ↦ ?_
      rw [Instrument.evictInstrument_crossed, instrumentFor_crossed]
      exact (hfor.own rfl).symm
    have hboth := (hfor.trans hset).anywhere k
    exact ⟨hboth.crossed, hboth.touched, hboth.batching, hboth.held, hboth.others, hboth.own⟩

theorem Leaves.bufferAll (σ : Choices) (k' : InstKey) (recs : List Record) :
    s.Leaves k (bufferAll σ s k' recs, []) := by
  induction recs generalizing σ s with
  | nil => exact Leaves.refl
  | cons rec recs ih => exact (Leaves.bufferDelta (σ.sub 0).here k' rec).trans (ih (σ.sub 1))

/-! ## Deltas -/

variable {i : Instrument} {rec : Record}

/-- A demotion leaves the book of its instrument as it finds it. -/
theorem Leaves.demoteMalformed (σ : Choices) {evs : List ChannelEvent}
    (hi : evs.any isApplied = false → i.crossed = s.crossedAt k) :
    s.Leaves k (s.demoteMalformed σ k i rec, evs) := by
  have hset : s.Leaves k (s.setInst k (i.demote rec.perInstrumentSeq), evs) :=
    Leaves.setInst fun hevs ↦ (i.demote_crossed _).trans (hi hevs)
  have hall := hset.trans (Leaves.bufferAll (σ.sub 0) k (heldRecords σ.here i))
  rwa [List.append_nil] at hall

theorem Leaves.applyContiguous (σ : Choices) (hi : i.crossed = s.crossedAt k) :
    s.Leaves k (s.applyContiguous σ k i rec) := by
  have happly := i.applyOne_cases rec
  rw [Shard.applyContiguous]
  generalize i.applyOne rec = r at happly ⊢
  obtain ⟨j, ev, err⟩ := r
  cases err with
  | some err =>
      rcases happly with ⟨hnone, -⟩ | ⟨-, hsame⟩
      · exact absurd hnone (Option.some_ne_none err)
      · exact Leaves.demoteMalformed σ fun _ ↦ hsame.trans hi
  | none =>
      rcases happly with ⟨-, hkind⟩ | ⟨hsome, -⟩
      · -- the event that leads says that the book changed, whatever the drain does behind it
        have happlied (evs : List ChannelEvent) : (ev :: evs).any isApplied ≠ false := by
          have hev : isApplied ev = true := by simp [isApplied, show ev.kind = _ from hkind]
          simp [hev]
        dsimp only
        rcases j.drainPending j.pendingSize with ⟨j', evs, lost⟩
        cases lost with
        | some pr => exact Leaves.demoteMalformed σ fun hevs ↦ absurd hevs (happlied evs)
        | none => exact Leaves.setInst fun hevs ↦ absurd hevs (happlied evs)
      · exact absurd rfl hsome

theorem Leaves.applyDeltaToReady (σ : Choices) (hi : i.crossed = s.crossedAt k) :
    s.Leaves k (s.applyDeltaToReady σ k i rec) := by
  simp only [Shard.applyDeltaToReady]
  split
  · exact Leaves.refl
  · split
    · exact Leaves.demoteMalformed σ fun _ ↦ hi
    · split
      · split
        · exact Leaves.setInst fun _ ↦ hi
        · have hgap : s.Leaves k
              (s.setInst k ((i.hold rec).declareGap rec.perInstrumentSeq), []) :=
            Leaves.setInst fun _ ↦ (Instrument.declareGap_crossed _ _).trans hi
          exact (hgap.trans (Leaves.bufferDelta σ.here k rec)).report _
      · exact Leaves.applyContiguous σ hi

theorem Leaves.applyDelta (σ : Choices) : s.Leaves k (s.applyDelta σ k rec) := by
  rw [Shard.applyDelta]
  cases h : s.instruments[k]? with
  | none => exact Leaves.bufferDelta σ.here k rec
  | some i =>
      dsimp only
      split
      · exact Leaves.bufferDelta σ.here k rec
      · refine Leaves.applyDeltaToReady σ ?_
        rw [crossedAt, h]
        rfl

theorem Leaves.replayLoop (σ : Choices) (bs : List BufferedDelta) :
    s.Leaves k (replayLoop σ s k bs) := by
  induction bs generalizing σ s with
  | nil => exact Leaves.refl
  | cons b bs ih =>
      rw [Shard.replayLoop]
      cases h : s.instruments[k]? with
      | none => exact Leaves.refl
      | some i =>
          dsimp only
          split
          · exact ih (σ.sub 1)
          · split
            · exact (Leaves.bufferDelta (σ.sub 0).here k b.record).trans (ih (σ.sub 1))
            · refine Leaves.trans (Leaves.applyDeltaToReady (σ.sub 0) ?_) (ih (σ.sub 1))
              rw [crossedAt, h]
              rfl

/-! ## The set of crossed books -/

/-- Every crossed book is held, and the set is right about the instruments that are not
touched. -/
structure CrossedKept (s : Shard) : Prop where
  held : ∀ k ∈ s.crossed, (s.instruments[k]?).isSome
  exact : ∀ k, k ∉ s.touched → (k ∈ s.crossed ↔ s.crossedAt k = true)

theorem CrossedKept.new (maxBuffered : ℤ) (symbols : Option (List String)) :
    (new maxBuffered symbols).CrossedKept := by
  refine ⟨fun k hk ↦ absurd hk (Finset.notMem_empty k), fun k _ ↦ ?_⟩
  simp [Shard.new, crossedAt]

/-- An operation that reports no change keeps the set right. -/
theorem CrossedKept.leaves {s' : Shard} (h : s.CrossedKept) (hleaves : s.Leaves k (s', [])) :
    s'.CrossedKept where
  held k' hk' := by
    rw [hleaves.crossed] at hk'
    exact hleaves.held k' (h.held k' hk')
  exact k' hk' := by
    rw [hleaves.touched] at hk'
    rw [hleaves.crossed, h.exact k' hk', ((hleaves.anywhere k').own rfl)]

/-- An operation whose change is noted keeps the set right: the book is evaluated, or marked for
the next boundary. -/
theorem CrossedKept.noteConsistencyPoint {r : Shard × List ChannelEvent} (h : s.CrossedKept)
    (hleaves : s.Leaves k r) : (r.1.noteConsistencyPoint k r.2).CrossedKept := by
  obtain ⟨s', evs⟩ := r
  dsimp only
  cases happlied : evs.any isApplied with
  | false =>
      rw [Shard.noteConsistencyPoint, if_neg (by rw [happlied]; exact Bool.noConfusion)]
      exact h.leaves ⟨hleaves.crossed, hleaves.touched, hleaves.batching, hleaves.held,
        hleaves.others, fun _ ↦ hleaves.own happlied⟩
  | true =>
      have hheld : ∀ k' ∈ s'.crossed, (s'.instruments[k']?).isSome := by
        intro k' hk'
        rw [hleaves.crossed] at hk'
        exact hleaves.held k' (h.held k' hk')
      have hothers : ∀ k', k' ≠ k → k' ∉ s'.touched →
          (k' ∈ s'.crossed ↔ s'.crossedAt k' = true) := by
        intro k' hk' htouched
        rw [hleaves.touched] at htouched
        rw [hleaves.crossed, h.exact k' htouched, hleaves.others k' hk']
      rw [Shard.noteConsistencyPoint, if_pos happlied]
      cases hk : s'.instruments[k]? with
      | none =>
          -- an instrument that is gone was not held before, and is in neither set
          refine ⟨hheld, fun k' htouched ↦ ?_⟩
          by_cases hk' : k' = k
          · subst hk'
            have hnot : k' ∉ s'.crossed := fun hin ↦ by simpa [hk] using hheld k' hin
            simp [hnot, crossedAt, hk]
          · exact hothers k' hk' htouched
      | some i =>
          dsimp only
          split
          next =>
              refine ⟨hheld, fun k' htouched ↦ ?_⟩
              rw [Finset.mem_insert, not_or] at htouched
              exact hothers k' htouched.1 htouched.2
          next =>
              have hat : s'.crossedAt k = i.crossed := by rw [crossedAt, hk]; rfl
              rw [evaluateCrossed]
              split
              next hcrossed =>
                  refine ⟨fun k' hk' ↦ ?_, fun k' htouched ↦ ?_⟩
                  · rcases Finset.mem_insert.mp hk' with rfl | hk'
                    · exact Option.isSome_iff_exists.mpr ⟨i, hk⟩
                    · exact hheld k' hk'
                  · by_cases hk' : k' = k
                    · subst hk'
                      exact iff_of_true (Finset.mem_insert_self k' _) (hat.trans hcrossed)
                    · rw [Finset.mem_insert, or_iff_right hk']
                      exact hothers k' hk' htouched
              next hcrossed =>
                  refine ⟨fun k' hk' ↦ hheld k' (Finset.mem_of_mem_erase hk'),
                    fun k' htouched ↦ ?_⟩
                  by_cases hk' : k' = k
                  · subst hk'
                    exact iff_of_false (Finset.notMem_erase k' _) fun hin ↦
                      hcrossed (hat.symm.trans hin)
                  · rw [Finset.mem_erase, and_iff_right hk']
                    exact hothers k' hk' htouched

/-! ## Records -/

theorem CrossedKept.congr {s' : Shard} (h : s.CrossedKept) (hcrossed : s'.crossed = s.crossed)
    (htouched : s'.touched = s.touched) (hinstruments : s'.instruments = s.instruments) :
    s'.CrossedKept where
  held k' hk' := by
    rw [hcrossed] at hk'
    rw [hinstruments]
    exact h.held k' hk'
  exact k' hk' := by
    rw [htouched] at hk'
    rw [hcrossed, crossedAt, hinstruments]
    exact h.exact k' hk'

/-- The end of a snapshot is an operation whose change is noted. -/
theorem Leaves.applySnapshotEnd (σ : Choices) (s : Shard) (k : InstKey) (rec : Record) :
    ∃ r, s.Leaves k r ∧
      s.applySnapshotEnd σ k rec = (r.1.noteConsistencyPoint k r.2, r.2) := by
  rcases s.applySnapshotEnd_cases σ k rec with
    ⟨-, heq⟩ | ⟨i, p, hk, -, ⟨err, herr, heq⟩ | ⟨-, evs, hevs, heq⟩⟩
  · exact ⟨(s, []), Leaves.refl, heq⟩
  · refine ⟨(s.setInst k (i.snapshotEnd rec).1, []), Leaves.setInst fun _ ↦ ?_, heq⟩
    rw [Instrument.snapshotEnd_of_err herr, crossedAt, hk]
    rfl
  · have hset : s.Leaves k (s.setInst k (i.snapshotEnd rec).1,
        [⟨.appliedSnapshot, k.id, (i.snapshotEnd rec).1.symbol, rec⟩]) :=
      Leaves.setInst fun happlied ↦ absurd happlied (by simp [isApplied])
    have htake : (s.setInst k (i.snapshotEnd rec).1).Leaves k
        ((s.setInst k (i.snapshotEnd rec).1).takeBuffer k, []) :=
      ⟨rfl, rfl, rfl, fun _ h ↦ h, fun _ _ ↦ rfl, fun _ ↦ rfl⟩
    have hreplay := (hset.trans htake).trans
      (Leaves.replayLoop σ ((s.setInst k (i.snapshotEnd rec).1).buffered k))
    rw [hevs] at heq
    exact ⟨_, hreplay, heq⟩

theorem CrossedKept.applySnapshotEnd (h : s.CrossedKept) (σ : Choices) :
    (s.applySnapshotEnd σ k rec).1.CrossedKept := by
  obtain ⟨r, hleaves, heq⟩ := Leaves.applySnapshotEnd σ s k rec
  rw [heq]
  exact h.noteConsistencyPoint hleaves

theorem CrossedKept.applySnapshotBegin (h : s.CrossedKept) :
    (s.applySnapshotBegin k rec).CrossedKept := by
  have hfor : s.Leaves k ((s.instrumentFor k).1, []) := Leaves.instrumentFor k
  refine (h.leaves hfor).leaves (k := k) (Leaves.setInst fun _ ↦ ?_)
  exact (Instrument.snapshotBegin_crossed _ rec).trans
    ((instrumentFor_crossed k).trans (hfor.own rfl).symm)

/-- What a reset writes: an empty book, and both sets without the instrument. -/
theorem applyInstrumentReset_frame (s : Shard) (k : InstKey) (rec : Record) :
    (s.applyInstrumentReset k rec).1.crossed = s.crossed.erase k ∧
      (s.applyInstrumentReset k rec).1.touched = s.touched.erase k ∧
      (s.applyInstrumentReset k rec).1.instruments = ((s.instrumentFor k).1.setInst k
        ((s.instrumentFor k).2.reset (some (toUint64 rec.fields.newAnchorSeq)))).instruments := by
  have hfor : s.Leaves k ((s.instrumentFor k).1, []) := Leaves.instrumentFor k
  rw [← hfor.crossed, ← hfor.touched]
  simp only [Shard.applyInstrumentReset]
  split <;> exact ⟨rfl, rfl, rfl⟩

/-- A reset empties the book of its instrument and takes it out of both sets. -/
theorem CrossedKept.applyInstrumentReset (h : s.CrossedKept) :
    (s.applyInstrumentReset k rec).1.CrossedKept := by
  obtain ⟨hcrossed, htouched, hinstruments⟩ := s.applyInstrumentReset_frame k rec
  have hfor : s.Leaves k ((s.instrumentFor k).1, []) := Leaves.instrumentFor k
  have hget (k' : InstKey) (hk' : k' ≠ k) :
      (s.applyInstrumentReset k rec).1.instruments[k']? = s.instruments[k']? := by
    rw [hinstruments, getElem?_setInst, if_neg (Ne.symm hk'),
      getElem?_instrumentFor_ne s (Ne.symm hk')]
  have hself : (s.applyInstrumentReset k rec).1.crossedAt k = false := by
    rw [crossedAt, hinstruments, getElem?_setInst, if_pos rfl]
    have hempty : ((s.instrumentFor k).2.reset
      (some (toUint64 rec.fields.newAnchorSeq))).bids = ∅ := rfl
    exact Instrument.crossed_of_empty hempty
  refine ⟨fun k' hk' ↦ ?_, fun k' hk' ↦ ?_⟩
  · rw [hcrossed, Finset.mem_erase] at hk'
    rw [hget k' hk'.1]
    exact h.held k' hk'.2
  · rw [htouched, Finset.mem_erase, not_and] at hk'
    rw [hcrossed, Finset.mem_erase]
    by_cases hsame : k' = k
    · subst hsame
      exact iff_of_false (fun hin ↦ hin.1 rfl) (by rw [hself]; exact Bool.noConfusion)
    · rw [and_iff_right hsame, crossedAt, hget k' hsame]
      exact h.exact k' (hk' hsame)

/-- A boundary evaluates every touched book. -/
theorem CrossedKept.applyBatchBoundary (h : s.CrossedKept) :
    (s.applyBatchBoundary rec).1.CrossedKept := by
  have hat (k : InstKey) : (s.applyBatchBoundary rec).1.crossedAt k = s.crossedAt k := rfl
  have hmem (k : InstKey) : k ∈ (s.applyBatchBoundary rec).1.crossed ↔
      (k ∈ s.crossed ∧ ¬(k ∈ s.touched ∧ (s.instruments[k]?).isSome)) ∨
        (k ∈ s.touched ∧ s.crossedAt k = true) := by
    simp [Shard.applyBatchBoundary, crossedAt]
  have hheld (k : InstKey) (hk : s.crossedAt k = true) : (s.instruments[k]?).isSome := by
    rw [crossedAt] at hk
    cases hinst : s.instruments[k]? with
    | none => simp [hinst] at hk
    | some i => rfl
  refine ⟨fun k hk ↦ ?_, fun k _ ↦ ?_⟩
  · rcases (hmem k).mp hk with hk | hk
    · exact h.held k hk.1
    · exact hheld k hk.2
  · rw [hmem, hat]
    by_cases htouched : k ∈ s.touched
    · constructor
      · rintro (⟨hcrossed, hnot⟩ | ⟨-, hcrossed⟩)
        · exact absurd ⟨htouched, h.held k hcrossed⟩ hnot
        · exact hcrossed
      · exact fun hcrossed ↦ Or.inr ⟨htouched, hcrossed⟩
    · rw [← h.exact k htouched]
      exact ⟨fun hor ↦ hor.elim And.left fun hin ↦ absurd hin.1 htouched,
        fun hk ↦ Or.inl ⟨hk, fun hin ↦ htouched hin.1⟩⟩

theorem CrossedKept.apply (h : s.CrossedKept) (σ : Choices) (rec : Record) :
    (s.apply σ rec).1.CrossedKept := by
  simp only [Shard.apply]
  cases rec.type with
  | instrumentDefinition =>
      have hrefdata : ({ s with refdata := s.refdata.insert rec.key rec.definition } :
        Shard).CrossedKept := h.congr rfl rfl rfl
      refine hrefdata.leaves (k := rec.key) (Leaves.setInst fun _ ↦ ?_)
      rw [crossedAt]
      cases s.instruments[rec.key]? with
      | none => exact Instrument.crossed_of_empty rfl
      | some i => rfl
  | strikeInterval =>
      simp only [applyStrikeInterval]
      split
      · exact h
      · exact h.congr rfl rfl rfl
  | snapshotBegin => exact h.applySnapshotBegin
  | snapshotLevel =>
      simp only [applySnapshotLevel]
      cases hk : s.instruments[rec.key]? with
      | none => exact h
      | some i =>
          refine h.leaves (k := rec.key) (Leaves.setInst fun _ ↦ ?_)
          rw [Instrument.snapshotLevel_crossed, crossedAt, hk]
          rfl
  | snapshotEnd => exact h.applySnapshotEnd σ
  | levelUpdate | bookClear => exact h.noteConsistencyPoint (Leaves.applyDelta σ)
  | instrumentReset => exact h.applyInstrumentReset
  | batchBoundary => exact h.applyBatchBoundary
  | trade | liquidation | heartbeat | manifestSummary | endOfSession | other => exact h

/-! ## Prunes, channel resets and shadow clears -/

/-- A shard that keeps only some of the instruments, and forgets the others in both sets. -/
theorem CrossedKept.restrict {s' : Shard} (h : s.CrossedKept) (keep : InstKey → Prop)
    (hcrossed : ∀ k, k ∈ s'.crossed ↔ k ∈ s.crossed ∧ keep k)
    (htouched : ∀ k, keep k → k ∈ s.touched → k ∈ s'.touched)
    (hkept : ∀ k, keep k → s'.instruments[k]? = s.instruments[k]?)
    (hgone : ∀ k, ¬keep k → s'.instruments[k]? = none) : s'.CrossedKept where
  held k hk := by
    obtain ⟨hk, hkeep⟩ := (hcrossed k).mp hk
    rw [hkept k hkeep]
    exact h.held k hk
  exact k hk := by
    by_cases hkeep : keep k
    · rw [hcrossed, and_iff_left hkeep, crossedAt, hkept k hkeep]
      exact h.exact k fun hin ↦ hk (htouched k hkeep hin)
    · rw [hcrossed, crossedAt, hgone k hkeep]
      exact iff_of_false (fun hin ↦ hkeep hin.2) Bool.noConfusion

theorem CrossedKept.dropInstrument (h : s.CrossedKept) (k : InstKey) :
    (s.dropInstrument k).CrossedKept := by
  refine h.restrict (· ≠ k) (fun k' ↦ ?_) (fun k' hk' hin ↦ ?_) (fun k' hk' ↦ ?_) fun k' hk' ↦ ?_
  · exact Finset.mem_erase.trans and_comm
  · exact Finset.mem_erase.mpr ⟨hk', hin⟩
  · exact getElem?_erase_ne (Ne.symm hk')
  · obtain rfl := not_not.mp hk'
    exact ExtTreeMap.getElem?_erase_self

theorem CrossedKept.foldl {f : Shard → InstKey → Shard}
    (hf : ∀ s k, CrossedKept s → (f s k).CrossedKept) (h : s.CrossedKept) (ks : List InstKey) :
    (ks.foldl f s).CrossedKept :=
  run_induction (P := CrossedKept) ks h fun s k _ hs ↦ hf s k hs

theorem CrossedKept.resetChannel (h : s.CrossedKept) (ch : ℕ) :
    (s.resetChannel ch).CrossedKept := by
  have hbuffers : ((s.deltaBuf.keys.filter fun k ↦ k.ch = ch).foldl takeBuffer s).CrossedKept :=
    h.foldl (f := takeBuffer) (fun _ _ hs ↦ hs.congr rfl rfl rfl) _
  refine hbuffers.restrict (·.ch ≠ ch) (fun k ↦ ?_) (fun k hk hin ↦ ?_) (fun k hk ↦ ?_)
    fun k hk ↦ ?_
  · exact Finset.mem_filter
  · exact Finset.mem_filter.mpr ⟨hin, hk⟩
  · rw [Shard.resetChannel, ExtTreeMap.getElem?_filter', decide_eq_true hk]
    cases ((s.deltaBuf.keys.filter fun k ↦ k.ch = ch).foldl takeBuffer s).instruments[k]? <;> rfl
  · simp [Shard.resetChannel, not_not.mp hk]

theorem CrossedKept.clearShadows (h : s.CrossedKept) : s.clearShadows.CrossedKept := by
  have hget (k : InstKey) : s.clearShadows.instruments[k]? =
      (s.instruments[k]?).map fun i ↦ { i with openSnapshot := none } := by
    simp [Shard.clearShadows]
  refine ⟨fun k hk ↦ ?_, fun k hk ↦ ?_⟩
  · rw [hget, Option.isSome_map]
    exact h.held k hk
  · have hat : s.clearShadows.crossedAt k = s.crossedAt k := by
      rw [crossedAt, hget, Option.any_map]
      rfl
    rw [hat]
    exact h.exact k hk

theorem CrossedKept.step (h : s.CrossedKept) (a : Turn) : (s.step a).CrossedKept := by
  obtain ⟨σ, msg⟩ := a
  cases msg with
  | record rec => exact h.apply σ rec
  | reset ch => exact h.resetChannel ch
  | fence => exact h
  | manifestPrune seq =>
      simp only [Shard.step, pruneManifest]
      split
      · exact h
      · exact h.foldl (fun _ k hs ↦ hs.dropInstrument k) _
  | clearShadows => exact h.clearShadows

theorem crossedKept_run (maxBuffered : ℤ) (symbols : Option (List String)) (as : List Turn) :
    (run Shard.step (new maxBuffered symbols) as).CrossedKept :=
  run_induction as (CrossedKept.new maxBuffered symbols) fun _ a _ hs ↦ hs.step a

/-! ## The gauge -/

/-- Whether noting a consistency point evaluates the book: a change was reported, and the shard
has seen no boundary. -/
def evaluates (s : Shard) (k : InstKey) (evs : List ChannelEvent) : Bool :=
  evs.any isApplied && (s.instruments[k]?).isSome && !s.sawBatchBoundary

/-- Whether a record makes the shard publish its gauge of crossed books. -/
def recordPublishes (σ : Choices) (s : Shard) (rec : Record) : Bool :=
  match rec.type with
  | .snapshotEnd | .levelUpdate | .bookClear =>
      (s.apply σ rec).1.evaluates rec.key (s.apply σ rec).2
  | .instrumentReset => true
  | .batchBoundary => decide (∃ k ∈ s.touched, (s.instruments[k]?).isSome)
  | _ => false

/-- Whether a turn makes the shard publish its gauge of crossed books. -/
def publishesCrossed (s : Shard) (a : Turn) : Bool :=
  match a.2 with
  | .record rec => s.recordPublishes a.1 rec
  | .reset _ => true
  | .manifestPrune seq => decide (1 < seq)
  | .fence | .clearShadows => false

/-- The gauge after a turn: what is published last is the set at the end of the turn. -/
def crossedGauge (s : Shard) (gauge : ℕ) (a : Turn) : ℕ :=
  if s.publishesCrossed a then (s.step a).crossed.card else gauge

theorem crossed_note_of_quiet {evs : List ChannelEvent} (h : s.evaluates k evs = false) :
    (s.noteConsistencyPoint k evs).crossed = s.crossed := by
  rw [noteConsistencyPoint]
  split
  next happlied =>
      cases hk : s.instruments[k]? with
      | none => rfl
      | some i =>
          have hsaw : s.sawBatchBoundary = true := by simpa [evaluates, happlied, hk] using h
          simp [hsaw]
  next => rfl

@[simp] theorem evaluates_note (k' : InstKey) (evs evs' : List ChannelEvent) :
    (s.noteConsistencyPoint k evs').evaluates k' evs = s.evaluates k' evs := by
  obtain ⟨touched, crossed, heq⟩ := s.noteConsistencyPoint_frame k evs'
  rw [heq]
  rfl

/-- A record that does not publish the gauge leaves the set it counts. -/
theorem crossed_apply_of_quiet (σ : Choices) (h : s.recordPublishes σ rec = false) :
    (s.apply σ rec).1.crossed = s.crossed := by
  have hnoted (hquiet : (s.apply σ rec).1.evaluates rec.key (s.apply σ rec).2 = false)
      (hrec : ∃ r, s.Leaves rec.key r ∧
        s.apply σ rec = (r.1.noteConsistencyPoint rec.key r.2, r.2)) :
      (s.apply σ rec).1.crossed = s.crossed := by
    obtain ⟨r, hleaves, heq⟩ := hrec
    rw [heq] at hquiet ⊢
    rw [evaluates_note] at hquiet
    exact (crossed_note_of_quiet hquiet).trans hleaves.crossed
  cases htype : rec.type with
  | snapshotEnd =>
      refine hnoted (by simpa only [recordPublishes, htype] using h) ?_
      simp only [apply, htype]
      exact Leaves.applySnapshotEnd σ s rec.key rec
  | levelUpdate | bookClear =>
      refine hnoted (by simpa only [recordPublishes, htype] using h)
        ⟨s.applyDelta σ rec.key rec, Leaves.applyDelta σ, ?_⟩
      simp only [apply, htype]
  | instrumentReset => simp [recordPublishes, htype] at h
  | batchBoundary =>
      have hnone (k : InstKey) (hk : k ∈ s.touched) : s.instruments[k]? = none := by
        have hnot : ¬∃ k ∈ s.touched, (s.instruments[k]?).isSome := by
          simpa only [recordPublishes, htype, decide_eq_false_iff_not] using h
        exact Option.not_isSome_iff_eq_none.mp fun hsome ↦ hnot ⟨k, hk, hsome⟩
      ext k
      simp only [apply, htype, Shard.applyBatchBoundary, Finset.mem_union, Finset.mem_filter]
      constructor
      · rintro (hk | hk)
        · exact hk.1
        · rw [hnone k hk.1] at hk
          exact absurd hk.2 Bool.noConfusion
      · refine fun hk ↦ Or.inl ⟨hk, fun hin ↦ ?_⟩
        rw [hnone k hin.1] at hin
        exact Bool.noConfusion hin.2
  | snapshotBegin =>
      simp only [apply, htype]
      exact (Leaves.instrumentFor (s := s) (k := rec.key) rec.key).crossed
  | snapshotLevel =>
      simp only [apply, htype, applySnapshotLevel]
      split <;> rfl
  | strikeInterval =>
      simp only [apply, htype, applyStrikeInterval]
      split <;> rfl
  | instrumentDefinition | trade | liquidation | heartbeat | manifestSummary | endOfSession
  | other => simp only [apply, htype, applyInstrumentDefinition, setInst]

theorem crossed_step_of_quiet {a : Turn} (h : s.publishesCrossed a = false) :
    (s.step a).crossed = s.crossed := by
  obtain ⟨σ, msg⟩ := a
  cases msg with
  | record rec => exact crossed_apply_of_quiet σ h
  | reset ch => exact absurd h Bool.noConfusion
  | fence | clearShadows => rfl
  | manifestPrune seq =>
      have hle : seq ≤ 1 := by simpa [publishesCrossed] using h
      simp only [Shard.step, pruneManifest, if_pos hle]

/-- The gauge shows how many instruments the set holds. -/
theorem crossedGauge_run (maxBuffered : ℤ) (symbols : Option (List String)) (as : List Turn) :
    ghost Shard.step crossedGauge (new maxBuffered symbols) 0 as =
      (run Shard.step (new maxBuffered symbols) as).crossed.card := by
  refine run_ghost (P := fun (s : Shard) gauge ↦ gauge = s.crossed.card) as rfl
    fun pre a _ hgauge ↦ ?_
  rw [crossedGauge]
  split
  next => rfl
  next hquiet => rw [hgauge, crossed_step_of_quiet (by simpa using hquiet)]

/-- The number of crossed books among those that a shard holds. -/
def crossedBooks (s : Shard) : ℕ := countOf (fun _ i ↦ i.crossed) s.instruments

theorem crossedAt_iff (k : InstKey) :
    s.crossedAt k = true ↔ ∃ i, s.instruments[k]? = some i ∧ i.crossed = true := by
  rw [crossedAt, Option.any_eq_true]

theorem CrossedKept.card (h : s.CrossedKept) (htouched : s.touched = ∅) :
    s.crossed.card = s.crossedBooks := by
  refine (countOf_eq_card _ fun k ↦ ?_).symm
  rw [h.exact k (by rw [htouched]; exact Finset.notMem_empty k), crossedAt_iff]

/-- In every reachable state the crossed set holds instruments that the shard holds, and of those
that are not touched exactly the crossed ones; directly after a boundary the gauge shows the number
of crossed books. -/
theorem crossed_accounted (maxBuffered : ℤ) (symbols : Option (List String)) (as : List Turn) :
    (∀ k ∈ (run Shard.step (new maxBuffered symbols) as).crossed,
        ((run Shard.step (new maxBuffered symbols) as).instruments[k]?).isSome) ∧
      (∀ k i, (run Shard.step (new maxBuffered symbols) as).instruments[k]? = some i →
        k ∉ (run Shard.step (new maxBuffered symbols) as).touched →
        (k ∈ (run Shard.step (new maxBuffered symbols) as).crossed ↔ i.crossed = true)) ∧
      ∀ (σ : Choices) (rec : Record), rec.type = .batchBoundary →
        ghost Shard.step crossedGauge (new maxBuffered symbols) 0 (as ++ [(σ, .record rec)]) =
          (run Shard.step (new maxBuffered symbols) (as ++ [(σ, .record rec)])).crossedBooks := by
  have hkept := crossedKept_run maxBuffered symbols as
  refine ⟨hkept.held, fun k i hk htouched ↦ ?_, fun σ rec htype ↦ ?_⟩
  · rw [hkept.exact k htouched, crossedAt, hk]
    rfl
  · rw [crossedGauge_run]
    refine (crossedKept_run maxBuffered symbols _).card ?_
    rw [run_snoc]
    simp only [Shard.step, Shard.apply, htype]
    rfl

end Shard

end EdgeMulticast.MarketByPrice
