import EdgeMulticast.MarketByPrice.Runs

/-!
# The accounting of the delta buffer

`bufferedN` is kept as a running total, so that an overflow costs one comparison to detect.
Every write that changes a buffer therefore has to change the total by the same amount.  The
writes are few: a delta is put in place, a buffer is evicted, taken out for a replay, filtered
by a reset, or dropped with its instrument.
-/

namespace EdgeMulticast.MarketByPrice

open Std (ExtTreeMap)
open EdgeMulticast.Lib

namespace Shard

variable {s s' : Shard} {k : InstKey}

/-- The running total is right and within the budget. -/
structure Accounted (s : Shard) : Prop where
  total : s.bufferedN = tally List.length s.deltaBuf
  budget : s.bufferedN ≤ s.maxBuffered

theorem insertDelta_length (buf : List BufferedDelta) (d : BufferedDelta) :
    (insertDelta buf d).length = buf.length + 1 := (insertDelta_perm buf d).length_eq

/-- A missing buffer measures nothing. -/
theorem length_buffered (s : Shard) (k : InstKey) :
    (s.deltaBuf[k]?).elim 0 List.length = (s.buffered k).length := by
  rw [buffered]
  cases s.deltaBuf[k]? <;> rfl

theorem enqueue_total (h : s.Accounted) (rec : Record) :
    (s.enqueue k rec).bufferedN = tally List.length (s.enqueue k rec).deltaBuf := by
  have htally := tally_insert List.length s.deltaBuf k
    (insertDelta (s.buffered k) ⟨rec.sequenceNumber, rec⟩)
  have htotal := h.total
  rw [length_buffered, insertDelta_length] at htally
  simp only [enqueue]
  omega

theorem bufferDelta_accounted (σ : MapOrder) (h : s.Accounted) (rec : Record) :
    (s.bufferDelta σ k rec).Accounted := by
  have htotal := enqueue_total (k := k) h rec
  have hone : (s.enqueue k rec).bufferedN = s.bufferedN + 1 := rfl
  have hbudget := h.budget
  rcases s.bufferDelta_cases σ k rec with ⟨heq, hfit⟩ | ⟨victim, buf, hbuf, hne, heq⟩ <;> rw [heq]
  · refine ⟨htotal, ?_⟩
    rcases hfit with hfit | hempty
    · exact hfit
    · have hself : (s.enqueue k rec).deltaBuf[k]? =
          some (insertDelta (s.buffered k) ⟨rec.sequenceNumber, rec⟩) := by
        rw [enqueue, getElem?_insert_eq, if_pos rfl]
      have hlength := congrArg List.length (hempty k _ hself)
      rw [insertDelta_length] at hlength
      exact absurd hlength (by simp)
  · have herase := tally_erase List.length (s.enqueue k rec).deltaBuf victim
    have hlength := List.length_pos_iff.mpr hne
    rw [hbuf, Option.elim_some] at herase
    constructor
    · change (s.enqueue k rec).bufferedN - buf.length = tally _ ((s.enqueue k rec).deltaBuf.erase _)
      omega
    · have hmax : ((s.enqueue k rec).evicted victim buf).maxBuffered = s.maxBuffered := by
        simp [evicted, enqueue]
      rw [hmax]
      change (s.enqueue k rec).bufferedN - buf.length ≤ s.maxBuffered
      omega

theorem setInst_accounted (h : s.Accounted) (i : Instrument) : (s.setInst k i).Accounted :=
  ⟨h.total, h.budget⟩

theorem instrumentFor_accounted (h : s.Accounted) : (s.instrumentFor k).1.Accounted := by
  rcases s.instrumentFor_fst k with heq | heq <;> rw [heq]
  · exact h
  · exact setInst_accounted h _

theorem takeBuffer_accounted (h : s.Accounted) : (s.takeBuffer k).Accounted := by
  have herase := tally_erase List.length s.deltaBuf k
  have htotal := h.total
  have hbudget := h.budget
  rw [length_buffered] at herase
  constructor
  · simp only [takeBuffer]
    omega
  · change s.bufferedN - (s.buffered k).length ≤ s.maxBuffered
    omega

end Shard

theorem Work.accounted {Q : Record → Prop} {k : InstKey} {s s' : Shard} (h : Work Q k s s')
    (hs : s.Accounted) : s'.Accounted := by
  cases h with
  | turn => exact Shard.setInst_accounted hs _
  | buffer σ => exact Shard.bufferDelta_accounted σ hs _

theorem Works.accounted {Q : Record → Prop} {k : InstKey} {s s' : Shard} (h : Works Q k s s')
    (hs : s.Accounted) : s'.Accounted := by
  induction h with
  | refl => exact hs
  | tail _ hwork ih => exact hwork.accounted ih

namespace Shard

variable {s : Shard} {k : InstKey} {rec : Record}

theorem dropInstrument_accounted (h : s.Accounted) : (s.dropInstrument k).Accounted :=
  ⟨(takeBuffer_accounted (k := k) h).total, (takeBuffer_accounted (k := k) h).budget⟩

theorem foldl_accounted {f : Shard → InstKey → Shard}
    (hf : ∀ s k, s.Accounted → (f s k).Accounted) (ks : List InstKey) (h : s.Accounted) :
    (ks.foldl f s).Accounted :=
  run_induction (P := Accounted) ks h fun s k _ hs ↦ hf s k hs

theorem noteConsistencyPoint_accounted (h : s.Accounted) (evs : List ChannelEvent) :
    (s.noteConsistencyPoint k evs).Accounted := by
  obtain ⟨touched, crossed, heq⟩ := s.noteConsistencyPoint_frame k evs
  rw [heq]
  exact ⟨h.total, h.budget⟩

/-- A reset takes the superseded deltas out of the buffer and out of the total. -/
theorem applyInstrumentReset_accounted (h : s.Accounted) :
    (s.applyInstrumentReset k rec).1.Accounted := by
  have hbuffered : ((s.instrumentFor k).1.setInst k
      ((s.instrumentFor k).2.reset (some (toUint64 rec.fields.newAnchorSeq)))).buffered k =
        s.buffered k := by
    simp [buffered]
  have htotal := h.total
  have hbudget := h.budget
  have herase := tally_erase List.length s.deltaBuf k
  have hinsert := tally_insert List.length s.deltaBuf k
    (filterBuffer (toUint64 rec.fields.newAnchorSeq) (s.buffered k))
  have hlength : (filterBuffer (toUint64 rec.fields.newAnchorSeq) (s.buffered k)).length ≤
    (s.buffered k).length := List.length_filter_le ..
  rw [length_buffered] at herase hinsert
  simp only [applyInstrumentReset, hbuffered]
  split
  next hempty =>
    rw [List.isEmpty_iff] at hempty
    rw [hempty]
    constructor <;> simp <;> omega
  next =>
    constructor <;> simp <;> omega

theorem applySnapshotEnd_accounted {Q : Record → Prop} (σ : Choices) (hs : s.Holds Q k)
    (h : s.Accounted) : (s.applySnapshotEnd σ k rec).1.Accounted := by
  rcases s.applySnapshotEnd_cases σ k rec with
    ⟨-, heq⟩ | ⟨i, p, -, hopen, ⟨err, -, heq⟩ | ⟨hcommit, evs, -, heq⟩⟩ <;> rw [heq]
  · exact h
  · exact setInst_accounted h _
  · have hcommit' := (Instrument.snapshotEnd_eq_none_iff rec hopen).mp hcommit
    refine noteConsistencyPoint_accounted ?_ evs
    exact (replayBuffer_works σ hs hopen hcommit').accounted
      (takeBuffer_accounted (setInst_accounted h _))

theorem apply_accounted {Q : Record → Prop} (σ : Choices) (rec : Record)
    (hs : s.Holds Q rec.key) (own : rec.isDelta → Q rec) (h : s.Accounted) :
    (s.apply σ rec).1.Accounted := by
  simp only [apply]
  cases htype : rec.type with
  | instrumentDefinition =>
      have hrefdata : ({ s with refdata := s.refdata.insert rec.key rec.definition } :
        Shard).Accounted := ⟨h.total, h.budget⟩
      exact setInst_accounted hrefdata _
  | strikeInterval =>
      simp only [applyStrikeInterval]
      split
      · exact h
      · exact ⟨h.total, h.budget⟩
  | snapshotBegin => exact setInst_accounted (instrumentFor_accounted h) _
  | snapshotLevel =>
      simp only [applySnapshotLevel]
      split
      · exact h
      · exact setInst_accounted h _
  | snapshotEnd => exact applySnapshotEnd_accounted σ hs h
  | levelUpdate | bookClear =>
      have hdelta : rec.isDelta = true := by simp [Record.isDelta, htype]
      exact noteConsistencyPoint_accounted ((applyDelta_works σ hs (own hdelta)).accounted h) _
  | instrumentReset => exact applyInstrumentReset_accounted h
  | batchBoundary => exact ⟨h.total, h.budget⟩
  | trade | liquidation | heartbeat | manifestSummary | endOfSession | other => exact h

theorem step_accounted {Q : InstKey → Record → Prop} (hs : ∀ k, s.Holds (Q k) k) {a : Turn}
    (own : ∀ rec, a.2 = .record rec → rec.isDelta → Q rec.key rec) (h : s.Accounted) :
    (s.step a).Accounted := by
  obtain ⟨σ, msg⟩ := a
  cases msg with
  | record rec => exact apply_accounted σ rec (hs rec.key) (own rec rfl) h
  | reset ch =>
      have := foldl_accounted (f := takeBuffer) (fun _ _ ↦ takeBuffer_accounted)
        (s.deltaBuf.keys.filter fun k ↦ k.ch = ch) h
      exact ⟨this.total, this.budget⟩
  | fence => exact h
  | manifestPrune seq =>
      simp only [step, pruneManifest]
      split
      · exact h
      · exact foldl_accounted (fun _ _ ↦ dropInstrument_accounted) _ h
  | clearShadows => exact ⟨h.total, h.budget⟩

theorem new_accounted {maxBuffered : ℤ} (symbols : Option (List String))
    (budget : 0 ≤ maxBuffered) : (new maxBuffered symbols).Accounted :=
  ⟨by simp [new], budget⟩

/-- The running total is right, and within the budget, in every reachable state. -/
theorem run_accounted {maxBuffered : ℤ} (symbols : Option (List String))
    (budget : 0 ≤ maxBuffered) (as : List Turn) :
    (run step (new maxBuffered symbols) as).Accounted := by
  refine (run_induction
    (P := fun s : Shard ↦ s.Accounted ∧ ∀ k, s.Holds (fun _ ↦ True) k) as
    ⟨new_accounted symbols budget, fun k ↦ new_holds maxBuffered symbols _ k⟩ ?_).1
  rintro s a - ⟨h, hs⟩
  exact ⟨step_accounted hs (fun _ _ _ ↦ trivial) h,
    step_holds (Q := fun _ _ ↦ True) hs fun _ _ _ ↦ trivial⟩

end Shard

end EdgeMulticast.MarketByPrice
