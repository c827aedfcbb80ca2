import EdgeMulticast.MarketByPrice.Moves

/-!
# A shard seen from one instrument

`Shard.view` projects a shard to what it knows of one instrument.  A message acts on the view
as a function of the view alone (`View.act`), except for two things that it leaves to a run of
moves behind it: the classification of deltas, whose moves `Transition` lists, and the eviction
of the instrument's own buffer while the shard serves any instrument.

`step_moves` is the simulation: the shard's step, seen from any instrument, is the action of
the message followed by moves.  An invariant of one instrument is proved by checking the action
and each move once, and holds of every run (`run_view`).
-/

namespace EdgeMulticast.MarketByPrice

open Std (ExtTreeMap)
open EdgeMulticast.Lib

/-- What a shard knows of one instrument. -/
@[ext] structure View where
  inst : Option Instrument
  refdata : Option InstrumentDef
  buf : Option (List BufferedDelta)

namespace View

/-- Nothing is known. -/
def empty : View := ⟨none, none, none⟩

/-- The instrument, created from its definition when there is none. -/
def instrumentFor (v : View) (id : ℕ) : Instrument :=
  match v.inst with
  | some i => i
  | none =>
      let d := v.refdata.getD default
      Instrument.new id d.symbol d.priceExponent d.qtyExponent

/-! ## Moves -/

/-- One move of an instrument. -/
inductive Move (Q : Record → Prop) (id : ℕ) : View → View → Prop
  | /-- The instrument is ready and a delta is classified. -/
    turn {v i i'} (here : v.inst = some i) (transition : Transition Q i i') :
      Move Q id v { v with inst := some i' }
  | /-- The instrument is not ready and a delta is buffered. -/
    buffer {v rec} (own : Q rec) (idle : ∀ i, v.inst = some i → i.status ≠ .ready) :
      Move Q id v
        { v with buf := some (Shard.insertDelta (v.buf.getD []) ⟨rec.sequenceNumber, rec⟩) }
  | /-- The instrument holds a largest buffer, and the budget is exceeded. -/
    evict {v buf} (here : v.buf = some buf) :
      Move Q id v ⟨some (Shard.evictInstrument (v.instrumentFor id) buf), v.refdata, none⟩

/-- Any number of moves. -/
abbrev Moves (Q : Record → Prop) (id : ℕ) := Relation.ReflTransGen (Move Q id)

theorem Move.mono {Q Q' : Record → Prop} (hQ : ∀ r, Q r → Q' r) {id : ℕ} {v v' : View}
    (h : Move Q id v v') : Move Q' id v v' := by
  cases h with
  | turn here transition =>
      refine Move.turn here ?_
      cases transition with
      | hold ready own wf ahead near => exact Transition.hold ready (hQ _ own) wf ahead near
      | gap ready own wf ahead => exact Transition.gap ready (hQ _ own) wf ahead
      | demote ready own malformed => exact Transition.demote ready (hQ _ own) malformed
      | contiguous ready own wf next => exact Transition.contiguous ready (hQ _ own) wf next
  | buffer own idle => exact Move.buffer (hQ _ own) idle
  | evict here => exact Move.evict here

theorem Moves.mono {Q Q' : Record → Prop} (hQ : ∀ r, Q r → Q' r) {id : ℕ} {v v' : View}
    (h : Moves Q id v v') : Moves Q' id v v' := by
  induction h with
  | refl => exact Relation.ReflTransGen.refl
  | tail _ hmove ih => exact ih.tail (hmove.mono hQ)

/-- What the moves preserve. -/
theorem Moves.induction {Q : Record → Prop} {id : ℕ} {P : View → Prop} {v v' : View}
    (h : Moves Q id v v') (hv : P v) (next : ∀ v v', Move Q id v v' → P v → P v') : P v' := by
  induction h with
  | refl => exact hv
  | tail _ hmove ih => exact next _ _ hmove ih

/-! ## Actions -/

/-- What a record does to its own instrument, short of classifying deltas. -/
def record (v : View) (id : ℕ) (rec : Record) : View :=
  match rec.type with
  | .instrumentDefinition =>
      let d := rec.definition
      { v with refdata := some d
               inst := some (match v.inst with
                 | none => Instrument.new id d.symbol d.priceExponent d.qtyExponent
                 | some i => i.describe d) }
  | .strikeInterval =>
      { v with refdata := v.refdata.map fun d ↦ { d with strike := some rec.strikeInterval } }
  | .snapshotBegin => { v with inst := some ((v.instrumentFor id).snapshotBegin rec) }
  | .snapshotLevel => { v with inst := v.inst.map fun i ↦ (i.snapshotLevel rec).1 }
  | .snapshotEnd =>
      match v.inst with
      | none => v
      | some i =>
          if i.openSnapshot.isNone then v
          else match (i.snapshotEnd rec).2 with
            | some _ => { v with inst := some (i.snapshotEnd rec).1 }
            -- the buffer leaves with the commit, and its deltas are classified again
            | none => { v with inst := some (i.snapshotEnd rec).1, buf := none }
  | .instrumentReset =>
      let anchor := toUint64 rec.fields.newAnchorSeq
      let kept := Shard.filterBuffer anchor (v.buf.getD [])
      { v with inst := some ((v.instrumentFor id).reset (some anchor))
               buf := if kept.isEmpty then none else some kept }
  | _ => v

/-- What a message does to the instrument under `k`, short of classifying deltas. -/
def act (v : View) (k : InstKey) : ShardMsg → View
  | .record rec => if rec.key = k then v.record k.id rec else v
  | .reset ch => if k.ch = ch then empty else v
  | .fence => v
  | .manifestPrune seq =>
      if 1 < seq ∧ (v.refdata.any fun d ↦ d.manifestSeq < seq - 1) then empty else v
  | .clearShadows => { v with inst := v.inst.map fun i ↦ { i with openSnapshot := none } }

end View

namespace Shard

/-- The shard seen from one instrument. -/
def view (s : Shard) (k : InstKey) : View := ⟨s.instruments[k]?, s.refdata[k]?, s.deltaBuf[k]?⟩

variable (s : Shard) {k k' : InstKey}

theorem view_setInst (i : Instrument) :
    (s.setInst k i).view k' =
      if k = k' then { s.view k' with inst := some i } else s.view k' := by
  rw [view, getElem?_setInst]
  split <;> rfl

theorem view_enqueue (rec : Record) : (s.enqueue k rec).view k' =
    if k = k' then { s.view k' with
      buf := some (insertDelta ((s.view k').buf.getD []) ⟨rec.sequenceNumber, rec⟩) }
    else s.view k' := by
  rw [view, enqueue, getElem?_insert_eq]
  by_cases hk : k = k'
  · subst hk
    rw [if_pos rfl, if_pos rfl]
    rfl
  · rw [if_neg hk, if_neg hk]
    rfl

theorem instrumentFor_snd : (s.instrumentFor k).2 = (s.view k).instrumentFor k.id := by
  simp only [instrumentFor, View.instrumentFor, view]
  cases s.instruments[k]? <;> rfl

theorem view_instrumentFor : ((s.instrumentFor k).1.setInst k (i : Instrument)).view k' =
    if k = k' then { s.view k' with inst := some i } else s.view k' := by
  rw [view_setInst]
  by_cases hk : k = k'
  · simp [hk, view]
  · simp [hk, view, getElem?_instrumentFor_ne]

theorem view_evicted (buf : List BufferedDelta) : (s.evicted k buf).view k' =
    if k = k' then
      ⟨some (evictInstrument ((s.view k').instrumentFor k'.id) buf), (s.view k').refdata, none⟩
    else s.view k' := by
  rw [view, getElem?_evicted, evicted, getElem?_erase_eq]
  by_cases hk : k = k'
  · subst hk
    simp only [if_pos, instrumentFor_snd]
    simp [view]
  · simp only [if_neg hk]
    simp [view]

theorem view_takeBuffer : (s.takeBuffer k).view k' =
    if k = k' then { s.view k' with buf := none } else s.view k' := by
  rw [view, takeBuffer, getElem?_erase_eq]
  split <;> rfl

theorem view_foldl_takeBuffer (ks : List InstKey) : (ks.foldl takeBuffer s).view k =
    if k ∈ ks then { s.view k with buf := none } else s.view k := by
  induction ks generalizing s with
  | nil => rfl
  | cons x ks ih =>
      rw [List.foldl_cons, ih, view_takeBuffer]
      by_cases hx : x = k
      · simp [hx]
      · simp [hx, Ne.symm hx]

theorem view_dropInstrument : (s.dropInstrument k).view k' =
    if k = k' then View.empty else s.view k' := by
  simp only [view, dropInstrument, takeBuffer, getElem?_erase_eq]
  split <;> rfl

theorem view_foldl_dropInstrument (ks : List InstKey) : (ks.foldl dropInstrument s).view k =
    if k ∈ ks then View.empty else s.view k := by
  induction ks generalizing s with
  | nil => rfl
  | cons x ks ih =>
      rw [List.foldl_cons, ih, view_dropInstrument]
      by_cases hx : x = k
      · simp [hx]
      · simp [hx, Ne.symm hx]

theorem mem_staleKeys (seq : ℕ) : k ∈ s.staleKeys seq ↔
    ((s.view k).refdata.any fun d ↦ d.manifestSeq < seq - 1) = true := by
  rw [staleKeys, List.mem_filter, ExtTreeMap.mem_keys, ExtTreeMap.mem_iff_isSome_getElem?, view]
  cases s.refdata[k]? <;> simp

theorem view_pruneManifest (seq : ℕ) :
    (s.pruneManifest seq).view k = (s.view k).act k (.manifestPrune seq) := by
  rw [pruneManifest, View.act]
  by_cases hseq : seq ≤ 1
  · rw [if_pos hseq, if_neg (by omega)]
  · rw [if_neg hseq, view_foldl_dropInstrument]
    simp only [mem_staleKeys, not_le.mp hseq, true_and]

theorem view_resetChannel (ch : ℕ) :
    (s.resetChannel ch).view k = (s.view k).act k (.reset ch) := by
  have hview := s.view_foldl_takeBuffer (k := k) (s.deltaBuf.keys.filter fun k ↦ k.ch = ch)
  have hmem : k ∈ (s.deltaBuf.keys.filter fun k ↦ k.ch = ch) ↔
      (s.deltaBuf[k]?).isSome ∧ k.ch = ch := by
    rw [List.mem_filter, ExtTreeMap.mem_keys, ExtTreeMap.mem_iff_isSome_getElem?]
    simp
  simp only [View.act, resetChannel]
  generalize (s.deltaBuf.keys.filter fun k ↦ k.ch = ch).foldl takeBuffer s = s₁ at hview
  have hinst : s₁.instruments[k]? = s.instruments[k]? := by
    have := congrArg View.inst hview
    split at this <;> exact this
  have hrefdata : s₁.refdata[k]? = s.refdata[k]? := by
    have := congrArg View.refdata hview
    split at this <;> exact this
  have hbuf : s₁.deltaBuf[k]? = if k.ch = ch then none else s.deltaBuf[k]? := by
    have := congrArg View.buf hview
    simp only [hmem] at this
    by_cases hk : k.ch = ch <;> cases hsome : s.deltaBuf[k]? <;> simpa [hk, hsome, view] using this
  simp only [view, ExtTreeMap.getElem?_filter', hinst, hrefdata, hbuf]
  by_cases hk : k.ch = ch
  · simp [hk, View.empty]
  · have hkeep (α : Type) (o : Option α) : (o.filter fun _ ↦ decide (k.ch ≠ ch)) = o := by
      cases o <;> simp [hk]
    simp only [hkeep, if_neg hk]

theorem view_clearShadows :
    s.clearShadows.view k = (s.view k).act k .clearShadows := by
  simp only [View.act, view, clearShadows, ExtTreeMap.getElem?_map]

end Shard

/-! ## The simulation -/

section

open View

variable {Q : Record → Prop} {s s' : Shard} {k k' : InstKey}

/-- A delta of the instrument being served. -/
def Served (Q : Record → Prop) (k k' : InstKey) (rec : Record) : Prop := k = k' ∧ Q rec

/-- A write of the shard is a move of every instrument, and only an eviction for one that is
not being served. -/
theorem Work.moves (h : Work Q k s s') (k' : InstKey) :
    Moves (Served Q k k') k'.id (s.view k') (s'.view k') := by
  cases h with
  | turn here transition =>
      rw [Shard.view_setInst]
      split
      next hk =>
        subst hk
        exact Relation.ReflTransGen.single
          ((Move.turn here transition).mono fun r hr ↦ ⟨rfl, hr⟩)
      next => exact Relation.ReflTransGen.refl
  | @buffer rec σ own idle =>
      have henqueue : Moves (Served Q k k') k'.id (s.view k') ((s.enqueue k rec).view k') := by
        rw [Shard.view_enqueue]
        split
        next hk =>
          subst hk
          exact Relation.ReflTransGen.single (Move.buffer ⟨rfl, own⟩ idle)
        next => exact Relation.ReflTransGen.refl
      rcases s.bufferDelta_cases σ k rec with ⟨heq, -⟩ | ⟨victim, buf, hbuf, -, heq⟩ <;> rw [heq]
      · exact henqueue
      · refine henqueue.trans ?_
        rw [Shard.view_evicted]
        split
        next hk =>
          subst hk
          exact Relation.ReflTransGen.single (Move.evict hbuf)
        next => exact Relation.ReflTransGen.refl

theorem Works.moves (h : Works Q k s s') (k' : InstKey) :
    Moves (Served Q k k') k'.id (s.view k') (s'.view k') := by
  induction h with
  | refl => exact Relation.ReflTransGen.refl
  | tail _ hwork ih => exact ih.trans (hwork.moves k')

end

namespace Shard

open View

variable (s : Shard) {Q : Record → Prop} {k : InstKey} {rec : Record}

/-- Crossed-book monitoring writes its own two sets. -/
theorem noteConsistencyPoint_frame (k : InstKey) (evs : List ChannelEvent) :
    ∃ touched crossed, s.noteConsistencyPoint k evs =
      { s with touched := touched, crossed := crossed } := by
  simp only [noteConsistencyPoint, evaluateCrossed]
  repeat' split
  all_goals exact ⟨_, _, rfl⟩

@[simp] theorem view_noteConsistencyPoint (k' : InstKey) (evs : List ChannelEvent) :
    (s.noteConsistencyPoint k' evs).view k = s.view k := by
  obtain ⟨touched, crossed, h⟩ := s.noteConsistencyPoint_frame k' evs
  rw [h]
  rfl

theorem view_applySnapshotBegin (k' : InstKey) (htype : rec.type = .snapshotBegin) :
    (s.applySnapshotBegin k' rec).view k =
      if k' = k then (s.view k).record k.id rec else s.view k := by
  rw [applySnapshotBegin, view_instrumentFor, instrumentFor_snd]
  by_cases hk : k' = k
  · subst hk
    simp [View.record, htype]
  · simp [hk]

theorem view_applyInstrumentDefinition (k' : InstKey) (htype : rec.type = .instrumentDefinition) :
    (s.applyInstrumentDefinition k' rec).1.view k =
      if k' = k then (s.view k).record k.id rec else s.view k := by
  simp only [applyInstrumentDefinition, view_setInst, View.record, htype]
  by_cases hk : k' = k
  · subst hk
    cases hi : s.instruments[k']? <;> simp [view, hi]
  · simp [hk, view, getElem?_insert_eq]

theorem view_applyStrikeInterval (k' : InstKey) (htype : rec.type = .strikeInterval) :
    (s.applyStrikeInterval k' rec).view k =
      if k' = k then (s.view k).record k.id rec else s.view k := by
  simp only [applyStrikeInterval, View.record, htype]
  by_cases hk : k' = k
  · subst hk
    cases hd : s.refdata[k']? <;> simp [view, hd]
  · cases hd : s.refdata[k']? <;> simp [hk, view, getElem?_insert_eq]

theorem view_applySnapshotLevel (k' : InstKey) (htype : rec.type = .snapshotLevel) :
    (s.applySnapshotLevel k' rec).view k =
      if k' = k then (s.view k).record k.id rec else s.view k := by
  simp only [applySnapshotLevel, View.record, htype]
  by_cases hk : k' = k
  · subst hk
    cases hi : s.instruments[k']? <;> simp [view, hi]
  · cases hi : s.instruments[k']? <;> simp [hk, view, getElem?_setInst]

theorem view_applyInstrumentReset (k' : InstKey) (htype : rec.type = .instrumentReset) :
    (s.applyInstrumentReset k' rec).1.view k =
      if k' = k then (s.view k).record k.id rec else s.view k := by
  have hinst (hk : k' ≠ k) : (s.instrumentFor k').1.instruments[k]? = s.instruments[k]? :=
    s.getElem?_instrumentFor_ne hk
  simp only [applyInstrumentReset, View.record, htype, buffered, setInst_deltaBuf,
    instrumentFor_deltaBuf, instrumentFor_snd]
  by_cases hk : k' = k
  · subst hk
    simp only [view, Option.getD]
    split <;> simp_all
  · split <;> simp [hk, view, getElem?_setInst, getElem?_insert_eq, getElem?_erase_eq, hinst hk]

/-- The three outcomes of a snapshot end: no shadow, a discarded one, a committed one. -/
theorem applySnapshotEnd_cases (σ : Choices) (k : InstKey) (rec : Record) :
    ((∀ i, s.instruments[k]? = some i → i.openSnapshot = none) ∧
        s.applySnapshotEnd σ k rec = (s, [])) ∨
      ∃ i p, s.instruments[k]? = some i ∧ i.openSnapshot = some p ∧
        ((∃ err, (i.snapshotEnd rec).2 = some err ∧
            s.applySnapshotEnd σ k rec = (s.setInst k (i.snapshotEnd rec).1, [])) ∨
          (i.snapshotEnd rec).2 = none ∧
            ∃ evs, evs = ⟨.appliedSnapshot, k.id, (i.snapshotEnd rec).1.symbol, rec⟩ ::
                ((s.setInst k (i.snapshotEnd rec).1).replayBuffer σ k).2 ∧
              s.applySnapshotEnd σ k rec =
                (((s.setInst k (i.snapshotEnd rec).1).replayBuffer σ k).1.noteConsistencyPoint k
                  evs, evs)) := by
  cases hinst : s.instruments[k]? with
  | none => exact Or.inl ⟨by simp, by simp only [applySnapshotEnd, hinst]⟩
  | some i =>
      cases hopen : i.openSnapshot with
      | none =>
          refine Or.inl ⟨?_, by simp [applySnapshotEnd, hinst, hopen]⟩
          rintro j hj
          rwa [← Option.some.inj hj]
      | some p =>
          refine Or.inr ⟨i, p, rfl, hopen, ?_⟩
          simp only [applySnapshotEnd, hinst, hopen, Option.isNone_some, Bool.false_eq_true,
            if_false]
          generalize i.snapshotEnd rec = r
          obtain ⟨j, _ | err⟩ := r
          · exact Or.inr ⟨rfl, _, rfl, rfl⟩
          · exact Or.inl ⟨err, rfl, rfl⟩

/-- What a commit leaves in the buffer is classified again. -/
theorem replayBuffer_works (σ : Choices) {s : Shard} {i : Instrument} {p : PendingSnapshot}
    (hs : s.Holds Q k) (hopen : i.openSnapshot = some p) (hcommit : i.Committable p rec) :
    Works Q k ((s.setInst k (i.snapshotEnd rec).1).takeBuffer k)
      ((s.setInst k (i.snapshotEnd rec).1).replayBuffer σ k).1 := by
  refine replayLoop_works σ hs.buffered ⟨fun j hj ↦ ?_, fun buf hbuf ↦ ?_⟩
  · have hj' : (s.setInst k (i.snapshotEnd rec).1).instruments[k]? = some j := hj
    rw [setInst_self, Instrument.snapshotEnd_of_commit hopen hcommit] at hj'
    exact Instrument.Holds.of_none (Option.some.inj hj' ▸ rfl)
  · rw [takeBuffer, getElem?_erase_eq, if_pos rfl] at hbuf
    exact absurd hbuf (by simp)

/-- A snapshot end is its action, and after a commit the classification of what was buffered. -/
theorem applySnapshotEnd_moves (σ : Choices) (k' : InstKey) (htype : rec.type = .snapshotEnd)
    (hs : s.Holds Q k') : Moves (Served Q k' k) k.id
      (if k' = k then (s.view k).record k.id rec else s.view k)
      ((s.applySnapshotEnd σ k' rec).1.view k) := by
  rcases s.applySnapshotEnd_cases σ k' rec with
    ⟨hnone, heq⟩ | ⟨i, p, hinst, hopen, ⟨err, herr, heq⟩ | ⟨hcommit, evs, -, heq⟩⟩
  · have hsame : (if k' = k then (s.view k).record k.id rec else s.view k) = s.view k := by
      split
      next hk =>
        subst hk
        simp only [View.record, htype]
        cases hinst : (s.view k').inst with
        | none => rfl
        | some i => simp [hnone i hinst]
      next => rfl
    rw [heq, hsame]
  · have hact : (if k' = k then (s.view k).record k.id rec else s.view k) =
        (s.setInst k' (i.snapshotEnd rec).1).view k := by
      rw [view_setInst]
      split
      next hk =>
        subst hk
        simp [View.record, htype, view, hinst, hopen, herr]
      next => rfl
    rw [heq, hact]
  · have hact : (if k' = k then (s.view k).record k.id rec else s.view k) =
        ((s.setInst k' (i.snapshotEnd rec).1).takeBuffer k').view k := by
      rw [view_takeBuffer, view_setInst]
      split
      next hk =>
        subst hk
        simp [View.record, htype, view, hinst, hopen, hcommit]
      next => rfl
    rw [heq, hact, view_noteConsistencyPoint]
    have hcommit' := (Instrument.snapshotEnd_eq_none_iff rec hopen).mp hcommit
    exact (replayBuffer_works σ hs hopen hcommit').moves k

theorem view_applyBatchBoundary : (s.applyBatchBoundary rec).1.view k = s.view k := rfl

end Shard

/-- Whether a message has deltas classified: one that is given, or those a commit replays. -/
def ShardMsg.classifies : ShardMsg → Bool
  | .record rec => rec.isDelta || rec.type = .snapshotEnd
  | _ => false

/-- Any other message is its action. -/
theorem Shard.view_step (s : Shard) (a : Choices × ShardMsg) (hplain : a.2.classifies = false)
    (k : InstKey) : (s.step a).view k = (s.view k).act k a.2 := by
  obtain ⟨σ, msg⟩ := a
  cases msg with
  | reset ch => rw [Shard.step, Shard.view_resetChannel]
  | fence => rfl
  | manifestPrune seq => rw [Shard.step, Shard.view_pruneManifest]
  | clearShadows => rw [Shard.step, Shard.view_clearShadows]
  | record rec =>
      simp only [Shard.step, Shard.apply, View.act]
      cases htype : rec.type with
      | instrumentDefinition => rw [Shard.view_applyInstrumentDefinition _ _ htype]
      | strikeInterval => rw [Shard.view_applyStrikeInterval _ _ htype]
      | snapshotBegin => rw [Shard.view_applySnapshotBegin _ _ htype]
      | snapshotLevel => rw [Shard.view_applySnapshotLevel _ _ htype]
      | snapshotEnd | levelUpdate | bookClear =>
          simp [ShardMsg.classifies, Record.isDelta, htype] at hplain
      | instrumentReset => rw [Shard.view_applyInstrumentReset _ _ htype]
      | batchBoundary =>
          simp only [View.record, htype, ite_self, Shard.view_applyBatchBoundary]
      | trade | liquidation | heartbeat | manifestSummary | endOfSession | other =>
          simp only [View.record, htype, ite_self]

open View in
/-- **The simulation.**  Seen from any instrument, a step of the shard is the action of its
message followed by moves, whose deltas are ones the shard held for the instrument or was just
given for it. -/
theorem Shard.step_moves {Q : InstKey → Record → Prop} (s : Shard) (a : Choices × ShardMsg)
    (hs : ∀ k, s.Holds (Q k) k)
    (own : ∀ rec, a.2 = .record rec → rec.isDelta → Q rec.key rec) (k : InstKey) :
    Moves (Q k) k.id ((s.view k).act k a.2) ((s.step a).view k) := by
  cases hclassifies : a.2.classifies with
  | false =>
      rw [s.view_step a hclassifies]
  | true =>
      obtain ⟨σ, _ | _ | _ | _ | _⟩ := a
      case record rec =>
        have own' := own rec rfl
        have hserved {v v' : View} (h : Moves (Served (Q rec.key) rec.key k) k.id v v') :
            Moves (Q k) k.id v v' :=
          Moves.mono (fun r hr ↦ hr.1 ▸ hr.2) h
        simp only [Shard.step, Shard.apply, View.act]
        cases htype : rec.type with
        | snapshotEnd =>
            exact hserved (Shard.applySnapshotEnd_moves s σ rec.key htype (hs rec.key))
        | levelUpdate | bookClear =>
            have hdelta : rec.isDelta = true := by simp [Record.isDelta, htype]
            simp only [View.record, htype, ite_self, Shard.view_noteConsistencyPoint]
            exact hserved ((Shard.applyDelta_works σ (hs rec.key) (own' hdelta)).moves k)
        | _ => simp [ShardMsg.classifies, Record.isDelta, htype] at hclassifies
      all_goals exact absurd hclassifies Bool.noConfusion

end EdgeMulticast.MarketByPrice
