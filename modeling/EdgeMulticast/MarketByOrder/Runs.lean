import EdgeMulticast.MarketByOrder.View

/-!
# Runs of a market-by-order shard

A message acts on a view as a function of the view alone (`View.act`), and leaves the
classification of deltas and the buffer to moves.  `Shard.step_moves` is the simulation: the
shard's step, seen from any instrument, is the action of its message followed by moves.

`Shard.run_view` is the rule the invariants are proved by: a property of one instrument's view,
which may mention the messages taken so far, holds at the end of a run if the action of every
message and every move preserve it.
-/

namespace EdgeMulticast.MarketByOrder

open Std (ExtTreeMap)
open EdgeMulticast.Lib

/-! ## Actions -/

namespace Instrument

/-- The instrument behind its definition. -/
def describe (i : Instrument) (rec : Record) : Instrument :=
  { i with symbol := rec.fields.symbol, priceExponent := toInt8 rec.fields.priceExponent
           qtyExponent := toInt8 rec.fields.qtyExponent }

/-- A begin opens a shadow, unless the instrument is ready. -/
def begun (i : Instrument) (rec : Record) : Instrument :=
  if i.status = .ready then i
  else i.beginSnapshot rec.snapshotID (toUint64 rec.fields.anchorSeq)
    (toUint32 rec.fields.totalOrders) (toUint32 rec.fields.lastInstrumentSeq)

/-- An order goes into the shadow of its id. -/
def filed (i : Instrument) (rec : Record) : Instrument :=
  (i.addSnapshotOrder rec.snapshotID rec.orderID (sideFromString rec.fields.side)
    (toUint8 rec.fields.orderFlags) rec.fields.enterTs (toInt64 rec.fields.priceRaw)
    (toUint64 rec.fields.qtyRaw)).1

end Instrument

/-- The order a snapshot record or an addition describes. -/
def Record.order (rec : Record) : RestingOrder :=
  ⟨rec.orderID, sideFromString rec.fields.side, toUint8 rec.fields.orderFlags, rec.fields.enterTs,
    toInt64 rec.fields.priceRaw, toUint64 rec.fields.qtyRaw⟩

namespace View

/-- What a record does to the instrument under `k`, short of classifying deltas. -/
def record (v : View) (k : InstKey) (rec : Record) : View :=
  match rec.type with
  | .instrumentDefinition =>
      if rec.key = k then
        { v with inst := some ((v.inst.getD (Instrument.new k.id "" 0 0)).describe rec) }
      else v
  | .snapshotBegin =>
      ⟨if rec.key = k then some ((v.inst.getD (Instrument.new k.id "" 0 0)).begun rec) else v.inst,
        v.buf, if rec.channelID = k.ch then some ⟨rec.key, rec.snapshotID⟩ else v.group⟩
  | .snapshotOrder =>
      if rec.channelID = k.ch ∧ v.group = some ⟨k, rec.snapshotID⟩ then
        { v with inst := v.inst.map fun i ↦ i.filed rec }
      else v
  | .snapshotEnd =>
      ⟨if rec.key = k then v.inst.map fun i ↦ i.ended rec else v.inst, v.buf,
        if rec.channelID = k.ch ∧ v.group = some ⟨rec.key, rec.snapshotID⟩ then none
        else v.group⟩
  | .instrumentReset =>
      if rec.key = k ∧ v.inst.isSome then
        { v with inst := v.inst.map Instrument.reset
                 buf := v.buf.filter fun b ↦ toUint64 rec.fields.newAnchorSeq < b.mktdataSeq }
      else v
  | _ => v

/-- What a message does to the instrument under `k`, short of classifying deltas. -/
def act (v : View) (k : InstKey) : ShardMsg → View
  | .record rec => v.record k rec
  | .reset ch => if k.ch = ch then empty else v
  | .fence => v
  | .clearShadows =>
      { v with inst := v.inst.map fun i ↦ { i with openSnapshot := none }, group := none }

/-- The message is an end that commits the open shadow. -/
def Commits (v : View) (k : InstKey) (msg : ShardMsg) : Prop :=
  ∃ rec i p, msg = .record rec ∧ rec.type = .snapshotEnd ∧ rec.key = k ∧ v.inst = some i ∧
    i.openSnapshot = some p ∧ p.Committable rec

end View

/-! ## Messages keep what is held -/

namespace Instrument

variable (i : Instrument) (rec : Record)

/-- What an order makes of the shadow. -/
def shadowAfter (rec : Record) (p : PendingSnapshot) : PendingSnapshot :=
  if p.snapshotID ≠ rec.snapshotID then p else p.addOrder rec.order

/-- An order touches the shadow and nothing else. -/
theorem filed_eq : i.filed rec =
    { i with openSnapshot := i.openSnapshot.map (shadowAfter rec) } := by
  obtain ⟨id, symbol, pe, qe, status, bids, asks, mkt, last, _ | p, pending⟩ := i
  · rfl
  · simp only [filed, addSnapshotOrder, Option.map_some, shadowAfter, Record.order]
    split <;> rfl

@[simp] theorem begun_pending : (i.begun rec).pending = i.pending := by
  rw [begun]
  split <;> rfl

@[simp] theorem begun_status : (i.begun rec).status = i.status := by
  rw [begun]
  split <;> rfl

@[simp] theorem filed_pending : (i.filed rec).pending = i.pending := by rw [filed_eq]

@[simp] theorem filed_status : (i.filed rec).status = i.status := by rw [filed_eq]

@[simp] theorem ended_pending : (i.ended rec).pending = i.pending := by
  rcases i.ended_cases rec with h | h | ⟨p, -, -, h⟩ <;> rw [h]
  rfl

end Instrument

namespace View

variable {Q : Record → Prop} {v : View} {k : InstKey}

theorem Holds.record (h : v.Holds Q) (k : InstKey) (rec : Record) : (v.record k rec).Holds Q := by
  have hnew : (v.inst.getD (Instrument.new k.id "" 0 0)).Holds Q := by
    cases hinst : v.inst with
    | none => exact Instrument.Holds.of_none rfl
    | some i => exact h.pending i hinst
  rw [View.record]
  split
  · split
    · refine ⟨?_, h.buffer, h.sorted⟩
      rintro j ⟨⟩
      exact hnew.congr rfl
    · exact h
  · refine ⟨fun j hj ↦ ?_, h.buffer, h.sorted⟩
    dsimp only at hj
    split at hj
    · rw [← Option.some.inj hj]
      exact hnew.congr (by simp)
    · exact h.pending j hj
  · split
    · refine ⟨fun j hj ↦ ?_, h.buffer, h.sorted⟩
      obtain ⟨i, hi, rfl⟩ := Option.map_eq_some_iff.mp hj
      exact (h.pending i hi).congr (by simp)
    · exact h
  · refine ⟨fun j hj ↦ ?_, h.buffer, h.sorted⟩
    dsimp only at hj
    split at hj
    · obtain ⟨i, hi, rfl⟩ := Option.map_eq_some_iff.mp hj
      exact (h.pending i hi).congr (by simp)
    · exact h.pending j hj
  · split
    · refine ⟨fun j hj ↦ ?_, fun b hb ↦ ?_, h.sorted.sublist List.filter_sublist⟩
      · obtain ⟨i, hi, rfl⟩ := Option.map_eq_some_iff.mp hj
        exact Instrument.Holds.of_none rfl
      · exact h.buffer b (List.mem_of_mem_filter hb)
    · exact h
  · exact h

theorem Holds.act (h : v.Holds Q) (k : InstKey) (msg : ShardMsg) : (v.act k msg).Holds Q := by
  cases msg with
  | record rec => exact h.record k rec
  | reset ch =>
      rw [View.act]
      split
      · exact Holds.empty
      · exact h
  | fence => exact h
  | clearShadows =>
      refine ⟨fun j hj ↦ ?_, h.buffer, h.sorted⟩
      obtain ⟨i, hi, rfl⟩ := Option.map_eq_some_iff.mp hj
      exact (h.pending i hi).congr rfl

end View

/-! ## The simulation, message by message -/

namespace Shard

open View

variable {Q : Record → Prop} (s : Shard) (k k' : InstKey) {rec : Record}

theorem view_applyInstrumentDefinition (htype : rec.type = .instrumentDefinition) :
    (s.applyInstrumentDefinition rec.key rec).1.view k = (s.view k).record k rec := by
  have hview (i : Instrument) (d : InstrumentDef) :
      (({ s with refdata := s.refdata.insert rec.key d } : Shard).setInst rec.key i).view k =
        if rec.key = k then { s.view k with inst := some i } else s.view k := by
    rw [view_setInst]
    rfl
  simp only [applyInstrumentDefinition, hview, View.record, htype]
  by_cases hk : rec.key = k
  · subst hk
    cases hi : s.instruments[rec.key]? <;> simp [hi, Instrument.describe, Instrument.new]
  · simp [hk]

/-- The shard with a group open. -/
def opened (k : InstKey) (snapID : ℕ) : Shard :=
  { s with openGroups := s.openGroups.insert k.ch ⟨k, snapID⟩ }

theorem view_opened (snapID : ℕ) : (s.opened k snapID).view k' =
    { s.view k' with
      group := if k.ch = k'.ch then some ⟨k, snapID⟩ else (s.view k').group } := by
  rw [view, opened, getElem?_insert_eq]
  rfl

theorem view_applySnapshotBegin (htype : rec.type = .snapshotBegin) :
    (s.applySnapshotBegin rec.key rec).view k = (s.view k).record k rec := by
  have hbegun (i : Instrument) : (if i.status = .ready then
      (s.setInst rec.key i).opened rec.key rec.snapshotID
      else ((s.setInst rec.key i).opened rec.key rec.snapshotID).setInst rec.key
        (i.beginSnapshot rec.snapshotID (toUint64 rec.fields.anchorSeq)
          (toUint32 rec.fields.totalOrders) (toUint32 rec.fields.lastInstrumentSeq))).view k =
      ⟨if rec.key = k then some (i.begun rec) else (s.view k).inst, (s.view k).buf,
        if rec.channelID = k.ch then some ⟨rec.key, rec.snapshotID⟩ else (s.view k).group⟩ := by
    by_cases hready : i.status = .ready
    · rw [if_pos hready, view_opened, view_setInst, Instrument.begun, if_pos hready]
      by_cases hk : rec.key = k
      · simp only [if_pos hk]
        rfl
      · simp only [if_neg hk]
        rfl
    · rw [if_neg hready, view_setInst, view_opened, view_setInst, Instrument.begun, if_neg hready]
      by_cases hk : rec.key = k
      · simp only [if_pos hk]
        rfl
      · simp only [if_neg hk]
        rfl
  have h := hbegun ((s.instruments[rec.key]?).getD (Instrument.new rec.key.id "" 0 0))
  simp only [View.record, htype]
  refine Eq.trans h ?_
  by_cases hk : rec.key = k
  · subst hk
    rfl
  · simp only [if_neg hk]

/-- An order goes where its group points. -/
theorem view_applySnapshotOrder (filed : s.GroupsFiled) (htype : rec.type = .snapshotOrder) :
    (s.applySnapshotOrder rec).view k = (s.view k).record k rec := by
  simp only [applySnapshotOrder, View.record, htype]
  cases hg : s.openGroups[rec.channelID]? with
  | none =>
      rw [if_neg]
      rintro ⟨hch, hk⟩
      rw [view_group, ← hch, hg] at hk
      exact absurd hk (by simp)
  | some g =>
      have hch := filed _ g hg
      have hmine : (rec.channelID = k.ch ∧ (s.view k).group = some ⟨k, rec.snapshotID⟩) ↔
          g.inst = k ∧ g.snapID = rec.snapshotID := by
        rw [view_group]
        constructor
        · rintro ⟨hk, hopen⟩
          rw [← hk, hg] at hopen
          obtain rfl := Option.some.inj hopen
          exact ⟨rfl, rfl⟩
        · rintro ⟨rfl, hid⟩
          refine ⟨hch.symm, ?_⟩
          rw [hch, hg, ← hid]
      simp only [hmine]
      by_cases hid : g.snapID = rec.snapshotID
      · simp only [ne_eq, hid, not_true_eq_false, if_false, and_true]
        cases hi : s.instruments[g.inst]? with
        | none =>
            by_cases hk : g.inst = k
            · subst hk
              simp [view, hi]
            · simp [hk]
        | some i =>
            have hfiled : (if i.openSnapshot.isNone then s else s.setInst g.inst (i.filed rec)).view
                k = if g.inst = k then { s.view k with inst := some (i.filed rec) }
                  else s.view k := by
              split
              next hnone =>
                have hsame : i.filed rec = i := by
                  rw [Option.isNone_iff_eq_none] at hnone
                  rw [Instrument.filed, Instrument.addSnapshotOrder, hnone]
                split
                next hk =>
                  rw [hsame, view, ← hk, hi]
                next => rfl
              next => rw [view_setInst]
            refine Eq.trans hfiled ?_
            by_cases hk : g.inst = k
            · subst hk
              simp [view, hi]
            · simp [hk]
      · simp [hid]

theorem view_applyInstrumentReset (htype : rec.type = .instrumentReset) :
    (s.applyInstrumentReset rec.key rec).1.view k = (s.view k).record k rec := by
  simp only [applyInstrumentReset, View.record, htype, view_inst, view_buf, view_group]
  cases hi : s.instruments[rec.key]? with
  | none =>
      by_cases hk : rec.key = k
      · subst hk
        simp [hi]
      · simp [hk]
  | some i =>
      by_cases hk : rec.key = k
      · subst hk
        simp [view, setInst, hi, buffered, filterBuffer]
      · simp [view, setInst, getElem?_insert_ne, hk, buffered]

theorem view_resetChannel (ch : ℕ) :
    (s.resetChannel ch).view k = (s.view k).act k (.reset ch) := by
  have hkeep (α : Type) (o : Option α) :
      (o.filter fun _ ↦ decide (k.ch ≠ ch)) = if k.ch = ch then none else o := by
    by_cases hk : k.ch = ch <;> cases o <;> simp [hk]
  simp only [view, resetChannel, View.act, buffered, ExtTreeMap.getElem?_filter', hkeep,
    getElem?_erase_eq]
  by_cases hk : k.ch = ch
  · simp [hk, View.empty]
  · simp [hk, Ne.symm hk]

theorem view_clearShadows : s.clearShadows.view k = (s.view k).act k .clearShadows := by
  simp only [view, clearShadows, View.act, ExtTreeMap.getElem?_map, buffered]
  simp

/-! ### The end of a group -/

/-- The shard with the group closed that an end names. -/
def closed (k : InstKey) (snapID : ℕ) : Shard :=
  if s.openGroups[k.ch]? = some ⟨k, snapID⟩ then { s with openGroups := s.openGroups.erase k.ch }
  else s

@[simp] theorem closed_instruments (snapID : ℕ) :
    (s.closed k snapID).instruments = s.instruments := by
  rw [closed]
  split <;> rfl

@[simp] theorem closed_deltaBuf (snapID : ℕ) : (s.closed k snapID).deltaBuf = s.deltaBuf := by
  rw [closed]
  split <;> rfl

theorem view_closed (snapID : ℕ) : (s.closed k snapID).view k' =
    { s.view k' with
      group := if k.ch = k'.ch ∧ (s.view k').group = some ⟨k, snapID⟩ then none
        else (s.view k').group } := by
  rw [closed]
  by_cases hopen : s.openGroups[k.ch]? = some ⟨k, snapID⟩
  · rw [if_pos hopen, view, getElem?_erase_eq]
    by_cases hch : k.ch = k'.ch
    · rw [if_pos hch, if_pos ⟨hch, by rw [view_group, ← hch, hopen]⟩]
      rfl
    · rw [if_neg hch, if_neg fun h ↦ hch h.1]
      rfl
  · rw [if_neg hopen, if_neg]
    rintro ⟨hch, hgroup⟩
    rw [view_group, ← hch] at hgroup
    exact hopen hgroup

/-- A commit replays the buffer as it was. -/
theorem applySnapshotEnd_of_commit {s : Shard} {k : InstKey} {i : Instrument} {p : PendingSnapshot}
    {e : Record} (σ : Choices) (here : s.instruments[k]? = some i)
    (hopen : i.openSnapshot = some p) (commit : p.Committable e) :
    (s.applySnapshotEnd k e σ).1 =
      ((s.closed k e.snapshotID).setInst k (i.commitSnapshot p)).replayBuffer σ k := by
  simp only [applySnapshotEnd, ← closed.eq_1, closed_instruments, here, hopen]
  rw [if_neg (by rw [commit.snapshotID]; exact lt_irrefl _),
    Instrument.endSnapshot_of_commit hopen commit]

/-- The outcomes of an end: nothing to do, a discarded shadow, a committed one. -/
theorem applySnapshotEnd_cases (σ : Choices) (rec : Record) :
    ((∀ i, s.instruments[k]? = some i → i.ended rec = i) ∧
        (s.applySnapshotEnd k rec σ).1 = s.closed k rec.snapshotID) ∨
      (∃ i, s.instruments[k]? = some i ∧
        (s.applySnapshotEnd k rec σ).1 = (s.closed k rec.snapshotID).setInst k (i.ended rec)) ∨
      ∃ i p, s.instruments[k]? = some i ∧ i.openSnapshot = some p ∧ p.Committable rec ∧
        i.ended rec = i.commitSnapshot p ∧
        (s.applySnapshotEnd k rec σ).1 =
          ((s.closed k rec.snapshotID).setInst k (i.ended rec)).replayBuffer σ k := by
  simp only [applySnapshotEnd, ← closed.eq_1, closed_instruments]
  cases hinst : s.instruments[k]? with
  | none => exact Or.inl ⟨by simp, rfl⟩
  | some i =>
      dsimp only
      cases hopen : i.openSnapshot with
      | none =>
          refine Or.inl ⟨?_, rfl⟩
          rintro j ⟨⟩
          rw [Instrument.ended, hopen]
      | some p =>
          dsimp only
          by_cases hlate : rec.snapshotID < p.snapshotID
          · rw [if_pos hlate]
            refine Or.inl ⟨?_, rfl⟩
            rintro j ⟨⟩
            rw [Instrument.ended, hopen]
            exact if_pos hlate
          · rw [if_neg hlate]
            by_cases hcommit : p.Committable rec
            · have hended : i.ended rec = i.commitSnapshot p := by
                rw [Instrument.ended, hopen]
                dsimp only
                rw [if_neg hlate, Instrument.endSnapshot_of_commit hopen hcommit]
              refine Or.inr (Or.inr ⟨i, p, rfl, hopen, hcommit, hended, ?_⟩)
              rw [Instrument.endSnapshot_of_commit hopen hcommit, hended]
            · obtain ⟨err, herr⟩ := Instrument.endSnapshot_of_not hopen hcommit
              have hended : i.ended rec = { i with openSnapshot := none } := by
                rw [Instrument.ended, hopen]
                dsimp only
                rw [if_neg hlate, herr]
              refine Or.inr (Or.inl ⟨i, rfl, ?_⟩)
              rw [herr, hended]

/-- A replay classifies what the buffer holds, and drops the buffer. -/
theorem replayBuffer_serves (σ : Choices) {k : InstKey} (hbuf : ∀ b ∈ (s.view k).buf, Filed Q b)
    (hsorted : SortedBy BufferedDelta.mktdataSeq (s.view k).buf) :
    Serves Q True k s (s.replayBuffer σ k) := by
  have hloop : Serves Q True k s (replayLoop σ k (s.buffered k) (s.buffered k).toList.length 0
      (s.buffered k).array s) :=
    replayLoop_serves σ (Slice.Ranging.start hbuf hsorted)
  refine hloop.trans ⟨?_, fun k' hk ↦ ?_⟩
  · rw [replayBuffer, view_dropBuffer, if_pos rfl]
    exact Relation.ReflTransGen.single Move.drop
  · rw [replayBuffer, view_dropBuffer, if_neg hk]

/-- An end is its action, and after a commit a replay. -/
theorem applySnapshotEnd_moves (σ : Choices) (htype : rec.type = .snapshotEnd)
    (hs : (s.view rec.key).Holds Q) :
    Moves (fun r ↦ rec.key = k ∧ Q r) ((s.view k).Commits k (.record rec))
      ((s.view k).record k rec) ((s.applySnapshotEnd rec.key rec σ).1.view k) := by
  have hclosed : ((s.view k).record k rec) =
      { (s.closed rec.key rec.snapshotID).view k with
        inst := if rec.key = k then (s.view k).inst.map fun i ↦ i.ended rec
          else (s.view k).inst } := by
    rw [view_closed]
    simp only [View.record, htype]
    rfl
  have hset {i : Instrument} (hinst : s.instruments[rec.key]? = some i) :
      ((s.closed rec.key rec.snapshotID).setInst rec.key (i.ended rec)).view k =
        (s.view k).record k rec := by
    rw [view_setInst, hclosed]
    by_cases hk : rec.key = k
    · subst hk
      rw [if_pos rfl, if_pos rfl, view_inst s, hinst]
      rfl
    · rw [if_neg hk, if_neg hk, view_closed]
  rcases s.applySnapshotEnd_cases rec.key σ rec with
    ⟨hsame, heq⟩ | ⟨i, hinst, heq⟩ | ⟨i, p, hinst, hopen, hcommit, hended, heq⟩
  · have hinst : (if rec.key = k then (s.view k).inst.map fun i ↦ i.ended rec
        else (s.view k).inst) = (s.view k).inst := by
      split
      next hk =>
        subst hk
        cases hi : (s.view rec.key).inst with
        | none => rfl
        | some i => rw [Option.map_some, hsame i hi]
      next => rfl
    rw [heq, hclosed, hinst, view_closed]
  · rw [heq, hset hinst]
  · rw [heq, ← hset hinst]
    have hbuf : (((s.closed rec.key rec.snapshotID).setInst rec.key (i.ended rec)).view
        rec.key).buf = (s.view rec.key).buf := by
      rw [view_setInst, if_pos rfl, view_closed]
    have hserves := replayBuffer_serves (Q := Q)
      ((s.closed rec.key rec.snapshotID).setInst rec.key (i.ended rec)) σ (k := rec.key)
      (by rw [hbuf]; exact hs.buffer) (by rw [hbuf]; exact hs.sorted)
    by_cases hk : rec.key = k
    · subst hk
      exact hserves.moves.mono (fun r hr ↦ ⟨rfl, hr⟩)
        fun _ ↦ ⟨rec, i, p, rfl, htype, rfl, hinst, hopen, hcommit⟩
    · rw [hserves.frame k hk]

/-- **The simulation.**  Seen from any instrument, a step of the shard is the action of its
message followed by moves, whose deltas are ones the shard held for the instrument or was just
given for it.  Only a commit replays. -/
theorem step_moves {Q : InstKey → Record → Prop} (a : Turn) (filed : s.GroupsFiled)
    (hs : ∀ k, (s.view k).Holds (Q k))
    (own : ∀ rec, a.2 = .record rec → rec.isDelta → Q rec.key rec) :
    Moves (Q k) ((s.view k).Commits k a.2) ((s.view k).act k a.2) ((s.step a).view k) := by
  obtain ⟨σ, msg⟩ := a
  cases msg with
  | reset ch => rw [Shard.step, Shard.view_resetChannel]
  | fence => exact Relation.ReflTransGen.refl
  | clearShadows => rw [Shard.step, Shard.view_clearShadows]
  | record rec =>
      have own' := own rec rfl
      simp only [Shard.step, Shard.apply, View.act]
      cases htype : rec.type with
      | instrumentDefinition => rw [s.view_applyInstrumentDefinition k htype]
      | snapshotBegin => rw [s.view_applySnapshotBegin k htype]
      | snapshotOrder => rw [s.view_applySnapshotOrder k filed htype]
      | snapshotEnd =>
          have hmine (r : Record) (hr : rec.key = k ∧ Q rec.key r) : Q k r := hr.1 ▸ hr.2
          exact (s.applySnapshotEnd_moves k σ htype (hs rec.key)).mono hmine fun h ↦ h
      | orderAdd | orderCancel | orderExecute =>
          have hdelta : rec.isDelta = true := by simp [Record.isDelta, htype]
          have hserves := applyDelta_serves (s := s) (k := rec.key) (σ 0) (own' hdelta)
          simp only [View.record, htype]
          by_cases hk : rec.key = k
          · subst hk
            exact hserves.moves.mono (fun _ hr ↦ hr) False.elim
          · rw [hserves.frame k hk]
      | instrumentReset => rw [s.view_applyInstrumentReset k htype]
      | trade | other =>
          simp only [View.record, htype]
          exact Relation.ReflTransGen.refl

/-! ## The rule -/

variable {s}

theorem new_view : new.view k = View.empty := by
  simp [view, new, View.empty, buffered]

theorem new_groupsFiled : new.GroupsFiled := by
  intro ch g hg
  exact absurd hg (by simp [new])

/-- A step keeps the open groups on the channels of their instruments. -/
theorem step_groupsFiled (filed : s.GroupsFiled)
    (hs : ∀ k, (s.view k).Holds fun _ ↦ True) (a : Turn) : (s.step a).GroupsFiled := by
  intro ch g hg
  -- seen from an instrument of the channel, moves leave the group alone
  have hmoves := s.step_moves ⟨ch, 0⟩ a filed hs fun _ _ _ ↦ trivial
  have hgroup : ((s.step a).view ⟨ch, 0⟩).group = ((s.view ⟨ch, 0⟩).act ⟨ch, 0⟩ a.2).group :=
    hmoves.induction (P := fun v ↦ v.group = _) rfl fun _ _ hmove hv ↦ by cases hmove <;> exact hv
  have hnow : ((s.view ⟨ch, 0⟩).act ⟨ch, 0⟩ a.2).group = some g := hgroup.symm.trans hg
  have hold : (s.view ⟨ch, 0⟩).group = some g → g.inst.ch = ch := filed ch g
  generalize s.view ⟨ch, 0⟩ = v at hnow hold
  cases hmsg : a.2 with
  | record rec =>
      rw [hmsg, View.act, View.record] at hnow
      split at hnow
      · split at hnow <;> exact hold hnow
      · dsimp only at hnow
        split at hnow
        next hch =>
          obtain rfl := Option.some.inj hnow
          exact hch
        next => exact hold hnow
      · split at hnow <;> exact hold hnow
      · dsimp only at hnow
        split at hnow
        · exact absurd hnow (by simp)
        · exact hold hnow
      · split at hnow <;> exact hold hnow
      · exact hold hnow
  | reset ch' =>
      rw [hmsg, View.act] at hnow
      split at hnow
      · exact absurd hnow (by simp [View.empty])
      · exact hold hnow
  | fence =>
      rw [hmsg] at hnow
      exact hold hnow
  | clearShadows =>
      rw [hmsg] at hnow
      exact absurd hnow (by simp [View.act])

variable {Q : InstKey → Record → Prop}

/-- The deltas among the messages satisfy `Q` for their own instruments. -/
def Given (Q : InstKey → Record → Prop) (as : List Turn) : Prop :=
  ∀ a ∈ as, ∀ rec, a.2 = .record rec → rec.isDelta → Q rec.key rec

theorem Given.any (as : List Turn) : Given (fun _ _ ↦ True) as := fun _ _ _ _ _ ↦ trivial

theorem step_holds (filed : s.GroupsFiled) (hs : ∀ k, (s.view k).Holds (Q k)) {a : Turn}
    (own : ∀ rec, a.2 = .record rec → rec.isDelta → Q rec.key rec) (k : InstKey) :
    ((s.step a).view k).Holds (Q k) :=
  (s.step_moves k a filed hs own).induction ((hs k).act k a.2)
    fun _ _ hmove hv ↦ hmove.holds hv

/-- A shard only holds deltas it was given, each buffer in datagram order, and every open group
is on the channel of its instrument. -/
theorem run_holds {as : List Turn} (own : Given Q as) :
    (run step new as).GroupsFiled ∧ ∀ k, ((run step new as).view k).Holds (Q k) := by
  refine run_induction (P := fun s : Shard ↦ s.GroupsFiled ∧ ∀ k, (s.view k).Holds (Q k)) as
    ⟨new_groupsFiled, fun k ↦ ?_⟩ fun s a ha ⟨filed, hs⟩ ↦ ⟨?_, ?_⟩
  · rw [new_view]
    exact View.Holds.empty
  · exact step_groupsFiled filed (fun k ↦ (hs k).mono fun _ _ ↦ trivial) a
  · exact step_holds filed hs (own a ha)

/-- **The invariant rule.**  A property of one instrument's view that survives the action of
every message of the run, and every move, holds at the end of the run. -/
theorem run_view {k : InstKey} {P : List Turn → View → Prop} {as : List Turn} (own : Given Q as)
    (init : P [] View.empty)
    (act : ∀ pre a v, pre ++ [a] <+: as → v.Holds (Q k) → P pre v →
      P (pre ++ [a]) (v.act k a.2))
    (move : ∀ pre a v v', pre ++ [a] <+: as →
      View.Move (Q k) (((run step new pre).view k).Commits k a.2) v v' → v.Holds (Q k) →
      P (pre ++ [a]) v → P (pre ++ [a]) v') :
    P as ((run step new as).view k) := by
  refine run_history (P := fun pre (s : Shard) ↦ P pre (s.view k)) as
    (by rw [new_view]; exact init) fun pre a hpre hP ↦ ?_
  have hpre' : pre <+: as := (List.prefix_append pre [a]).trans hpre
  obtain ⟨filed, hholds⟩ := run_holds (Q := Q) fun b hb ↦ own b (hpre'.subset hb)
  have hmoves := (run step new pre).step_moves k a filed hholds (own a (hpre.subset (by simp)))
  refine (hmoves.induction (P := fun v ↦ v.Holds (Q k) ∧ P (pre ++ [a]) v)
    ⟨(hholds k).act k a.2, act pre a _ hpre (hholds k) hP⟩ fun v v' hmove hv ↦ ?_).2
  exact ⟨hmove.holds hv.1, move pre a v v' hpre hmove hv.1 hv.2⟩

end Shard

end EdgeMulticast.MarketByOrder
