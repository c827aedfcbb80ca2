import EdgeMulticast.MarketByPrice.Publisher

/-!
# Book safety

A ready book is the publisher's book.  The refinement is an invariant of the view
(`Faithful`): a ready instrument holds the publisher's book after its last applied delta, and a
shadow holds levels of the captured book, as many as were counted and none that was not
delivered.

Loss and reordering cannot break it, since a contiguous record is the publisher's next delta.
Repeated deltas cannot, since a duplicate is below the expected number.  A short snapshot cannot
commit, since the levels counted are distinct.  The demotions only take readiness away.
-/

namespace EdgeMulticast.MarketByPrice

open Std (ExtTreeMap)
open EdgeMulticast.Lib

/-! ## The invariant -/

variable {k : InstKey} (pub : Publisher k)

/-- A shadow filled with levels of a capture, each counted once and each delivered. -/
structure Partial (pre : List Turn) (p : PendingSnapshot) : Prop where
  captured : ∃ c, pub.capture p.snapshotID = some c ∧
    p.lastInstrumentSeq = c.lastInstrumentSeq ∧
    p.totalLevels = (pub.bookAfter c.lastInstrumentSeq).size ∧
    p.sides.Sub (pub.bookAfter c.lastInstrumentSeq)
  total_lt : p.totalLevels < 2 ^ 32
  count : p.receivedLevels = p.sides.size
  delivered : ∀ ask price l, (p.sides.side ask)[price]? = some l →
    (p.snapshotID, ask, price) ∈ Publisher.levels k pre

/-- A ready instrument holds the publisher's book. -/
structure FaithfulBook (i : Instrument) : Prop where
  lost : i.lostInstrumentSeq = ∅
  ready : i.status = .ready → i.lastAppliedInstrumentSeq ≤ pub.n ∧
    i.sides = pub.bookAfter i.lastAppliedInstrumentSeq

/-- The refinement, seen from the instrument. -/
structure Faithful (pre : List Turn) (v : View) : Prop where
  book : ∀ i, v.inst = some i → FaithfulBook pub i
  shadow : ∀ i p, v.inst = some i → i.openSnapshot = some p → Partial pub pre p

/-- The deltas an instrument may hold: for `k`, those the publisher emits. -/
def Emitted (k' : InstKey) (rec : Record) : Prop := k' = k → pub.Emits rec

variable {pub} {pre : List Turn}

/-! ### Applying deltas -/

theorem Publisher.Emits.wellFormed {rec : Record} (h : pub.Emits rec) :
    rec.isDelta = true ∧ malformedRecord rec = none := by
  obtain ⟨m, hm₁, hm₂, rfl⟩ := h
  exact ⟨pub.delta_isDelta m hm₁ hm₂, pub.delta_wellFormed m hm₁ hm₂⟩

/-- The publisher's next delta is the one under the expected number.  No delta stands under
zero, so an instrument at the last number of the era expects none. -/
theorem Publisher.Emits.next {rec : Record} (h : pub.Emits rec) {last : ℕ} (hlast : last ≤ pub.n)
    (hseq : rec.perInstrumentSeq = (last + 1) % 2 ^ 32) :
    last + 1 ≤ pub.n ∧ rec.perInstrumentSeq = last + 1 ∧ rec = pub.delta (last + 1) := by
  obtain ⟨m, hm₁, hm₂, rfl⟩ := h
  have hn := pub.n_lt
  rw [pub.delta_seq m hm₁ hm₂] at hseq ⊢
  obtain rfl : m = last + 1 := by omega
  exact ⟨hm₂, rfl, rfl⟩

/-- Applying the expected delta keeps a ready book the publisher's. -/
theorem FaithfulBook.apply {i j : Instrument} (h : FaithfulBook pub i) (ready : i.status = .ready)
    {rec : Record} (own : pub.Emits rec)
    (next : rec.perInstrumentSeq = i.nextExpectedInstrumentSeq)
    (hlost : j.lostInstrumentSeq = i.lostInstrumentSeq.filter (rec.perInstrumentSeq < ·))
    (hlast : j.lastAppliedInstrumentSeq = rec.perInstrumentSeq)
    (hsides : j.sides = i.sides.after rec) : FaithfulBook pub j := by
  obtain ⟨hle, hbook⟩ := h.ready ready
  rw [Instrument.nextExpected_of_lost_empty h.lost] at next
  obtain ⟨hn, hseq, hrec⟩ := own.next hle next
  refine ⟨by simp [hlost, h.lost], fun _ ↦ ?_⟩
  rw [hlast, hseq]
  refine ⟨hn, ?_⟩
  rw [hsides, hbook, Publisher.bookAfter, ← hrec]

/-- What a drain carries from round to round. -/
structure CatchingUp (pub : Publisher k) (shadow : Option PendingSnapshot) (i : Instrument) :
    Prop where
  book : FaithfulBook pub i
  status : i.status = .ready
  holds : i.Holds (pub.Emits)
  shadow : i.openSnapshot = shadow

theorem CatchingUp.drainStep {shadow : Option PendingSnapshot} {i : Instrument}
    (h : CatchingUp pub shadow i) {held : ExtTreeMap ℕ Record} {pr : Record}
    (hheld : i.pending = some held) (hpr : held[i.nextExpectedInstrumentSeq]? = some pr) :
    CatchingUp pub shadow (i.drainStep held pr) := by
  obtain ⟨own, wf, hseq⟩ := h.holds held hheld _ pr hpr
  refine ⟨?_, by simp [h.status], h.holds.drainStep hheld pr, by simp [h.shadow]⟩
  exact h.book.apply h.status own hseq (Instrument.drainStep_lost ..)
    (Instrument.drainStep_lastAppliedInstrumentSeq ..) (i.drainStep_sides held own.wellFormed.1 wf)

theorem CatchingUp.catchUp {i : Instrument} (h : CatchingUp pub i.openSnapshot i) {rec : Record}
    (own : pub.Emits rec) (next : rec.perInstrumentSeq = i.nextExpectedInstrumentSeq) :
    CatchingUp pub i.openSnapshot (i.catchUp rec) := by
  have hwf := (h.holds.advance_mutate rec).wellFormed
  refine Instrument.drainPending_induction (P := CatchingUp pub i.openSnapshot)
    (fun _ _ _ hj hheld hpr _ ↦ hj.drainStep hheld hpr) _ hwf ?_
  refine ⟨?_, by simp [h.status], h.holds.advance_mutate rec, by simp⟩
  refine h.book.apply h.status own next (by simp) rfl ?_
  exact i.mutate_sides own.wellFormed.1 own.wellFormed.2

/-! ### Moves -/

theorem FaithfulBook.of_not_ready {i : Instrument} (hlost : i.lostInstrumentSeq = ∅)
    (hstatus : i.status ≠ .ready) : FaithfulBook pub i :=
  ⟨hlost, fun ready ↦ absurd ready hstatus⟩

theorem FaithfulBook.new (id : ℕ) (symbol : String) (priceExp qtyExp : ℤ) :
    FaithfulBook pub (Instrument.new id symbol priceExp qtyExp) :=
  of_not_ready rfl (by simp [Instrument.new])

theorem Transition.faithful {i i' : Instrument} (htrans : Transition pub.Emits i i')
    (hi : i.Holds pub.Emits) (h : FaithfulBook pub i) :
    FaithfulBook pub i' ∧ i'.openSnapshot = i.openSnapshot := by
  cases htrans with
  | hold => exact ⟨⟨h.lost, h.ready⟩, rfl⟩
  | gap =>
      refine ⟨FaithfulBook.of_not_ready ?_ (by simp), Instrument.declareGap_openSnapshot ..⟩
      rw [Instrument.declareGap_lost]
      exact h.lost
  | demote ready own malformed => exact absurd own.wellFormed.2 malformed
  | contiguous ready own wf next =>
      have hcatch := CatchingUp.catchUp ⟨h, ready, hi, rfl⟩ own next
      exact ⟨hcatch.book, hcatch.shadow⟩

theorem Faithful.instrumentFor {v : View} (h : Faithful pub pre v) (id : ℕ) :
    FaithfulBook pub (v.instrumentFor id) ∧
      ∀ p, (v.instrumentFor id).openSnapshot = some p → Partial pub pre p := by
  rw [View.instrumentFor]
  split
  next i hi => exact ⟨h.book i hi, fun p hp ↦ h.shadow i p hi hp⟩
  next => exact ⟨FaithfulBook.new .., by rintro p ⟨⟩⟩

theorem View.Move.faithful {v v' : View} {id : ℕ} (hmove : Move pub.Emits id v v')
    (hv : v.Holds pub.Emits) (h : Faithful pub pre v) : Faithful pub pre v' := by
  cases hmove with
  | turn here transition =>
      obtain ⟨hbook, hshadow⟩ := transition.faithful (hv.pending _ here) (h.book _ here)
      constructor
      · rintro j ⟨⟩
        exact hbook
      · rintro j p ⟨⟩ hp
        exact h.shadow _ p here (hshadow ▸ hp)
  | buffer => exact ⟨h.book, h.shadow⟩
  | evict here =>
      obtain ⟨hbook, hshadow⟩ := h.instrumentFor id
      constructor
      · rintro j ⟨⟩
        exact FaithfulBook.of_not_ready (by simpa using hbook.lost) (by simp)
      · rintro j p ⟨⟩ hp
        exact hshadow p (by simpa using hp)

/-! ### Actions -/

theorem Partial.snoc {p : PendingSnapshot} (h : Partial pub pre p) (a : Turn) :
    Partial pub (pre ++ [a]) p := by
  refine { h with delivered := fun ask price l hl ↦ ?_ }
  rw [Publisher.levels_snoc]
  exact List.mem_append_left _ (h.delivered ask price l hl)

theorem Faithful.snoc {v : View} (h : Faithful pub pre v) (a : Turn) :
    Faithful pub (pre ++ [a]) v :=
  ⟨h.book, fun i p hi hp ↦ (h.shadow i p hi hp).snoc a⟩

/-- An empty shadow for a capture. -/
theorem Partial.begin {rec : Record} (h : pub.Begins rec) (depthBound : ℕ) :
    Partial pub pre
      { snapshotID := rec.snapshotGroup.snapshotID
        anchorSeq := rec.snapshotGroup.anchorSeq
        totalLevels := rec.snapshotGroup.totalLevels
        lastInstrumentSeq := rec.snapshotGroup.lastInstrumentSeq
        depthBound := depthBound
        receivedLevels := 0, bids := ∅, asks := ∅ } := by
  obtain ⟨c, hc, -, hlast, htotal⟩ := h
  refine ⟨⟨c, hc, hlast, htotal, fun ask price l hl ↦ ?_⟩, toUint32_lt _, rfl, ?_⟩
  · cases ask <;> simp [PendingSnapshot.sides, Sides.side] at hl
  · rintro ask price l hl
    cases ask <;> simp [PendingSnapshot.sides, Sides.side] at hl

theorem size_insert_of_none {book : Book} {price : ℤ} (h : book[price]? = none) (l : LevelState) :
    (book.insert price l).size = book.size + 1 := by
  rw [← size_erase_add_one (m := book.insert price l) (k := price) (v := l) (by simp)]
  congr 2
  refine ExtTreeMap.ext_getElem? fun p ↦ ?_
  rw [getElem?_erase_eq, getElem?_insert_eq]
  split
  next hp => rw [← hp, h]
  next => rfl

theorem Sides.size_onSide_insert {b : Sides} {ask : Bool} {price : ℤ}
    (h : (b.side ask)[price]? = none) (l : LevelState) :
    (b.onSide ask fun book ↦ book.insert price l).size = b.size + 1 := by
  cases ask
  · have := size_insert_of_none h l
    simp only [Sides.size, Sides.onSide, Sides.side] at this ⊢
    simp at this ⊢
    omega
  · have := size_insert_of_none h l
    simp only [Sides.size, Sides.onSide, Sides.side] at this ⊢
    simp at this ⊢
    omega

/-- A level that was not delivered before joins the shadow of its group and is counted. -/
theorem Partial.level {p : PendingSnapshot} (h : Partial pub pre p) {rec : Record}
    (hsent : pub.Captures rec)
    (hfresh : (toUint32 rec.fields.snapshotId, rec.ask, rec.price) ∉ Publisher.levels k pre)
    {a : Turn} (ha : Publisher.levelOf k a =
      some (toUint32 rec.fields.snapshotId, rec.ask, rec.price)) :
    Partial pub (pre ++ [a]) (Instrument.shadowAfter rec p) := by
  rw [Instrument.shadowAfter]
  split
  next => exact h.snoc a
  next hid =>
    rw [not_not] at hid
    obtain ⟨c, hc, hlast, htotal, hsub⟩ := h.captured
    obtain ⟨c', hc', hlevel⟩ := hsent
    obtain rfl : c = c' := by rw [hid, hc'] at hc; exact (Option.some.inj hc).symm
    change Partial pub _ (p.addLevel (sideFromString rec.fields.side) rec.price rec.level)
    have hsides := Instrument.addLevel_sides p rec
    have hnone : (p.sides.side rec.ask)[rec.price]? = none := by
      cases hl : (p.sides.side rec.ask)[rec.price]? with
      | none => rfl
      | some l => exact absurd (hid ▸ h.delivered _ _ l hl) hfresh
    have hsub' : (p.addLevel (sideFromString rec.fields.side) rec.price rec.level).sides.Sub
        (pub.bookAfter c.lastInstrumentSeq) := by
      rintro ask price l hl
      rw [hsides, Sides.side_onSide] at hl
      split at hl
      next hask =>
        subst hask
        rw [getElem?_insert_eq] at hl
        split at hl
        next hprice => rwa [← hprice, ← Option.some.inj hl]
        next => exact hsub _ _ _ hl
      next => exact hsub _ _ _ hl
    have hsize := Sides.size_onSide_insert hnone rec.level
    have hcount := h.count
    have hfit := hsub'.size_le
    have htotal_lt := h.total_lt
    rw [hsides, hsize] at hfit
    rw [Instrument.addLevel_frame]
    refine ⟨⟨c, hc, hlast, htotal, hsub'⟩, h.total_lt, ?_, ?_⟩
    · change (p.receivedLevels + 1) % 2 ^ 32 =
        (p.addLevel (sideFromString rec.fields.side) rec.price rec.level).sides.size
      rw [hsides, hsize]
      omega
    · rintro ask price l hl
      change ((p.addLevel (sideFromString rec.fields.side) rec.price
        rec.level).sides.side ask)[price]? = some l at hl
      change (p.snapshotID, ask, price) ∈ _
      rw [Publisher.levels_snoc, ha, Option.toList_some, List.mem_append, List.mem_singleton]
      rw [hsides, Sides.side_onSide] at hl
      split at hl
      next hask =>
        subst hask
        rw [getElem?_insert_eq] at hl
        split at hl
        next hprice =>
          subst hprice
          rw [hid]
          exact Or.inr rfl
        next => exact Or.inl (h.delivered _ _ _ hl)
      next => exact Or.inl (h.delivered _ _ _ hl)

/-- A committed shadow is the captured book: as many of its levels as it has. -/
theorem Partial.commit {p : PendingSnapshot} (h : Partial pub pre p)
    (hcount : p.receivedLevels = p.totalLevels) : p.lastInstrumentSeq ≤ pub.n ∧
      p.sides = pub.bookAfter p.lastInstrumentSeq := by
  obtain ⟨c, hc, hlast, htotal, hsub⟩ := h.captured
  rw [hlast]
  refine ⟨pub.capture_le _ c hc, hsub.eq_of_size_eq ?_⟩
  rw [← h.count, hcount, htotal]

theorem Faithful.record {v : View} (h : Faithful pub pre v) {a : Turn} {rec : Record}
    (ha : a.2 = .record rec) (hkey : rec.key = k) (hsent : pub.Sends rec)
    (honce : (Publisher.levels k (pre ++ [a])).Nodup) :
    Faithful pub (pre ++ [a]) (v.record k.id rec) := by
  have h' := h.snoc a
  rw [View.record]
  rw [Publisher.Sends] at hsent
  cases htype : rec.type with
  | instrumentDefinition =>
      constructor
      · rintro j ⟨⟩
        cases hinst : v.inst with
        | none => exact FaithfulBook.new ..
        | some i => exact ⟨(h'.book i hinst).lost, (h'.book i hinst).ready⟩
      · rintro j p ⟨⟩ hp
        cases hinst : v.inst with
        | none => simp [hinst, Instrument.new] at hp
        | some i => exact h'.shadow i p hinst (by simpa [hinst, Instrument.describe] using hp)
  | strikeInterval => exact ⟨h'.book, h'.shadow⟩
  | snapshotBegin =>
      rw [htype] at hsent
      obtain ⟨hbook, hshadow⟩ := h'.instrumentFor k.id
      rcases (v.instrumentFor k.id).snapshotBegin_cases rec with heq | ⟨-, -, -, heq⟩
      · constructor
        · rintro j ⟨⟩
          rw [heq]
          exact ⟨hbook.lost, hbook.ready⟩
        · rintro j p ⟨⟩ hp
          rw [heq] at hp
          exact hshadow p hp
      · constructor
        · rintro j ⟨⟩
          rw [heq]
          exact ⟨hbook.lost, hbook.ready⟩
        · rintro j p ⟨⟩ hp
          rw [heq] at hp
          obtain rfl := Option.some.inj hp
          exact Partial.begin hsent _
  | snapshotLevel =>
      rw [htype] at hsent
      have hlevel : Publisher.levelOf k a =
          some (toUint32 rec.fields.snapshotId, rec.ask, rec.price) := by
        simp [Publisher.levelOf, ha, hkey, htype]
      have hfresh : (toUint32 rec.fields.snapshotId, rec.ask, rec.price) ∉
          Publisher.levels k pre := by
        rw [Publisher.levels_snoc, hlevel, Option.toList_some, List.nodup_append] at honce
        exact fun hmem ↦ honce.2.2 _ hmem _ (List.mem_singleton_self _) rfl
      constructor
      · rintro j hj
        obtain ⟨i, hi, rfl⟩ := Option.map_eq_some_iff.mp hj
        rw [Instrument.snapshotLevel_eq]
        exact ⟨(h'.book i hi).lost, (h'.book i hi).ready⟩
      · rintro j p hj hp
        obtain ⟨i, hi, rfl⟩ := Option.map_eq_some_iff.mp hj
        rw [Instrument.snapshotLevel_eq] at hp
        obtain ⟨p', hp', rfl⟩ := Option.map_eq_some_iff.mp hp
        exact (h.shadow i p' hi hp').level hsent hfresh hlevel
  | snapshotEnd =>
      cases hinst : v.inst with
      | none => simpa [hinst] using h'
      | some i =>
          cases hopen : i.openSnapshot with
          | none => simpa [hinst, hopen] using h'
          | some p =>
              simp only [hopen, Option.isNone_some, Bool.false_eq_true, if_false]
              cases hend : (i.snapshotEnd rec).2 with
              | some err =>
                  constructor
                  · rintro j ⟨⟩
                    rw [Instrument.snapshotEnd_of_err hend]
                    exact ⟨(h'.book i hinst).lost, (h'.book i hinst).ready⟩
                  · rintro j q ⟨⟩ hq
                    rw [Instrument.snapshotEnd_of_err hend] at hq
                    exact absurd hq (by simp)
              | none =>
                  have hp := (Instrument.snapshotEnd_eq_none_iff rec hopen).mp hend
                  rw [Instrument.snapshotEnd_of_commit hopen hp]
                  constructor
                  · rintro j ⟨⟩
                    refine ⟨?_, fun _ ↦ (h'.shadow i p hinst hopen).commit hp.count⟩
                    change (i.commitSnapshot p).lostInstrumentSeq = ∅
                    simp [(h'.book i hinst).lost]
                  · rintro j q ⟨⟩ hq
                    exact absurd hq (by simp)
  | instrumentReset => exact absurd hsent (by simp [htype])
  | levelUpdate | bookClear | batchBoundary | trade | liquidation | heartbeat | manifestSummary
    | endOfSession | other => exact h'

theorem Faithful.empty : Faithful pub pre View.empty :=
  ⟨by rintro i ⟨⟩, by rintro i p ⟨⟩⟩

theorem Faithful.act {v : View} (h : Faithful pub pre v) {a : Turn} (hallow : pub.Allows a.2)
    (honce : (Publisher.levels k (pre ++ [a])).Nodup) :
    Faithful pub (pre ++ [a]) (v.act k a.2) := by
  cases hmsg : a.2 with
  | record rec =>
      rw [View.act]
      rw [hmsg] at hallow
      split
      next hkey => exact h.record hmsg hkey (hallow hkey) honce
      next => exact h.snoc a
  | reset ch =>
      rw [View.act]
      split
      · exact Faithful.empty
      · exact h.snoc a
  | fence => exact h.snoc a
  | manifestPrune seq =>
      rw [View.act]
      split
      · exact Faithful.empty
      · exact h.snoc a
  | clearShadows =>
      constructor
      · rintro j hj
        obtain ⟨i, hi, rfl⟩ := Option.map_eq_some_iff.mp hj
        exact ⟨(h.book i hi).lost, (h.book i hi).ready⟩
      · rintro j p hj hp
        obtain ⟨i, hi, rfl⟩ := Option.map_eq_some_iff.mp hj
        exact absurd hp (by simp)

/-! ## The theorem -/

namespace Shard

/-- Every reachable shard is faithful to the publisher. -/
theorem run_faithful (maxBuffered : ℤ) (symbols : Option (List String)) {as : List Turn}
    (h : pub.Delivers as) :
    Faithful pub as ((run step (new maxBuffered symbols) as).view k) := by
  have hmine (rec : Record) (hown : Emitted pub k rec) : pub.Emits rec := hown rfl
  refine run_view (Q := Emitted pub) (P := Faithful pub)
    (fun k ↦ new_holds maxBuffered symbols _ k) (fun a ha rec hrec delta hkey ↦ ?_) ?_ ?_ ?_
  · have hallow := h.allows a ha
    rw [hrec] at hallow
    have hsent := hallow hkey
    cases htype : rec.type <;> simp [Record.isDelta, htype] at delta <;>
      simpa [Publisher.Sends, htype] using hsent
  · rw [new_view]
    exact Faithful.empty
  · intro pre a v hpre hv hfaithful
    refine hfaithful.act (h.allows a (hpre.subset (by simp))) (h.once.sublist ?_)
    exact (hpre.filterMap _).sublist
  · intro pre v v' hpre hmove hv hfaithful
    exact (hmove.mono hmine).faithful (hv.mono hmine) hfaithful

/-- **Book safety.**  Whatever the deliveries, a ready book is the publisher's book after the
last delta applied. -/
theorem book_safety (maxBuffered : ℤ) (symbols : Option (List String)) {as : List Turn}
    (h : pub.Delivers as) {i : Instrument}
    (hi : (run step (new maxBuffered symbols) as).instruments[k]? = some i)
    (ready : i.status = .ready) :
    i.bids = (pub.bookAfter i.lastAppliedInstrumentSeq).bids ∧
      i.asks = (pub.bookAfter i.lastAppliedInstrumentSeq).asks := by
  obtain ⟨-, hsides⟩ := ((run_faithful maxBuffered symbols h).book i hi).ready ready
  rw [← hsides]
  exact ⟨rfl, rfl⟩

/-- A publisher that adds a bid with every delta and captured its book after the first. -/
def bidPublisher : Publisher ⟨0, 11⟩ where
  n := 100
  n_lt := by decide
  delta := fun m ↦ levelUpdateRec ⟨0, 11⟩ m m .bid (900 + m) 3
  delta_key := fun _ _ _ ↦ rfl
  delta_isDelta := fun _ _ _ ↦ rfl
  delta_wellFormed := fun _ _ _ ↦ rfl
  delta_seq := fun m _ hm ↦ toUint32_natCast (by omega)
  delta_mono := fun _ _ _ hlm _ ↦ hlm
  capture := fun id ↦ if id = 1 then some ⟨1, 1⟩ else none
  capture_le := by
    rintro id c hc
    obtain ⟨-, hc⟩ := Option.ite_none_right_eq_some.mp hc
    rw [← Option.some.inj hc]
    decide

/-- The second delta ahead of the definition, the capture, and the second delta again. -/
def bidDelivery : List Turn :=
  [.record (bidPublisher.delta 2), .record (instDefRec ⟨0, 11⟩ "BTC" 5),
    .record (snapBeginRec ⟨0, 11⟩ 1 1 1 1),
    .record { snapLevelRec ⟨0, 11⟩ 1 .bid 901 3 with
      fields := { snapshotId := 1, side := .bid, priceRaw := 901, qtyRaw := 3
                  orderCount := some 1 } },
    .record (snapEndRec ⟨0, 11⟩ 1 1), .record (bidPublisher.delta 2)].map fun msg ↦ (default, msg)

theorem bidDelivery_delivers : bidPublisher.Delivers bidDelivery where
  allows := by
    simp only [bidDelivery, List.map_cons, List.map_nil, List.forall_mem_cons]
    refine ⟨fun _ ↦ ⟨2, by decide, by decide, rfl⟩, fun _ ↦ trivial,
      fun _ ↦ ⟨⟨1, 1⟩, rfl, rfl, rfl, rfl⟩, fun _ ↦ ⟨⟨1, 1⟩, rfl, rfl⟩,
      fun _ ↦ ⟨⟨1, 1⟩, rfl, rfl⟩, fun _ ↦ ⟨2, by decide, by decide, rfl⟩, by simp⟩
  once := by decide

theorem book_safety_bid :
    ∃ i, (run step (new 10 none) bidDelivery).instruments[(⟨0, 11⟩ : InstKey)]? = some i ∧
      i.lastAppliedInstrumentSeq = 2 ∧ i.bids = (bidPublisher.bookAfter 2).bids ∧
      i.asks = (bidPublisher.bookAfter 2).asks := by
  have hsome : ((run step (new 10 none) bidDelivery).instruments[(⟨0, 11⟩ : InstKey)]?).isSome :=
    by decide
  obtain ⟨i, hi⟩ := Option.isSome_iff_exists.mp hsome
  have hready : i.status = .ready ∧ i.lastAppliedInstrumentSeq = 2 := by
    have : (((run step (new 10 none) bidDelivery).instruments[(⟨0, 11⟩ : InstKey)]?).any
        fun i ↦ decide (i.status = .ready ∧ i.lastAppliedInstrumentSeq = 2)) = true := by decide
    rw [hi] at this
    simpa using this
  have hbook := book_safety 10 none bidDelivery_delivers hi hready.1
  rw [hready.2] at hbook
  exact ⟨i, hi, hready.2, hbook⟩

end Shard

end EdgeMulticast.MarketByPrice
