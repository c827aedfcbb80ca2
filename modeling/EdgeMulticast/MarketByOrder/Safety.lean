import EdgeMulticast.MarketByOrder.Publisher

/-!
# Safety of the market-by-order book

A ready instrument holds the publisher's resting orders.  The refinement is an invariant of the
view (`Faithful`): a ready instrument holds what rests after its last applied delta, a shadow
holds orders of the captured book, as many as were counted and none that was not delivered, and
an open group is the one the feed began last.

Deltas left in the reorder window by an earlier life of the book do no harm: whatever stands
under the expected number is the publisher's next delta.  A replay that went through a gap may
fill the window of an instrument that is not ready; it changes a book nobody reads, and the next
commit replaces it.
-/

namespace EdgeMulticast.MarketByOrder

open Std (ExtTreeMap)
open EdgeMulticast.Lib

variable {k : InstKey} (pub : Publisher k)

/-! ## The invariant -/

/-- The instrument holds what rests after its last applied delta. -/
structure Tracks (i : Instrument) : Prop where
  le : i.lastAppliedInstrumentSeq ≤ pub.n
  rests : i.Rests (pub.book i.lastAppliedInstrumentSeq)

/-- One side of a shadow. -/
def PendingSnapshot.side (p : PendingSnapshot) (ask : Bool) : Orders := if ask then p.asks else p.bids

/-- A shadow filled with orders of a capture, each counted once and each delivered. -/
structure Partial (f : Feed) (p : PendingSnapshot) : Prop where
  captured : ∃ m, pub.capture p.snapshotID = some m ∧ p.lastInstrumentSeq = m ∧
    p.totalOrders = (pub.book m).size ∧
    ∀ ask, Submap (p.side ask).resting (onSide (pub.book m) ask)
  total_lt : p.totalOrders < 2 ^ 32
  count : p.receivedOrders = p.bids.size + p.asks.size
  delivered : ∀ (ask : Bool) (id : ℕ) (o : RestingOrder), (p.side ask)[id]? = some o →
    (p.snapshotID, id) ∈ f.orders

/-- The refinement, seen from the instrument. -/
structure Faithful (f : Feed) (v : View) : Prop where
  book : ∀ i, v.inst = some i → i.status = .ready → Tracks pub i
  shadow : ∀ i p, v.inst = some i → i.openSnapshot = some p → Partial pub f p
  group : ∀ g, v.group = some g → f.group = some g

/-- The deltas an instrument may hold: for `k`, those the publisher emits. -/
def Emitted (k' : InstKey) (rec : Record) : Prop := k' = k → pub.Emits rec

variable {pub} {f : Feed}

/-! ## Deltas -/

theorem Publisher.book_succ (m : ℕ) :
    pub.book (m + 1) = restingAfter (pub.book m) (pub.delta (m + 1)) := rfl

/-- The publisher's delta under the expected number is its next one. -/
theorem Publisher.Emits.next {rec : Record} (h : pub.Emits rec) {i : Instrument}
    (hlast : i.lastAppliedInstrumentSeq ≤ pub.n) (hseq : rec.perInstrumentSeq = i.expected) :
    i.lastAppliedInstrumentSeq + 1 ≤ pub.n ∧
      rec.perInstrumentSeq = i.lastAppliedInstrumentSeq + 1 ∧
      rec = pub.delta (i.lastAppliedInstrumentSeq + 1) := by
  obtain ⟨m, hm₁, hm₂, rfl⟩ := h
  have hn := pub.n_lt
  rw [pub.delta_seq m hm₁ hm₂, Instrument.expected] at hseq
  obtain rfl : m = i.lastAppliedInstrumentSeq + 1 := by omega
  exact ⟨hm₂, pub.delta_seq _ hm₁ hm₂, rfl⟩

/-- Applying the expected delta keeps the book the publisher's. -/
theorem Tracks.apply {i j : Instrument} (h : Tracks pub i) {rec : Record} (own : pub.Emits rec)
    (next : rec.perInstrumentSeq = i.expected)
    (hlast : j.lastAppliedInstrumentSeq = rec.perInstrumentSeq)
    (hbids : j.bids = (i.mutate rec).bids) (hasks : j.asks = (i.mutate rec).asks) :
    Tracks pub j := by
  obtain ⟨hn, hseq, hrec⟩ := own.next h.le next
  have hfresh : rec.type = .orderAdd →
      (pub.book i.lastAppliedInstrumentSeq)[rec.orderID]? = none := by
    rw [hrec]
    exact pub.delta_fresh _ hn
  have hmutate := h.rests.mutate (bookAfter_keyed _ _) hfresh
  constructor
  · rw [hlast, hseq]
    exact hn
  · rw [hlast, hseq, Publisher.book_succ, ← hrec]
    exact hmutate.congr hbids hasks

/-- What a drain carries from round to round. -/
structure CatchingUp (pub : Publisher k) (i : Instrument) : Prop where
  holds : i.Holds pub.Emits
  tracks : i.status = .ready → Tracks pub i

theorem CatchingUp.take {i : Instrument} (h : CatchingUp pub i) {pr : Record}
    (hpr : i.next = some pr) : CatchingUp pub (i.take pr) := by
  obtain ⟨own, hseq⟩ := h.holds _ pr hpr
  refine ⟨h.holds.take pr, fun ready ↦ ?_⟩
  obtain ⟨hbids, hasks⟩ := i.take_book pr
  exact (h.tracks (by simpa using ready)).apply own hseq (by simp) hbids hasks

theorem CatchingUp.catchUp {i : Instrument} (h : CatchingUp pub i) {rec : Record}
    (own : pub.Emits rec) (next : rec.perInstrumentSeq = i.expected) :
    CatchingUp pub (i.catchUp rec) := by
  refine Instrument.drainPending_induction (P := CatchingUp pub) (fun _ _ h hpr ↦ h.take hpr) _
    ⟨h.holds.congr (by simp), fun ready ↦ ?_⟩
  exact (h.tracks (by simpa using ready)).apply own next rfl rfl rfl

/-- Classifying a delta keeps a ready book the publisher's, and makes no book ready. -/
theorem Transition.tracks {i i' : Instrument} (h : Transition pub.Emits i i')
    (hi : i.Holds pub.Emits) (htracks : i.status = .ready → Tracks pub i) :
    i'.status = .ready → Tracks pub i' := by
  cases h with
  | hold => exact fun ready ↦ ⟨(htracks ready).le, (htracks ready).rests⟩
  | gap => exact fun ready ↦ absurd ready (by simp [Instrument.declareGap])
  | contiguous own next => exact (CatchingUp.mk hi htracks |>.catchUp own next).tracks

theorem Transition.openSnapshot {Q : Record → Prop} {i i' : Instrument} (h : Transition Q i i') :
    i'.openSnapshot = i.openSnapshot := by
  cases h with
  | hold => rfl
  | gap => rfl
  | contiguous => exact Instrument.catchUp_openSnapshot ..

theorem View.Move.faithful {v v' : View} {R : Prop} (hmove : Move pub.Emits R v v')
    (hv : v.Holds pub.Emits) (h : Faithful pub f v) : Faithful pub f v' := by
  cases hmove with
  | turn here live transition =>
      refine ⟨?_, ?_, h.group⟩
      · rintro j ⟨⟩
        exact transition.tracks (hv.pending _ here) (h.book _ here)
      · rintro j p ⟨⟩ hp
        exact h.shadow _ p here (transition.openSnapshot ▸ hp)
  | buffer => exact ⟨h.book, h.shadow, h.group⟩
  | drop => exact ⟨h.book, h.shadow, h.group⟩

/-! ## Snapshots -/

theorem Partial.next {p : PendingSnapshot} (h : Partial pub f p) (a : Turn) :
    Partial pub (f.next k a) p :=
  { h with delivered := fun ask id o ho ↦ Feed.mem_orders_next (h.delivered ask id o ho) a }

/-- An empty shadow for a capture. -/
theorem Partial.begin {rec : Record} (h : pub.Begins rec) :
    Partial pub f
      { snapshotID := rec.snapshotID
        anchorSeq := toUint64 rec.fields.anchorSeq
        totalOrders := toUint32 rec.fields.totalOrders
        lastInstrumentSeq := toUint32 rec.fields.lastInstrumentSeq
        receivedOrders := 0, bids := ∅, asks := ∅ } := by
  obtain ⟨m, hm, hlast, -, htotal⟩ := h
  refine ⟨⟨m, hm, hlast, htotal, fun ask id o ho ↦ ?_⟩, toUint32_lt _, rfl, ?_⟩
  · cases ask <;> simp [PendingSnapshot.side, getElem?_resting] at ho
  · rintro ask id o ho
    cases ask <;> simp [PendingSnapshot.side] at ho

theorem size_insert_fresh {book : Orders} {id : ℕ} (h : book[id]? = none) (o : RestingOrder) :
    (book.insert id o).size = book.size + 1 := by
  rw [← size_erase_add_one (m := book.insert id o) (k := id) (v := o) (by simp)]
  congr 2
  refine ExtTreeMap.ext_getElem? fun x ↦ ?_
  rw [getElem?_erase_eq, getElem?_insert_eq]
  split
  next hx => rw [← hx, h]
  next => rfl

@[simp] theorem Record.order_feedOrder (rec : Record) : rec.order.feedOrder = rec.feedOrder := by
  cases hside : rec.fields.side <;>
    simp [RestingOrder.feedOrder, Record.order, Record.feedOrder, Record.ask, sideFromString, hside]

/-- Filing an order puts it on its side and counts it. -/
theorem PendingSnapshot.addOrder_eq (p : PendingSnapshot) (rec : Record) :
    (p.addOrder rec.order).snapshotID = p.snapshotID ∧
      (p.addOrder rec.order).lastInstrumentSeq = p.lastInstrumentSeq ∧
      (p.addOrder rec.order).totalOrders = p.totalOrders ∧
      (p.addOrder rec.order).receivedOrders = (p.receivedOrders + 1) % 2 ^ 32 ∧
      ∀ ask, (p.addOrder rec.order).side ask =
        if rec.ask = ask then (p.side ask).insert rec.orderID rec.order else p.side ask := by
  have hid : rec.order.orderID = rec.orderID := rfl
  have hzero : rec.order.side = 0 ↔ rec.ask = false := by
    cases hside : rec.fields.side <;> simp [Record.order, Record.ask, sideFromString, hside]
  simp only [PendingSnapshot.addOrder, hid, hzero]
  split
  next hbid => exact ⟨rfl, rfl, rfl, rfl, fun ask ↦ by cases ask <;> simp [PendingSnapshot.side, hbid]⟩
  next hask =>
    rw [Bool.not_eq_false] at hask
    exact ⟨rfl, rfl, rfl, rfl, fun ask ↦ by cases ask <;> simp [PendingSnapshot.side, hask]⟩

/-- An order that was not delivered before joins the shadow of its group and is counted. -/
theorem Partial.order {p : PendingSnapshot} (h : Partial pub f p) {rec : Record} {a : Turn}
    (hsent : pub.Captures rec) (hfresh : (rec.snapshotID, rec.orderID) ∉ f.orders)
    (hnext : (f.next k a).orders = (rec.snapshotID, rec.orderID) :: f.orders) :
    Partial pub (f.next k a) (Instrument.shadowAfter rec p) := by
  rw [Instrument.shadowAfter]
  split
  next => exact h.next a
  next hid =>
    rw [not_not] at hid
    obtain ⟨m, hm, hlast, htotal, hsub⟩ := h.captured
    obtain ⟨m', hm', horder⟩ := hsent
    obtain rfl : m = m' := by rw [hid, hm'] at hm; exact (Option.some.inj hm).symm
    obtain ⟨hsnap, hlast', htotal', hcount', hside⟩ := p.addOrder_eq rec
    have hnone (ask : Bool) : (p.side ask)[rec.orderID]? = none := by
      cases ho : (p.side ask)[rec.orderID]? with
      | none => rfl
      | some o => exact absurd (hid ▸ h.delivered _ _ o ho) hfresh
    have hsub' : ∀ ask, Submap ((p.addOrder rec.order).side ask).resting
        (onSide (pub.book m) ask) := by
      intro ask id o ho
      rw [hside] at ho
      split at ho
      next hask =>
        rw [getElem?_resting, getElem?_insert_eq] at ho
        split at ho
        next hx =>
          obtain rfl : rec.feedOrder = o := by simpa using ho
          have hmine : decide (rec.feedOrder.ask = ask) = true := decide_eq_true hask
          rw [getElem?_onSide, ← hx, horder, Option.filter_some, if_pos hmine]
        next =>
          rw [← getElem?_resting] at ho
          exact hsub ask id o ho
      next => exact hsub ask id o ho
    have hsize : (p.addOrder rec.order).bids.size + (p.addOrder rec.order).asks.size =
        p.bids.size + p.asks.size + 1 := by
      have hbids := hside false
      have hasks := hside true
      have hbid := hnone false
      have hask := hnone true
      simp only [PendingSnapshot.side, Bool.false_eq_true, if_false, if_true] at hbids hasks hbid hask
      rw [hbids, hasks]
      cases rec.ask
      · simp only [if_true, Bool.false_eq_true, if_false, size_insert_fresh hbid]
        omega
      · simp only [Bool.true_eq_false, if_true, if_false, size_insert_fresh hask]
        omega
    have hfit : (p.addOrder rec.order).bids.size + (p.addOrder rec.order).asks.size ≤
        (pub.book m).size := by
      have hbids := (hsub' false).size_le
      have hasks := (hsub' true).size_le
      rw [size_resting] at hbids hasks
      rw [← size_onSide]
      exact Nat.add_le_add hbids hasks
    have hcount := h.count
    have hlt := h.total_lt
    refine ⟨⟨m, hsnap ▸ hm, hlast' ▸ hlast, htotal' ▸ htotal, hsub'⟩, htotal' ▸ h.total_lt, ?_, ?_⟩
    · rw [hcount', hsize]
      omega
    · rintro ask id o ho
      rw [hside] at ho
      rw [hnext, hsnap]
      split at ho
      · rw [getElem?_insert_eq] at ho
        split at ho
        next hx =>
          rw [hid, hx]
          exact List.mem_cons_self
        next => exact List.mem_cons_of_mem _ (h.delivered _ _ _ ho)
      · exact List.mem_cons_of_mem _ (h.delivered _ _ _ ho)

/-- A committed shadow is the captured book: as many of its orders as it has. -/
theorem Partial.commit {p : PendingSnapshot} (h : Partial pub f p)
    (hcount : p.receivedOrders = p.totalOrders) (i : Instrument) :
    Tracks pub (i.commitSnapshot p) := by
  obtain ⟨m, hm, hlast, htotal, hsub⟩ := h.captured
  have hlast' : (i.commitSnapshot p).lastAppliedInstrumentSeq = m := hlast
  refine ⟨hlast' ▸ pub.capture_le _ m hm, fun ask ↦ ?_⟩
  have hside : (i.commitSnapshot p).side ask = p.side ask := by cases ask <;> rfl
  rw [hside, hlast']
  have hall := h.count
  rw [hcount, htotal, ← size_onSide] at hall
  have hbids := (hsub false).size_le
  have hasks := (hsub true).size_le
  refine (hsub ask).eq_of_size_le ?_
  rw [size_resting] at hbids hasks ⊢
  cases ask <;> simp only [PendingSnapshot.side, Bool.false_eq_true, if_false, if_true] at * <;>
    omega

/-! ## Messages -/

theorem Faithful.empty : Faithful pub f View.empty :=
  ⟨by rintro i ⟨⟩, by rintro i p ⟨⟩, by rintro g ⟨⟩⟩

/-- A message that opens no group on the channel and carries no order. -/
theorem Faithful.next {v : View} (h : Faithful pub f v) (a : Turn)
    (hgroup : (f.next k a).group = f.group) : Faithful pub (f.next k a) v where
  book := h.book
  shadow := fun i p hi hp ↦ (h.shadow i p hi hp).next a
  group := fun g hg ↦ hgroup ▸ h.group g hg

/-- The instrument a definition or a begin finds or makes. -/
theorem Faithful.getD {v : View} (h : Faithful pub f v) (id : ℕ) :
    ((v.inst.getD (Instrument.new id "" 0 0)).status = .ready →
        Tracks pub (v.inst.getD (Instrument.new id "" 0 0))) ∧
      ∀ p, (v.inst.getD (Instrument.new id "" 0 0)).openSnapshot = some p → Partial pub f p := by
  cases hinst : v.inst with
  | none => exact ⟨fun ready ↦ absurd ready (by simp [Instrument.new]), by rintro p ⟨⟩⟩
  | some i => exact ⟨h.book i hinst, fun p hp ↦ h.shadow i p hinst hp⟩

theorem Faithful.record {v : View} (h : Faithful pub f v) {a : Turn} {rec : Record}
    (ha : a.2 = .record rec) (hsent : rec.key = k → pub.Sends rec)
    (horder : rec.type = .snapshotOrder → f.Joins k rec →
      pub.Captures rec ∧ (rec.snapshotID, rec.orderID) ∉ f.orders) :
    Faithful pub (f.next k a) (v.record k rec) := by
  rw [Publisher.Sends] at hsent
  rw [View.record]
  cases htype : rec.type with
  | instrumentDefinition =>
      have h' := h.next a (by simp [Feed.next, ha, htype])
      dsimp only
      split
      next =>
        obtain ⟨hbook, hshadow⟩ := h'.getD k.id
        refine ⟨?_, ?_, h'.group⟩
        · rintro j ⟨⟩ ready
          exact ⟨(hbook ready).le, (hbook ready).rests⟩
        · rintro j p ⟨⟩ hp
          exact hshadow p hp
      next => exact h'
  | snapshotBegin =>
      obtain ⟨hbook, hshadow⟩ := h.getD k.id
      refine ⟨fun j hj ready ↦ ?_, fun j p hj hp ↦ ?_, fun g hg ↦ ?_⟩
      · dsimp only at hj
        split at hj
        · obtain rfl := Option.some.inj hj
          rw [Instrument.begun_status] at ready
          have htracks := hbook ready
          rw [Instrument.begun, if_pos ready]
          exact htracks
        · exact h.book j hj ready
      · dsimp only at hj
        split at hj
        next hkey =>
          have hbegins : pub.Begins rec := by
            have := hsent hkey
            rwa [htype] at this
          obtain rfl := Option.some.inj hj
          rw [Instrument.begun] at hp
          split at hp
          · exact (hshadow p hp).next a
          · obtain rfl := Option.some.inj hp
            exact Partial.begin hbegins
        next => exact (h.shadow j p hj hp).next a
      · dsimp only at hg
        simp only [Feed.next, ha, htype]
        split at hg
        next hch =>
          rw [if_pos hch]
          exact hg
        next hch =>
          rw [if_neg hch]
          exact h.group g hg
  | snapshotOrder =>
      have hgroup : (f.next k a).group = f.group := by
        simp only [Feed.next, ha, htype]
        split <;> rfl
      dsimp only
      split
      next hopen =>
        have hjoins : f.Joins k rec := ⟨hopen.1, h.group _ hopen.2⟩
        obtain ⟨hcaptures, hfresh⟩ := horder htype hjoins
        refine ⟨fun j hj ready ↦ ?_, fun j p hj hp ↦ ?_, fun g hg ↦ hgroup ▸ h.group g hg⟩
        · obtain ⟨i, hi, rfl⟩ := Option.map_eq_some_iff.mp hj
          rw [Instrument.filed_eq] at ready ⊢
          exact ⟨(h.book i hi ready).le, (h.book i hi ready).rests⟩
        · obtain ⟨i, hi, rfl⟩ := Option.map_eq_some_iff.mp hj
          rw [Instrument.filed_eq] at hp
          obtain ⟨p', hp', rfl⟩ := Option.map_eq_some_iff.mp hp
          refine (h.shadow i p' hi hp').order hcaptures hfresh ?_
          simp only [Feed.next, ha, htype, if_pos hjoins]
      next => exact h.next a hgroup
  | snapshotEnd =>
      have h' := h.next a (by simp [Feed.next, ha, htype])
      refine ⟨fun j hj ready ↦ ?_, fun j p hj hp ↦ ?_, fun g hg ↦ ?_⟩
      · dsimp only at hj
        split at hj
        · obtain ⟨i, hi, rfl⟩ := Option.map_eq_some_iff.mp hj
          rcases i.ended_cases rec with heq | heq | ⟨p, hopen, hcommit, heq⟩ <;> rw [heq] at ready ⊢
          · exact h.book i hi ready
          · exact ⟨(h.book i hi ready).le, (h.book i hi ready).rests⟩
          · exact (h.shadow i p hi hopen).commit hcommit.count i
        · exact h.book j hj ready
      · dsimp only at hj
        split at hj
        · obtain ⟨i, hi, rfl⟩ := Option.map_eq_some_iff.mp hj
          rcases i.ended_cases rec with heq | heq | ⟨q, -, -, heq⟩ <;> rw [heq] at hp
          · exact h'.shadow i p hi hp
          · exact absurd hp (by simp)
          · exact absurd hp (by simp [Instrument.commitSnapshot])
        · exact h'.shadow j p hj hp
      · dsimp only at hg
        split at hg
        · exact absurd hg (by simp)
        · exact h'.group g hg
  | instrumentReset =>
      have h' := h.next a (by simp [Feed.next, ha, htype])
      dsimp only
      split
      next hkey => exact absurd (hsent hkey.1) (by simp [htype])
      next => exact h'
  | orderAdd | orderCancel | orderExecute | trade | other =>
      exact h.next a (by simp [Feed.next, ha, htype])

theorem Faithful.act {v : View} (h : Faithful pub f v) {a : Turn} (hallow : pub.Allows a.2)
    (horder : ∀ rec, a.2 = .record rec → rec.type = .snapshotOrder → f.Joins k rec →
      pub.Captures rec ∧ (rec.snapshotID, rec.orderID) ∉ f.orders) :
    Faithful pub (f.next k a) (v.act k a.2) := by
  have hother (hmsg : ∀ rec, a.2 ≠ .record rec) : f.next k a = f := by
    rw [Feed.next]
    split
    next rec hrec => exact absurd hrec (hmsg rec)
    next => rfl
  cases hmsg : a.2 with
  | record rec =>
      rw [hmsg] at hallow
      exact h.record hmsg hallow (horder rec hmsg)
  | reset ch =>
      rw [hother (by simp [hmsg]), View.act]
      split
      · exact Faithful.empty
      · exact h
  | fence =>
      rw [hother (by simp [hmsg])]
      exact h
  | clearShadows =>
      rw [hother (by simp [hmsg])]
      refine ⟨fun j hj ready ↦ ?_, fun j p hj hp ↦ ?_, by rintro g ⟨⟩⟩
      · obtain ⟨i, hi, rfl⟩ := Option.map_eq_some_iff.mp hj
        exact ⟨(h.book i hi ready).le, (h.book i hi ready).rests⟩
      · obtain ⟨i, hi, rfl⟩ := Option.map_eq_some_iff.mp hj
        exact absurd hp (by simp)

/-! ## The theorem -/

namespace Shard

/-- Every reachable shard is faithful to the publisher. -/
theorem run_faithful {as : List Turn} (h : pub.Delivers as) :
    Faithful pub (Feed.after k as) ((run step new as).view k) := by
  have hmine (rec : Record) (hown : Emitted pub k rec) : pub.Emits rec := hown rfl
  refine run_view (Q := Emitted pub) (P := fun pre v ↦ Faithful pub (Feed.after k pre) v)
    (fun a ha rec hrec delta hkey ↦ ?_) Faithful.empty (fun pre a v hpre hv hfaithful ↦ ?_)
    fun pre a v v' hpre hmove hv hfaithful ↦ ?_
  · have hallow := h.allows a ha
    rw [hrec] at hallow
    have hsent := hallow hkey
    cases htype : rec.type <;> simp [Record.isDelta, htype] at delta <;>
      simpa [Publisher.Sends, htype] using hsent
  · rw [Feed.after_snoc]
    exact hfaithful.act (h.allows a (hpre.subset (by simp))) (h.orders pre a hpre)
  · exact (hmove.mono hmine id).faithful (hv.mono hmine) hfaithful

/-- **Safety of the order book.**  Whatever the deliveries, a ready instrument holds exactly what
rests at the publisher after the last delta applied: each order under its id, on its side, at its
price, with what is left of its quantity. -/
theorem orders_safety {as : List Turn} (h : pub.Delivers as) {i : Instrument}
    (hi : (run step new as).instruments[k]? = some i) (ready : i.status = .ready) :
    i.bids.resting = onSide (pub.book i.lastAppliedInstrumentSeq) false ∧
      i.asks.resting = onSide (pub.book i.lastAppliedInstrumentSeq) true := by
  have htracks := (run_faithful h).book i hi ready
  exact ⟨htracks.rests false, htracks.rests true⟩

/-- Two bids, and two taken off the first of them. -/
def bidDelta (m : ℕ) : Record :=
  if m ≤ 2 then orderAddRec ⟨0, 11⟩ m m (900 + m) 3
  else
    { type := .orderExecute, channelID := 0, sequenceNumber := m, instrumentID := 11
      fields := { perInstrumentSeq := m, orderId := 1, execQtyRaw := 2 } }

/-- A publisher of three deltas that captured its book after the first. -/
def bidPublisher : Publisher ⟨0, 11⟩ where
  n := 3
  n_lt := by decide
  delta := bidDelta
  delta_key := fun m hlo hhi ↦ by
    obtain rfl | rfl | rfl : m = 1 ∨ m = 2 ∨ m = 3 := by omega
    all_goals rfl
  delta_isDelta := fun m hlo hhi ↦ by
    obtain rfl | rfl | rfl : m = 1 ∨ m = 2 ∨ m = 3 := by omega
    all_goals rfl
  delta_seq := fun m hlo hhi ↦ by
    obtain rfl | rfl | rfl : m = 1 ∨ m = 2 ∨ m = 3 := by omega
    all_goals rfl
  delta_mono := fun l m _ hlm _ ↦ by
    have hseq (x : ℕ) : (bidDelta x).sequenceNumber = x := by
      rw [bidDelta]
      split <;> rfl
    rw [hseq, hseq]
    exact hlm
  delta_id := fun m hlo hhi ↦ by
    obtain rfl | rfl | rfl : m = 1 ∨ m = 2 ∨ m = 3 := by omega
    all_goals decide
  delta_fresh := fun m hm _ ↦ by
    obtain rfl | rfl | rfl : m = 0 ∨ m = 1 ∨ m = 2 := by omega
    all_goals first | rfl | contradiction
  capture := fun id ↦ if id = 1 then some 1 else none
  capture_le := by
    rintro id m hm
    obtain ⟨-, hm⟩ := Option.ite_none_right_eq_some.mp hm
    rw [← Option.some.inj hm]
    decide

/-- The execution ahead of everything, the capture, the second bid, and the execution again. -/
def bidDelivery : List Turn :=
  [.record (bidDelta 3), .record (snapInstDefRec ⟨0, 11⟩ "BTC"),
    .record (snapshotBeginRec ⟨0, 11⟩ 1 1 1 1), .record (snapshotOrderRec 0 1 1 .bid 901 3),
    .record (snapshotEndRec ⟨0, 11⟩ 1 1), .record (bidDelta 2), .record (bidDelta 3)].map
    fun msg ↦ (default, msg)

theorem bidDelivery_delivers : bidPublisher.Delivers bidDelivery where
  allows := by
    simp only [bidDelivery, List.map_cons, List.map_nil, List.forall_mem_cons]
    exact ⟨fun _ ↦ ⟨3, by decide, by decide, rfl⟩, fun _ ↦ trivial,
      fun _ ↦ ⟨1, rfl, rfl, fun _ ↦ rfl, rfl⟩, fun _ ↦ trivial, fun _ ↦ trivial,
      fun _ ↦ ⟨2, by decide, by decide, rfl⟩, fun _ ↦ ⟨3, by decide, by decide, rfl⟩, by simp⟩
  orders := by
    simp only [bidDelivery, List.map_cons, List.map_nil, forall_prefix_cons]
    refine ⟨?_, ?_, ?_, ?_, ?_, ?_, ?_, forall_prefix_nil⟩ <;> rintro rec ⟨⟩ htype -
    all_goals first | exact absurd htype (by decide) | exact ⟨⟨1, rfl, rfl⟩, by decide⟩

theorem orders_safety_bid :
    ∃ i, (run step new bidDelivery).instruments[(⟨0, 11⟩ : InstKey)]? = some i ∧
      i.lastAppliedInstrumentSeq = 3 ∧ i.bids.resting = onSide (bidPublisher.book 3) false ∧
      i.asks.resting = onSide (bidPublisher.book 3) true := by
  have hstate : ((run step new bidDelivery).instruments[(⟨0, 11⟩ : InstKey)]?.any
      fun i ↦ decide (i.status = .ready ∧ i.lastAppliedInstrumentSeq = 3)) = true := by
    decide
  rw [Option.any_eq_true] at hstate
  obtain ⟨i, hi, hstate⟩ := hstate
  obtain ⟨ready, hlast⟩ := of_decide_eq_true hstate
  have hbook := orders_safety bidDelivery_delivers hi ready
  rw [hlast] at hbook
  exact ⟨i, hi, hlast, hbook⟩

end Shard

end EdgeMulticast.MarketByOrder
