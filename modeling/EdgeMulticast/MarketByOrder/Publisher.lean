import EdgeMulticast.MarketByOrder.Runs

/-!
# A publisher of the orders of one instrument

What the book-builder is for: to hold the publisher's resting orders.  A `Publisher` emits
numbered deltas of one instrument and captures its book in snapshots.  Its book after each delta
is given by the rules of the feed alone (`restingAfter`): an addition puts an order to rest, a
cancellation takes it away, and an execution takes a quantity off it, or the whole of it.

A delivery may lose, repeat and reorder what the publisher sends (`Publisher.Delivers`).  An
order of a snapshot names no instrument.  It belongs to the group begun last on its channel, and
so what a delivery may carry depends on what it has carried before (`Feed`).
-/

namespace EdgeMulticast.MarketByOrder

open Std (ExtTreeMap)
open EdgeMulticast.Lib

/-! ## Resting orders -/

/-- An order as the feed describes it. -/
structure FeedOrder where
  orderID : ℕ
  ask : Bool
  price : ℤ
  quantity : ℕ
deriving DecidableEq, Repr

/-- The resting orders of an instrument, both sides of them. -/
abbrev Resting := ExtTreeMap ℕ FeedOrder

namespace Record

/-- The side a record names. -/
def ask (rec : Record) : Bool := rec.fields.side = .ask

/-- The order a record describes. -/
def feedOrder (rec : Record) : FeedOrder :=
  ⟨rec.orderID, rec.ask, toInt64 rec.fields.priceRaw, toUint64 rec.fields.qtyRaw⟩

/-- Whether an execution fills its order whatever the quantity. -/
def fills (rec : Record) : Bool := toUint8 rec.fields.execFlags % 2 = 1

def execQuantity (rec : Record) : ℕ := toUint64 rec.fields.execQtyRaw

end Record

/-- The resting orders after one more delta. -/
def restingAfter (b : Resting) (rec : Record) : Resting :=
  match rec.type with
  | .orderAdd => b.insert rec.orderID rec.feedOrder
  | .orderCancel => b.erase rec.orderID
  | .orderExecute =>
      match b[rec.orderID]? with
      | none => b
      | some o =>
          if rec.fills ∨ o.quantity ≤ rec.execQuantity then b.erase rec.orderID
          else b.insert rec.orderID { o with quantity := o.quantity - rec.execQuantity }
  | _ => b

/-- The orders resting on one side. -/
def onSide (b : Resting) (ask : Bool) : Resting := b.filter fun _ o ↦ o.ask = ask

theorem getElem?_onSide (b : Resting) (ask : Bool) (id : ℕ) :
    (onSide b ask)[id]? = (b[id]?).filter fun o ↦ o.ask = ask := ExtTreeMap.getElem?_filter'

/-- Every order rests on one of the two sides. -/
theorem size_onSide (b : Resting) : (onSide b false).size + (onSide b true).size = b.size := by
  have hask : (fun (_ : ℕ) (o : FeedOrder) ↦ decide (o.ask = true)) =
      fun _ o ↦ !decide (o.ask = false) := by
    funext _ o
    cases o.ask <;> rfl
  rw [onSide, onSide, hask]
  exact size_filter_add_size_filter b fun o ↦ decide (o.ask = false)

/-- Every order stands under its own id. -/
def Keyed (b : Resting) : Prop := ∀ (id : ℕ) (o : FeedOrder), b[id]? = some o → o.orderID = id

theorem Keyed.after {b : Resting} (h : Keyed b) (rec : Record) : Keyed (restingAfter b rec) := by
  have herase (x : ℕ) : Keyed (b.erase x) := by
    intro id o ho
    rw [getElem?_erase_eq] at ho
    split at ho
    · exact absurd ho (by simp)
    · exact h id o ho
  have hinsert {x : ℕ} {o' : FeedOrder} (ho' : o'.orderID = x) : Keyed (b.insert x o') := by
    intro id o ho
    rw [getElem?_insert_eq] at ho
    split at ho
    next hid => rw [← Option.some.inj ho, ho', hid]
    next => exact h id o ho
  rw [restingAfter]
  split
  · exact hinsert rfl
  · exact herase _
  · split
    next => exact h
    next o ho =>
      split
      · exact herase _
      · exact hinsert (h _ o ho)
  · exact h

/-- The resting orders after the first deltas. -/
def bookAfter (delta : ℕ → Record) : ℕ → Resting
  | 0 => ∅
  | m + 1 => restingAfter (bookAfter delta m) (delta (m + 1))

theorem bookAfter_keyed (delta : ℕ → Record) (m : ℕ) : Keyed (bookAfter delta m) := by
  induction m with
  | zero => exact fun id o ho ↦ absurd ho (by simp [bookAfter])
  | succ m ih => exact ih.after _

/-! ## The publisher -/

/-- A publisher of the instrument under `k`, within one era. -/
structure Publisher (k : InstKey) where
  /-- The number of deltas. -/
  n : ℕ
  n_lt : n < 2 ^ 32 - 1
  /-- The deltas, from number one on. -/
  delta : ℕ → Record
  delta_key : ∀ m, 1 ≤ m → m ≤ n → (delta m).key = k
  delta_isDelta : ∀ m, 1 ≤ m → m ≤ n → (delta m).isDelta = true
  delta_seq : ∀ m, 1 ≤ m → m ≤ n → (delta m).perInstrumentSeq = m
  delta_mono : ∀ l m, 1 ≤ l → l < m → m ≤ n →
    (delta l).sequenceNumber < (delta m).sequenceNumber
  delta_id : ∀ m, 1 ≤ m → m ≤ n → (delta m).orderID < 2 ^ 53
  /-- An order is added under an id that does not rest. -/
  delta_fresh : ∀ m, m < n → (delta (m + 1)).type = .orderAdd →
    (bookAfter delta m)[(delta (m + 1)).orderID]? = none
  /-- The number of the last delta in a captured book, by Snapshot ID, which is monotonic for an
  instrument and so names one capture. -/
  capture : ℕ → Option ℕ
  capture_le : ∀ id m, capture id = some m → m ≤ n

namespace Publisher

variable {k : InstKey} (pub : Publisher k)

/-- The publisher's resting orders after its first deltas. -/
def book (m : ℕ) : Resting := bookAfter pub.delta m

/-- A delta of the publisher. -/
def Emits (rec : Record) : Prop := ∃ m, 1 ≤ m ∧ m ≤ pub.n ∧ rec = pub.delta m

/-- A begin announces a capture: its place in the deltas, and the number of its orders. -/
def Begins (rec : Record) : Prop :=
  ∃ m, pub.capture rec.snapshotID = some m ∧
    toUint32 rec.fields.lastInstrumentSeq = m ∧
    (1 ≤ m → toUint64 rec.fields.anchorSeq = (pub.delta m).sequenceNumber) ∧
    toUint32 rec.fields.totalOrders = (pub.book m).size

/-- An order record describes an order of the captured book. -/
def Captures (rec : Record) : Prop :=
  ∃ m, pub.capture rec.snapshotID = some m ∧
    (pub.book m)[rec.orderID]? = some rec.feedOrder

/-- What the publisher sends for its instrument.  Definitions, trades and the ends of groups are
free; an instrument reset would end the era. -/
def Sends (rec : Record) : Prop :=
  match rec.type with
  | .orderAdd | .orderCancel | .orderExecute => pub.Emits rec
  | .snapshotBegin => pub.Begins rec
  | .instrumentReset => False
  | _ => True

/-- A message within the era: what the publisher sends, or anything about anything else. -/
def Allows : ShardMsg → Prop
  | .record rec => rec.key = k → pub.Sends rec
  | .reset ch => ch ≠ k.ch
  | .fence | .clearShadows => True

end Publisher

/-! ## Deliveries -/

/-- What a delivery has carried: the group begun last on the channel, and the orders that
followed a begin of `k`, each under its Snapshot ID. -/
structure Feed where
  group : Option OpenGroup := none
  orders : List (ℕ × ℕ) := []

namespace Feed

/-- An order of the group of `k` begun last. -/
def Joins (k : InstKey) (f : Feed) (rec : Record) : Prop :=
  rec.channelID = k.ch ∧ f.group = some ⟨k, rec.snapshotID⟩

instance (k : InstKey) (f : Feed) (rec : Record) : Decidable (f.Joins k rec) :=
  inferInstanceAs (Decidable (_ ∧ _))

def next (k : InstKey) (f : Feed) (a : Turn) : Feed :=
  match a.2 with
  | .record rec =>
      match rec.type with
      | .snapshotBegin =>
          if rec.channelID = k.ch then { f with group := some ⟨rec.key, rec.snapshotID⟩ } else f
      | .snapshotOrder =>
          if f.Joins k rec then
            { f with orders := (rec.snapshotID, rec.orderID) :: f.orders } else f
      | _ => f
  | _ => f

/-- What the messages so far have carried. -/
def after (k : InstKey) (as : List Turn) : Feed := run (next k) {} as

theorem after_snoc (k : InstKey) (pre : List Turn) (a : Turn) :
    after k (pre ++ [a]) = (after k pre).next k a := run_snoc ..

theorem mem_orders_next {k : InstKey} {f : Feed} {o : ℕ × ℕ} (h : o ∈ f.orders) (a : Turn) :
    o ∈ (f.next k a).orders := by
  rw [next]
  split
  · split
    · split <;> exact h
    · split
      · exact List.mem_cons_of_mem _ h
      · exact h
    · exact h
  · exact h

end Feed

/-- Deltas any number of times, in any order or not at all; of each group its begin, some of its
orders at most once each before the next begin on the channel, and its end; and anything about
anything else in between. -/
structure Publisher.Delivers {k : InstKey} (pub : Publisher k) (as : List Turn) : Prop where
  allows : ∀ a ∈ as, pub.Allows a.2
  orders : ∀ pre a, pre ++ [a] <+: as → ∀ rec, a.2 = .record rec → rec.type = .snapshotOrder →
    (Feed.after k pre).Joins k rec →
      pub.Captures rec ∧ (rec.snapshotID, rec.orderID) ∉ (Feed.after k pre).orders

/-! ## The sides the book-builder keeps -/

/-- What the feed says of a resting order. -/
def RestingOrder.feedOrder (o : RestingOrder) : FeedOrder :=
  ⟨o.orderID, o.side ≠ 0, o.price, o.quantity⟩

/-- One side of a book, as the feed describes it. -/
def Orders.resting (book : Orders) : Resting := book.map fun _ o ↦ o.feedOrder

@[simp] theorem size_resting (book : Orders) : book.resting.size = book.size :=
  ExtTreeMap.size_map

theorem getElem?_resting (book : Orders) (id : ℕ) :
    book.resting[id]? = (book[id]?).map RestingOrder.feedOrder := ExtTreeMap.getElem?_map

namespace Instrument

/-- The asks or the bids. -/
def side (i : Instrument) (ask : Bool) : Orders := if ask then i.asks else i.bids

/-- The instrument holds the resting orders `b`. -/
def Rests (i : Instrument) (b : Resting) : Prop := ∀ ask, (i.side ask).resting = onSide b ask

theorem Rests.congr {i j : Instrument} {b : Resting} (h : i.Rests b)
    (hbids : j.bids = i.bids) (hasks : j.asks = i.asks) : j.Rests b := by
  intro ask
  rw [← h ask, side, side, hbids, hasks]

variable {i : Instrument} {b : Resting}

theorem Rests.getElem? (h : i.Rests b) (ask : Bool) (id : ℕ) :
    ((i.side ask)[id]?).map RestingOrder.feedOrder = (b[id]?).filter fun o ↦ o.ask = ask := by
  rw [← getElem?_resting, h ask, getElem?_onSide]

/-- An order found on a side is the one that rests. -/
theorem Rests.of_some (h : i.Rests b) {ask : Bool} {id : ℕ} {o : RestingOrder}
    (ho : (i.side ask)[id]? = some o) : b[id]? = some o.feedOrder ∧ o.feedOrder.ask = ask := by
  have hget := h.getElem? ask id
  rw [ho, Option.map_some, eq_comm, Option.filter_eq_some_iff] at hget
  exact ⟨hget.1, by simpa using hget.2⟩

/-- An id on neither side does not rest. -/
theorem Rests.of_none (h : i.Rests b) {id : ℕ} (hbids : i.bids[id]? = none)
    (hasks : i.asks[id]? = none) : b[id]? = none := by
  cases ho : b[id]? with
  | none => rfl
  | some o =>
      have hget := h.getElem? o.ask id
      rw [ho] at hget
      have hside : (i.side o.ask)[id]? = none := by
        rw [side]
        split
        · exact hasks
        · exact hbids
      rw [hside, Option.map_none, Option.filter_some, if_pos (by simp)] at hget
      exact absurd hget (by simp)

/-- A change at one id. -/
theorem Rests.update (h : i.Rests b) {j : Instrument} {b' : Resting} (id : ℕ)
    (hside : ∀ (ask : Bool) (x : ℕ), id ≠ x → (j.side ask)[x]? = (i.side ask)[x]?)
    (hbook : ∀ x : ℕ, id ≠ x → b'[x]? = b[x]?)
    (hid : ∀ ask, ((j.side ask)[id]?).map RestingOrder.feedOrder =
      (b'[id]?).filter fun o ↦ o.ask = ask) : j.Rests b' := by
  intro ask
  refine ExtTreeMap.ext_getElem? fun x ↦ ?_
  rw [getElem?_resting, getElem?_onSide]
  by_cases hx : id = x
  · exact hx ▸ hid ask
  · rw [hside ask x hx, hbook x hx]
    exact h.getElem? ask x

/-- An id that does not rest is on neither side. -/
theorem Rests.side_none (h : i.Rests b) {id : ℕ} (hb : b[id]? = none) (ask : Bool) :
    (i.side ask)[id]? = none := by
  have hget := h.getElem? ask id
  rwa [hb, Option.filter_none, Option.map_eq_none_iff] at hget

/-- An order rests on one side only. -/
theorem Rests.other_none (h : i.Rests b) {id : ℕ} {o : FeedOrder} (hb : b[id]? = some o)
    {ask : Bool} (hask : o.ask ≠ ask) : (i.side ask)[id]? = none := by
  have hget := h.getElem? ask id
  rwa [hb, Option.filter_some, if_neg (by simpa using hask), Option.map_eq_none_iff] at hget

/-- An addition puts the order on its side. -/
theorem Rests.add (h : i.Rests b) (rec : Record) (hfresh : b[rec.orderID]? = none) :
    (i.applyOrderAdd rec.orderID (sideFromString rec.fields.side) (toUint8 rec.fields.orderFlags)
      rec.fields.enterTs (toInt64 rec.fields.priceRaw) (toUint64 rec.fields.qtyRaw)).Rests
        (b.insert rec.orderID rec.feedOrder) := by
  have hzero : sideFromString rec.fields.side = 0 ↔ rec.ask = false := by
    cases hside : rec.fields.side <;> simp [Record.ask, sideFromString, hside]
  have hnew : (RestingOrder.mk rec.orderID (sideFromString rec.fields.side)
      (toUint8 rec.fields.orderFlags) rec.fields.enterTs (toInt64 rec.fields.priceRaw)
      (toUint64 rec.fields.qtyRaw)).feedOrder = rec.feedOrder := by
    cases hside : rec.fields.side <;>
      simp [RestingOrder.feedOrder, Record.feedOrder, Record.ask, sideFromString, hside]
  have hask : rec.feedOrder.ask = rec.ask := rfl
  simp only [applyOrderAdd, hzero]
  refine h.update rec.orderID (fun ask x hx ↦ ?_) (fun x hx ↦ getElem?_insert_ne hx) fun ask ↦ ?_
  · split <;> cases ask <;> simp [side, getElem?_insert_ne hx]
  · have hnone := h.side_none hfresh ask
    rw [getElem?_insert_eq, if_pos rfl, Option.filter_some, hask]
    split
    next hbid =>
      cases ask
      · simp only [side, Bool.false_eq_true, if_false, ExtTreeMap.getElem?_insert_self,
          Option.map_some, hnew]
        simp [hbid]
      · simp only [side, if_true] at hnone ⊢
        simp [hnone, hbid]
    next hask' =>
      rw [Bool.not_eq_false] at hask'
      cases ask
      · simp only [side, Bool.false_eq_true, if_false] at hnone ⊢
        simp [hnone, hask']
      · simp only [side, if_true, ExtTreeMap.getElem?_insert_self, Option.map_some, hnew]
        simp [hask']

/-- A cancellation takes the order off either side. -/
theorem Rests.cancel (h : i.Rests b) (id : ℕ) : (i.applyOrderCancel id).Rests (b.erase id) := by
  refine h.update id (fun ask x hx ↦ ?_) (fun x hx ↦ getElem?_erase_ne hx) fun ask ↦ ?_
  · cases ask <;> simp [side, applyOrderCancel, getElem?_erase_ne hx]
  · cases ask <;> simp [side, applyOrderCancel]

theorem getElem?_applyExecToOrder (book : Orders) (o : RestingOrder) (execFlags execQty x : ℕ) :
    (applyExecToOrder book o execFlags execQty)[x]? =
      if o.orderID = x then
        if fullFill execFlags ∨ o.quantity ≤ execQty then none
        else some { o with quantity := o.quantity - execQty }
      else book[x]? := by
  rw [applyExecToOrder]
  by_cases hfill : fullFill execFlags = true
  · simp only [hfill, if_true, true_or]
    exact getElem?_erase_eq ..
  · simp only [hfill, Bool.false_eq_true, if_false, false_or]
    by_cases hqty : o.quantity ≤ execQty
    · simp only [if_pos hqty, if_true, getElem?_erase_eq, getElem?_insert_eq]
      split <;> rfl
    · have hpos : o.quantity - execQty ≠ 0 := by omega
      simp only [if_neg hqty, if_neg hpos, getElem?_insert_eq]

/-- An execution takes the quantity off the order, or the order off its side. -/
theorem Rests.execute (h : i.Rests b) (hkeyed : Keyed b) {rec : Record}
    (htype : rec.type = .orderExecute) :
    (i.applyOrderExecute rec.orderID (toUint8 rec.fields.execFlags)
      (toUint64 rec.fields.execQtyRaw)).Rests (restingAfter b rec) := by
  have hfills : rec.fills = fullFill (toUint8 rec.fields.execFlags) := rfl
  have hexec : rec.execQuantity = toUint64 rec.fields.execQtyRaw := rfl
  simp only [restingAfter, htype, hfills, hexec]
  generalize toUint8 rec.fields.execFlags = flags
  generalize toUint64 rec.fields.execQtyRaw = qty
  have hfound {j : Instrument} {ask : Bool} {o : RestingOrder}
      (ho : (i.side ask)[rec.orderID]? = some o)
      (hmine : j.side ask = applyExecToOrder (i.side ask) o flags qty)
      (hother : ∀ ask', ask ≠ ask' → j.side ask' = i.side ask') :
      j.Rests (if fullFill flags = true ∨ o.feedOrder.quantity ≤ qty then b.erase rec.orderID
        else b.insert rec.orderID
          { o.feedOrder with quantity := o.feedOrder.quantity - qty }) := by
    obtain ⟨hrest, hask⟩ := h.of_some ho
    have hid : o.orderID = rec.orderID := hkeyed _ _ hrest
    refine h.update rec.orderID (fun ask' x hx ↦ ?_) (fun x hx ↦ ?_) fun ask' ↦ ?_
    · by_cases heq : ask = ask'
      · rw [← heq, hmine, getElem?_applyExecToOrder, hid, if_neg hx]
      · rw [hother ask' heq]
    · split
      · exact getElem?_erase_ne hx
      · exact getElem?_insert_ne hx
    · by_cases heq : ask = ask'
      · rw [← heq, hmine, getElem?_applyExecToOrder, if_pos hid]
        change Option.map _ (if fullFill flags = true ∨ o.feedOrder.quantity ≤ qty then _ else _) = _
        by_cases hfill : fullFill flags = true ∨ o.feedOrder.quantity ≤ qty
        · simp only [if_pos hfill]
          simp
        · simp only [if_neg hfill]
          rw [getElem?_insert_eq, if_pos rfl, Option.filter_some, if_pos (by simpa using hask)]
          rfl
      · rw [hother ask' heq, h.other_none hrest (hask ▸ heq)]
        split
        · simp
        · rw [getElem?_insert_eq, if_pos rfl, Option.filter_some,
            if_neg (by simpa [hask] using heq)]
          rfl
  rw [applyOrderExecute]
  cases hbid : i.bids[rec.orderID]? with
  | some o =>
      have ho : (i.side false)[rec.orderID]? = some o := hbid
      rw [(h.of_some ho).1]
      refine hfound ho rfl fun ask' hne ↦ ?_
      cases ask'
      · exact absurd rfl hne
      · rfl
  | none =>
      cases hasks : i.asks[rec.orderID]? with
      | some o =>
          have ho : (i.side true)[rec.orderID]? = some o := hasks
          rw [(h.of_some ho).1]
          refine hfound ho rfl fun ask' hne ↦ ?_
          cases ask'
          · rfl
          · exact absurd rfl hne
      | none =>
          rw [h.of_none hbid hasks]
          exact h

/-- A delta changes an instrument's book as it changes the publisher's. -/
theorem Rests.mutate (h : i.Rests b) (hkeyed : Keyed b) {rec : Record}
    (hfresh : rec.type = .orderAdd → b[rec.orderID]? = none) :
    (i.mutate rec).Rests (restingAfter b rec) := by
  rw [Instrument.mutate]
  cases htype : rec.type with
  | orderAdd =>
      rw [restingAfter, htype]
      exact h.add rec (hfresh htype)
  | orderCancel =>
      rw [restingAfter, htype]
      exact h.cancel _
  | orderExecute => exact h.execute hkeyed htype
  | _ =>
      rw [restingAfter, htype]
      exact h

end Instrument

end EdgeMulticast.MarketByOrder
