import EdgeMulticast.MarketByPrice.Runs

/-!
# A publisher of one instrument

What the book-builder is for: to hold the publisher's own book.  A `Publisher` emits numbered
deltas of one instrument and captures its book in snapshots.  Its book after each delta is
given by the two rules of the feed alone (`Sides.after`): a level update sets the quantity at a
price, zero meaning that the level is gone, and a clear takes levels away in bulk.

A delivery may lose, repeat and reorder what the publisher sends (`Publisher.Delivers`).
-/

namespace EdgeMulticast.MarketByPrice

open Std (ExtTreeMap)
open EdgeMulticast.Lib

/-! ## Both sides of a book -/

@[ext] structure Sides where
  bids : Book
  asks : Book

namespace Sides

def empty : Sides := ⟨∅, ∅⟩

/-- The asks or the bids. -/
def side (b : Sides) (ask : Bool) : Book := if ask then b.asks else b.bids

/-- Change one side. -/
def onSide (b : Sides) (ask : Bool) (f : Book → Book) : Sides :=
  if ask then { b with asks := f b.asks } else { b with bids := f b.bids }

/-- The number of levels. -/
def size (b : Sides) : ℕ := b.bids.size + b.asks.size

@[simp] theorem side_onSide (b : Sides) (ask ask' : Bool) (f : Book → Book) :
    (b.onSide ask f).side ask' = if ask = ask' then f (b.side ask) else b.side ask' := by
  cases ask <;> cases ask' <;> rfl

theorem ext_side {b b' : Sides} (h : ∀ ask, b.side ask = b'.side ask) : b = b' :=
  Sides.ext (h false) (h true)

/-- Every level of `b` is a level of `b'`. -/
def Sub (b b' : Sides) : Prop := ∀ ask, Submap (b.side ask) (b'.side ask)

theorem Sub.size_le {b b' : Sides} (h : b.Sub b') : b.size ≤ b'.size :=
  Nat.add_le_add (h false).size_le (h true).size_le

/-- As many levels out of a book as the book has are the book. -/
theorem Sub.eq_of_size_eq {b b' : Sides} (h : b.Sub b') (hsize : b.size = b'.size) : b = b' := by
  have hbids := (h false).size_le
  have hasks := (h true).size_le
  simp only [size, side] at hsize hbids hasks
  refine ext_side fun ask ↦ (h ask).eq_of_size_le ?_
  cases ask <;> simp only [side] <;> simp at * <;> omega

end Sides

namespace Record

/-- The side a record names. -/
def ask (rec : Record) : Bool := rec.fields.side = .ask

def price (rec : Record) : ℤ := toInt64 rec.fields.priceRaw

/-- The level a record describes. -/
def level (rec : Record) : LevelState :=
  ⟨toUint64 rec.fields.qtyRaw, orderCountFrom rec.fields, toUint8 rec.fields.levelFlags⟩

/-- Whether a clear names a side. -/
def clears (rec : Record) (ask : Bool) : Bool :=
  rec.fields.clearSide = .both || rec.fields.clearSide = if ask then .ask else .bid

/-- Whether a clear reaches a price: from its own price outward, or everywhere. -/
def reaches (rec : Record) (ask : Bool) (price : ℤ) : Bool :=
  rec.fields.scope = .entireSide ||
    if ask then decide (toInt64 rec.fields.fromPriceRaw ≤ price)
    else decide (price ≤ toInt64 rec.fields.fromPriceRaw)

end Record

/-- The book after one more delta. -/
def Sides.after (b : Sides) (rec : Record) : Sides :=
  match rec.type with
  | .levelUpdate => b.onSide rec.ask fun book ↦
      if rec.level.qtyRaw = 0 then book.erase rec.price else book.insert rec.price rec.level
  | .bookClear =>
      ⟨b.bids.filter fun p _ ↦ !(rec.clears false && rec.reaches false p),
        b.asks.filter fun p _ ↦ !(rec.clears true && rec.reaches true p)⟩
  | _ => b

/-! ## The publisher -/

/-- A capture of the book: what a begin announces besides the number of levels. -/
structure Capture where
  anchorSeq : ℕ
  lastInstrumentSeq : ℕ

/-- A publisher of the instrument under `k`, within one era. -/
structure Publisher (k : InstKey) where
  /-- The number of deltas. -/
  n : ℕ
  n_lt : n < 2 ^ 32
  /-- The deltas, from number one on. -/
  delta : ℕ → Record
  delta_key : ∀ m, 1 ≤ m → m ≤ n → (delta m).key = k
  delta_isDelta : ∀ m, 1 ≤ m → m ≤ n → (delta m).isDelta = true
  delta_wellFormed : ∀ m, 1 ≤ m → m ≤ n → malformedRecord (delta m) = none
  delta_seq : ∀ m, 1 ≤ m → m ≤ n → (delta m).perInstrumentSeq = m
  delta_mono : ∀ l m, 1 ≤ l → l ≤ m → m ≤ n →
    (delta l).sequenceNumber ≤ (delta m).sequenceNumber
  /-- The captures, by Snapshot ID, which is monotonic for an instrument and so names one. -/
  capture : ℕ → Option Capture
  capture_le : ∀ id c, capture id = some c → c.lastInstrumentSeq ≤ n

namespace Publisher

variable {k : InstKey} (pub : Publisher k)

/-- The publisher's book after its first deltas. -/
def bookAfter (pub : Publisher k) : ℕ → Sides
  | 0 => Sides.empty
  | m + 1 => (bookAfter pub m).after (pub.delta (m + 1))

/-- A delta of the publisher. -/
def Emits (rec : Record) : Prop := ∃ m, 1 ≤ m ∧ m ≤ pub.n ∧ rec = pub.delta m

/-- A begin announces a capture and the number of its levels. -/
def Begins (rec : Record) : Prop :=
  ∃ c, pub.capture rec.snapshotGroup.snapshotID = some c ∧
    rec.snapshotGroup.anchorSeq = c.anchorSeq ∧
    rec.snapshotGroup.lastInstrumentSeq = c.lastInstrumentSeq ∧
    rec.snapshotGroup.totalLevels = (pub.bookAfter c.lastInstrumentSeq).size

/-- A level record is a level of the captured book. -/
def Captures (rec : Record) : Prop :=
  ∃ c, pub.capture (toUint32 rec.fields.snapshotId) = some c ∧
    ((pub.bookAfter c.lastInstrumentSeq).side rec.ask)[rec.price]? = some rec.level

/-- What the publisher sends for its instrument.  Definitions, strikes, boundaries and trades
are free; an instrument reset would end the era. -/
def Sends (rec : Record) : Prop :=
  match rec.type with
  | .levelUpdate | .bookClear => pub.Emits rec
  | .snapshotBegin => pub.Begins rec
  | .snapshotLevel => pub.Captures rec
  | .snapshotEnd => ∃ c, pub.capture (toUint32 rec.fields.snapshotId) = some c ∧
      toUint64 rec.fields.anchorSeq = c.anchorSeq
  | .instrumentReset => False
  | _ => True

/-- A message within the era: what the publisher sends, or anything about anything else. -/
def Allows : ShardMsg → Prop
  | .record rec => rec.key = k → pub.Sends rec
  | .reset ch => ch ≠ k.ch
  | .fence | .manifestPrune _ | .clearShadows => True

/-- The level of a group that a message delivers. -/
def levelOf (k : InstKey) (a : Turn) : Option (ℕ × Bool × ℤ) :=
  match a.2 with
  | .record rec =>
      if rec.key = k ∧ rec.type = .snapshotLevel then
        some (toUint32 rec.fields.snapshotId, rec.ask, rec.price) else none
  | _ => none

/-- The levels delivered so far. -/
def levels (k : InstKey) (as : List Turn) : List (ℕ × Bool × ℤ) := as.filterMap (levelOf k)

/-- Deltas any number of times, in any order or not at all; of each group its begin, some of its
levels at most once each, and its end; and anything about anything else in between. -/
structure Delivers (as : List Turn) : Prop where
  allows : ∀ a ∈ as, pub.Allows a.2
  once : (levels k as).Nodup

theorem levels_snoc (k : InstKey) (pre : List Turn) (a : Turn) :
    levels k (pre ++ [a]) = levels k pre ++ (levelOf k a).toList := by
  rw [levels, List.filterMap_append, List.filterMap_cons]
  cases levelOf k a <;> rfl

end Publisher

/-! ## The sides the book-builder keeps -/

def Instrument.sides (i : Instrument) : Sides := ⟨i.bids, i.asks⟩

def PendingSnapshot.sides (p : PendingSnapshot) : Sides := ⟨p.bids, p.asks⟩

@[simp] theorem sideFromString_eq_one (rec : Record) :
    sideFromString rec.fields.side = 1 ↔ rec.ask = true := by
  cases hside : rec.fields.side <;> simp [sideFromString, Record.ask, hside]

theorem Instrument.addLevel_sides (p : PendingSnapshot) (rec : Record) :
    (p.addLevel (sideFromString rec.fields.side) rec.price rec.level).sides =
      p.sides.onSide rec.ask fun book ↦ book.insert rec.price rec.level := by
  simp only [PendingSnapshot.addLevel, sideFromString_eq_one, Sides.onSide,
    PendingSnapshot.sides]
  split <;> rfl

/-- Filing a level counts it and leaves the group's identity alone. -/
theorem Instrument.addLevel_frame (p : PendingSnapshot) (sideByte : ℕ) (price : ℤ)
    (l : LevelState) : p.addLevel sideByte price l =
      { p with bids := (p.addLevel sideByte price l).bids
               asks := (p.addLevel sideByte price l).asks
               receivedLevels := (p.receivedLevels + 1) % 2 ^ 32 } := by
  simp only [PendingSnapshot.addLevel]
  split <;> rfl

theorem filter_true_eq (book : Book) : (book.filter fun _ _ ↦ true) = book := by
  refine ExtTreeMap.ext_getElem? fun p ↦ ?_
  rw [ExtTreeMap.getElem?_filter']
  cases book[p]? <;> rfl

theorem filter_false_eq (book : Book) : (book.filter fun _ _ ↦ false) = ∅ := by
  refine ExtTreeMap.ext_getElem? fun p ↦ ?_
  rw [ExtTreeMap.getElem?_filter']
  cases book[p]? <;> simp

/-- A well-formed delta changes an instrument's book as it changes the publisher's. -/
theorem Instrument.mutate_sides (i : Instrument) {rec : Record} (delta : rec.isDelta = true)
    (wf : malformedRecord rec = none) : (i.mutate rec).sides = i.sides.after rec := by
  cases htype : rec.type with
  | levelUpdate =>
      simp only [mutate, htype, applyLevelUpdate, setSide, Instrument.side, sideFromString_eq_one]
      simp only [Sides.after, htype, Sides.onSide, Record.level, Record.price]
      by_cases hqty : toUint64 rec.fields.qtyRaw = 0 <;> by_cases hask : rec.ask = true <;>
        simp [hqty, hask, Instrument.sides]
  | bookClear =>
      rw [malformedRecord, if_neg (by simp [htype])] at wf
      simp only [mutate, htype, Sides.after, applyBookClear, wf]
      cases hside : rec.fields.clearSide <;> cases hscope : rec.fields.scope <;>
        simp [hside, hscope, clearSideFromString, scopeFromString, bookClearMalformed,
          clearSideReserved, scopeReserved] at wf ⊢ <;>
        simp [Instrument.sides, Record.clears, Record.reaches, hside, hscope, clearBook,
          filter_true_eq, filter_false_eq]
  | _ => simp [Record.isDelta, htype] at delta

theorem Instrument.drainStep_sides (i : Instrument) (held : ExtTreeMap ℕ Record) {pr : Record}
    (delta : pr.isDelta = true) (wf : malformedRecord pr = none) :
    (i.drainStep held pr).sides = i.sides.after pr := by
  have h := mutate_sides { i with pending := some (held.erase i.nextExpectedInstrumentSeq) }
    delta wf
  simp only [drainStep]
  split <;> exact h

end EdgeMulticast.MarketByPrice
