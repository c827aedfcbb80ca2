import EdgeMulticast.Lib.Bytes
import EdgeMulticast.Recorder.Wire

/-!
# The derived book

`book.rs`: one instrument's book, its top, and whether the top can be believed.

An operation on one instrument's book is a function of that book alone and returns the change
it makes, if any.  `Book` files the books of every channel, with the snapshot cycles that are
open and the high-water mark of every channel instance's sequence space.

Maps are ordered maps, so that the loop over the books visits them in the order of their keys.
Counters that are `u32` wrap.  The hashes a row carries of its top are functions of the top and
are left out.
-/

namespace EdgeMulticast.Recorder

open Std (ExtTreeMap)
open EdgeMulticast.Lib

/-! ## Tops and certainty -/

/-- One side's top, as a book states it. -/
structure Side where
  priceRaw : Option ℤ := none
  qtyRaw : Option ℕ := none
  sourceCount : Option ℕ := none
deriving DecidableEq, Repr, Inhabited

def Side.absent : Side := {}

/-- A top of book, as one instrument's state. -/
structure Top where
  bid : Side := {}
  ask : Side := {}
deriving DecidableEq, Repr, Inhabited

inductive UncertainReason where
  | none | gap | instrumentReset | noAnchor
deriving DecidableEq, Repr

/-- What a book state can be believed to be. -/
structure Certainty where
  certain : Bool
  since : Option ℕ
  reason : UncertainReason
deriving DecidableEq, Repr

namespace Certainty

def known : Certainty := ⟨true, none, .none⟩

def unknown (since : ℕ) (reason : UncertainReason) : Certainty := ⟨false, some since, reason⟩

/-- Uncertain with no sequence number to blame. -/
def unanchored (reason : UncertainReason) : Certainty := ⟨false, none, reason⟩

end Certainty

/-- What a message did to a book. -/
structure Change where
  top : Top
  certainty : Certainty
  /-- Whether the change came from applying a snapshot. -/
  fromAnchor : Bool
deriving DecidableEq, Repr

inductive BookStatus where
  | unstated | awaitingSnapshot | buildingSnapshot | ready | gap
deriving DecidableEq, Repr

/-! ## One instrument's book -/

/-- One side of a book, keyed by raw price. -/
abbrev Levels := ExtTreeMap ℤ ℕ

structure InstrumentBook where
  bids : Levels := ∅
  asks : Levels := ∅
  top : Top := {}
  /-- A delta book has no top at all before its first anchor. -/
  established : Bool := false
  certainty : Option Certainty := none
  /-- The New Anchor Seq of a reset that has not been recovered from yet. -/
  awaitingAnchor : Option ℕ := none
  /-- Whether the one `no_anchor` row has been emitted. -/
  saidNoAnchor : Bool := false
  /-- How many snapshot cycles are open for this instrument. -/
  openCycles : ℕ := 0

instance : Inhabited InstrumentBook := ⟨{}⟩

/-- A snapshot cycle while it is open. -/
structure BookCycle where
  instrumentId : ℕ
  anchorSeq : ℕ
  totalLevels : ℕ
  bids : Levels := ∅
  asks : Levels := ∅
  levels : ℕ := 0

def sideOfQuote (priceRaw : ℤ) (qtyRaw sourceCount : ℕ) : Side :=
  if priceRaw = 0 ∧ qtyRaw = 0 then Side.absent
  else ⟨some priceRaw, some qtyRaw, some sourceCount⟩

/-- Remove the levels a clear names: all of a side, or those from a price on, inclusive, in the
direction the side runs. -/
def clearSide (side : Levels) (fromPrice : Option ℤ) (isBid : Bool) : Levels :=
  match fromPrice with
  | none => ∅
  | some bound => side.filter fun price _ ↦
      if isBid then decide (bound < price) else decide (price < bound)

/-- The cycle a begin opens. -/
def BookCycle.opened (begin : SnapshotBegin) : BookCycle where
  instrumentId := begin.instrumentId
  anchorSeq := begin.anchorSeq
  totalLevels := begin.totalLevels

/-- File one level of a cycle and count it. -/
def BookCycle.push (c : BookCycle) (level : SnapshotLevel) : BookCycle :=
  let c := { c with levels := (c.levels + 1) % 2 ^ 32 }
  if level.side = sideBid then { c with bids := c.bids.insert level.priceRaw level.qtyRaw }
  else { c with asks := c.asks.insert level.priceRaw level.qtyRaw }

namespace InstrumentBook

variable (book : InstrumentBook)

/-- The state of this book, which is how the depth reported beside it is to be read. -/
def status : BookStatus :=
  if !book.established then
    if book.awaitingAnchor.isSome then .awaitingSnapshot
    else if 0 < book.openCycles then .buildingSnapshot
    else .unstated
  else match book.certainty with
    | none => .ready
    | some c => if c.certain then .ready else if c.reason = .gap then .gap else .unstated

/-- The highest bid and the lowest ask: the last and the first entry in the order of prices. -/
def recomputeTop : InstrumentBook :=
  { book with top :=
    { bid := match book.bids.toList.getLast? with
        | some (price, qty) => ⟨some price, some qty, none⟩
        | none => Side.absent
      ask := match book.asks.toList.head? with
        | some (price, qty) => ⟨some price, some qty, none⟩
        | none => Side.absent } }

/-- A change is a change in the visible top or in the certainty of it. -/
def changed (was : InstrumentBook) : Option Change :=
  let topMoved := decide (was.top ≠ book.top)
  let certaintyMoved := decide (was.certainty ≠ book.certainty)
  if !topMoved && !certaintyMoved then none
  else if !book.established && decide (book.top = {}) && !certaintyMoved then none
  else some ⟨book.top, book.certainty.getD Certainty.known, false⟩

/-- A quote: a complete two-sided top, and its own anchor. -/
def quote (q : Quote) : InstrumentBook × Option Change :=
  let book' := { book with
    top := ⟨sideOfQuote q.bidPrice q.bidQty q.bidSourceCount,
      sideOfQuote q.askPrice q.askQty q.askSourceCount⟩
    established := true
    certainty := some Certainty.known
    awaitingAnchor := none }
  (book', book'.changed book)

def applyLevel (level : LevelUpdate) : InstrumentBook :=
  let apply (side : Levels) : Levels :=
    if level.qtyRaw = 0 then side.erase level.priceRaw
    else side.insert level.priceRaw level.qtyRaw
  if level.side = sideBid then { book with bids := apply book.bids }
  else { book with asks := apply book.asks }

/-- A level update: a delta, which needs a book to be applied to.  The first one without a book
says so, in one row with no prices. -/
def level (l : LevelUpdate) : InstrumentBook × Option Change :=
  if !book.established then
    if book.saidNoAnchor then (book, none)
    else
      let certainty := Certainty.unanchored .noAnchor
      ({ book with saidNoAnchor := true, certainty := some certainty },
        some ⟨{}, certainty, false⟩)
  else
    let book' := (book.applyLevel l).recomputeTop
    (book', book'.changed book)

/-- The levels a clear leaves. -/
def applyClear (c : BookClear) : InstrumentBook :=
  let fromPrice := if c.scope = scopeFromPrice then some c.fromPriceRaw else none
  let book := if c.clearSide = clearBid ∨ c.clearSide = clearBoth then
    { book with bids := clearSide book.bids fromPrice true } else book
  if c.clearSide = clearAsk ∨ c.clearSide = clearBoth then
    { book with asks := clearSide book.asks fromPrice false } else book

/-- A book clear: a delta that removes levels, and never an anchor. -/
def clear (c : BookClear) : InstrumentBook × Option Change :=
  if !book.established then (book, none)
  else
    let book' := (book.applyClear c).recomputeTop
    (book', book'.changed book)

/-- An instrument reset: the publisher disowning its own book. -/
def reset (r : InstrumentReset) : InstrumentBook × Option Change :=
  let book' := { book with
    bids := ∅, asks := ∅, top := {}, established := false, saidNoAnchor := false
    awaitingAnchor := some r.newAnchorSeq
    certainty := some (Certainty.unknown r.newAnchorSeq .instrumentReset) }
  (book', book'.changed book)

/-- What a cycle that is applied makes of the book. -/
def anchor (c : BookCycle) : InstrumentBook × Option Change :=
  let book' := { book with
    bids := c.bids, asks := c.asks, established := true, saidNoAnchor := false
    awaitingAnchor := none, certainty := some Certainty.known }.recomputeTop
  (book', (book'.changed book).map fun change ↦ { change with fromAnchor := true })

/-- Whether a gap takes the book's certainty. -/
def believed : Bool := book.established && !book.certainty.any fun c ↦ !c.certain

/-- A hole that begins at `missingFrom`: the top stays and is no longer vouched for. -/
def lose (missingFrom : ℕ) : InstrumentBook :=
  { book with certainty := some (Certainty.unknown missingFrom .gap) }

end InstrumentBook

/-! ## Every instrument's book -/

/-- What a book refused to apply, counted rather than guessed at. -/
structure BookRefused where
  incompleteCycle : ℕ := 0
  staleCycle : ℕ := 0
  unclosedCycle : ℕ := 0
deriving DecidableEq, Repr

structure Book where
  books : ExtTreeMap (Scoped Channel) InstrumentBook := ∅
  cycles : ExtTreeMap (Scoped Channel) BookCycle := ∅
  /-- The last sequence number seen per channel instance, for gap detection. -/
  lastSequence : ExtTreeMap ChannelInstance ℕ := ∅
  refused : BookRefused := {}

namespace Book

variable (b : Book) (channel : Channel)

/-- The book of an instrument, which is the empty one before its first message. -/
def book (k : Scoped Channel) : InstrumentBook := (b.books[k]?).getD default

def setBook (k : Scoped Channel) (book : InstrumentBook) : Book :=
  { b with books := b.books.insert k book }

/-- Apply an operation to one instrument's book. -/
def update (k : Scoped Channel) (f : InstrumentBook → InstrumentBook × Option Change) :
    Book × Option Change :=
  let (book, change) := f (b.book k)
  (b.setBook k book, change)

/-- Note a datagram's arrival, and report which instruments a gap made unknowable.  The mark is
a high-water mark: a reordered or duplicated datagram invents no gap. -/
def observeSequence (inst : ChannelInstance) (role : PortRole) (sequenceNumber : ℕ) :
    Book × List (ℕ × Change) :=
  match b.lastSequence[inst]? with
  | none => ({ b with lastSequence := b.lastSequence.insert inst sequenceNumber }, [])
  | some previous =>
      if sequenceNumber ≤ previous then (b, [])
      else
        let b := { b with lastSequence := b.lastSequence.insert inst sequenceNumber }
        if sequenceNumber = previous + 1 then (b, [])
        -- only a hole on `mktdata` touches certainty
        else if role ≠ .mktdata then (b, [])
        else
          let missingFrom := previous + 1
          let loses (k : Scoped Channel) (book : InstrumentBook) : Bool :=
            decide (k.scope = Channel.of inst) && book.believed
          ({ b with books := b.books.map fun k book ↦
              if loses k book then book.lose missingFrom else book },
            b.books.toList.filterMap fun (k, book) ↦
              if loses k book then
                some (k.id, ⟨book.top, Certainty.unknown missingFrom .gap, false⟩)
              else none)

def quote (q : Quote) : Book × Option Change :=
  b.update ⟨channel, q.instrumentId⟩ fun book ↦ book.quote q

def level (l : LevelUpdate) : Book × Option Change :=
  b.update ⟨channel, l.instrumentId⟩ fun book ↦ book.level l

def clear (c : BookClear) : Book × Option Change :=
  b.update ⟨channel, c.instrumentId⟩ fun book ↦ book.clear c

def reset (r : InstrumentReset) : Book × Option Change :=
  b.update ⟨channel, r.instrumentId⟩ fun book ↦ book.reset r

/-- One fewer cycle open for an instrument, however it stopped being open. -/
def cycleClosed (instrumentId : ℕ) : Book :=
  match b.books[(⟨channel, instrumentId⟩ : Scoped Channel)]? with
  | none => b
  | some book => b.setBook ⟨channel, instrumentId⟩ { book with openCycles := book.openCycles - 1 }

/-- Count the cycles that never saw their end, once the last message has been folded. -/
def closeObject : Book :=
  let stranded := b.cycles.toList.map fun (k, cycle) ↦ (k.scope, cycle.instrumentId)
  let unclosed := b.refused.unclosedCycle + b.cycles.size
  let b := { b with refused := { b.refused with unclosedCycle := unclosed }, cycles := ∅ }
  stranded.foldl (fun b x ↦ b.cycleClosed x.1 x.2) b

def setCycle (k : Scoped Channel) (cycle : BookCycle) : Book :=
  { b with cycles := b.cycles.insert k cycle }

def dropCycle (k : Scoped Channel) : Book := { b with cycles := b.cycles.erase k }

/-- A repeated `snapshot_id` displaces a cycle, possibly another instrument's. -/
def closeDisplaced (displaced : Option BookCycle) : Book :=
  match displaced with
  | none => b
  | some cycle => b.cycleClosed channel cycle.instrumentId

def snapshotBegin (begin : SnapshotBegin) : Book :=
  let k : Scoped Channel := ⟨channel, begin.snapshotId⟩
  let b := (b.setCycle k (BookCycle.opened begin)).closeDisplaced channel b.cycles[k]?
  (b.update ⟨channel, begin.instrumentId⟩ fun book ↦
    ({ book with openCycles := (book.openCycles + 1) % 2 ^ 32 }, none)).1

def snapshotLevel (level : SnapshotLevel) : Book :=
  match b.cycles[(⟨channel, level.snapshotId⟩ : Scoped Channel)]? with
  | none => b
  | some cycle => b.setCycle ⟨channel, level.snapshotId⟩ (cycle.push level)

/-- Whether a reset that is not recovered from refuses a cycle. -/
def refusesAnchor (k : Scoped Channel) (anchorSeq : ℕ) : Bool :=
  ((b.books[k]?).bind (·.awaitingAnchor)).any fun awaiting ↦ decide (anchorSeq < awaiting)

/-- What a cycle that is over does: it is refused when levels are missing or a reset disowned
it, and anchors its instrument otherwise. -/
def applyCycle (cycle : BookCycle) : Book × Option Change :=
  if cycle.levels ≠ cycle.totalLevels then
    ({ b with refused := { b.refused with
      incompleteCycle := b.refused.incompleteCycle + 1 } }, none)
  else if b.refusesAnchor ⟨channel, cycle.instrumentId⟩ cycle.anchorSeq then
    ({ b with refused := { b.refused with staleCycle := b.refused.staleCycle + 1 } }, none)
  else b.update ⟨channel, cycle.instrumentId⟩ fun book ↦ book.anchor cycle

/-- A snapshot end: the only thing that anchors a delta book. -/
def snapshotEnd (finish : SnapshotEnd) : Book × Option Change :=
  let k : Scoped Channel := ⟨channel, finish.snapshotId⟩
  match b.cycles[k]? with
  | none => (b, none)
  | some cycle =>
      ((b.dropCycle k).cycleClosed channel cycle.instrumentId).applyCycle channel cycle

/-- The depth and the state reported beside a message. -/
def depthAndStatus (instrumentId : ℕ) : ℕ × BookStatus :=
  match b.books[(⟨channel, instrumentId⟩ : Scoped Channel)]? with
  | none => (0, .unstated)
  | some book => (min (book.bids.size + book.asks.size) (2 ^ 32 - 1), book.status)

/-! ## What the operations leave alone -/

theorem book_setBook (k k' : Scoped Channel) (x : InstrumentBook) :
    (b.setBook k x).book k' = if k = k' then x else b.book k' := by
  rw [book, setBook, getElem?_insert_eq]
  split <;> rfl

variable {k : Scoped Channel} (f : InstrumentBook → InstrumentBook × Option Change)

theorem book_update (k' : Scoped Channel) :
    (b.update k f).1.book k' = if k = k' then (f (b.book k)).1 else b.book k' :=
  b.book_setBook k k' _

@[simp] theorem update_snd : (b.update k f).2 = (f (b.book k)).2 := rfl

@[simp] theorem update_cycles : (b.update k f).1.cycles = b.cycles := rfl

/-- A cycle that closes is counted off and changes nothing else. -/
theorem book_cycleClosed (id : ℕ) (k' : Scoped Channel) :
    ∃ n, (b.cycleClosed channel id).book k' = { b.book k' with openCycles := n } := by
  rw [cycleClosed]
  split
  next => exact ⟨(b.book k').openCycles, rfl⟩
  next x hx =>
      rw [book_setBook]
      split
      next hk =>
          subst hk
          rw [book, hx]
          exact ⟨x.openCycles - 1, rfl⟩
      next => exact ⟨(b.book k').openCycles, rfl⟩

@[simp] theorem cycleClosed_cycles (id : ℕ) : (b.cycleClosed channel id).cycles = b.cycles := by
  rw [cycleClosed]
  split <;> rfl

/-! ## Holes -/

/-- The first missing sequence number, when a datagram reveals a hole that touches certainty. -/
def hole (inst : ChannelInstance) (role : PortRole) (sequenceNumber : ℕ) : Option ℕ :=
  match b.lastSequence[inst]? with
  | none => none
  | some previous =>
      if previous + 1 < sequenceNumber ∧ role = .mktdata then some (previous + 1) else none

@[simp] theorem observeSequence_cycles (inst : ChannelInstance) (role : PortRole) (n : ℕ) :
    (b.observeSequence inst role n).1.cycles = b.cycles := by
  simp only [observeSequence]
  split
  · rfl
  · repeat' split
    all_goals rfl

/-- Taking the certainty of some books, in one loop over all of them. -/
theorem book_map_lose (channel : Channel) (m : ℕ) (k : Scoped Channel) :
    ({ b with books := b.books.map fun k book ↦
        if decide (k.scope = channel) && book.believed then book.lose m else book } : Book).book k =
      if k.scope = channel ∧ (b.book k).believed then (b.book k).lose m else b.book k := by
  rw [book, ExtTreeMap.getElem?_map, book]
  cases b.books[k]? with
  | none => exact (if_neg fun h ↦ absurd h.2 (by decide)).symm
  | some book => simp

/-- A datagram's arrival takes certainty from the books of its channel when it reveals a hole,
and does nothing else to a book. -/
theorem book_observeSequence (inst : ChannelInstance) (role : PortRole) (n : ℕ)
    (k : Scoped Channel) :
    (b.observeSequence inst role n).1.book k =
      match b.hole inst role n with
      | none => b.book k
      | some m => if k.scope = Channel.of inst ∧ (b.book k).believed then (b.book k).lose m
          else b.book k := by
  simp only [observeSequence, hole]
  cases hprevious : b.lastSequence[inst]? with
  | none => rfl
  | some previous =>
      dsimp only
      split
      next hle => rw [if_neg (by omega)]
      next hlt =>
          split
          next => rw [if_neg (by omega)]; rfl
          next hne =>
              split
              next hrole => rw [if_neg fun h ↦ hrole h.2]; rfl
              next hrole =>
                  rw [if_pos ⟨by omega, not_not.mp hrole⟩]
                  exact b.book_map_lose _ _ k

theorem mem_filterMap_lose (channel : Channel) (m : ℕ) {id : ℕ} {c : Change} :
    (id, c) ∈ (b.books.toList.filterMap fun (k, book) ↦
        if decide (k.scope = channel) && book.believed then
          some (k.id, (⟨book.top, Certainty.unknown m .gap, false⟩ : Change))
        else none) ↔
      (b.book ⟨channel, id⟩).believed = true ∧
        c = ⟨(b.book ⟨channel, id⟩).top, Certainty.unknown m .gap, false⟩ := by
  rw [List.mem_filterMap, book]
  constructor
  · rintro ⟨⟨k, x⟩, hmem, hsome⟩
    have hk := ExtTreeMap.mem_toList_iff_getElem?_eq_some.mp hmem
    dsimp only at hsome
    split at hsome
    next hloses =>
        obtain ⟨rfl, rfl⟩ := Prod.mk.inj (Option.some.inj hsome)
        obtain ⟨hscope, hbelieved⟩ := (Bool.and_eq_true _ _).mp hloses
        obtain rfl := of_decide_eq_true hscope
        have hk' : b.books[(⟨k.scope, k.id⟩ : Scoped Channel)]? = some x := hk
        rw [hk']
        exact ⟨hbelieved, rfl⟩
    next => exact absurd hsome (by simp)
  · rintro ⟨hbelieved, rfl⟩
    cases hk : b.books[(⟨channel, id⟩ : Scoped Channel)]? with
    | none =>
        rw [hk] at hbelieved
        exact absurd hbelieved (by decide)
    | some x =>
        rw [hk, Option.getD_some] at hbelieved
        refine ⟨(⟨channel, id⟩, x), ExtTreeMap.mem_toList_iff_getElem?_eq_some.mpr hk, ?_⟩
        simp [hbelieved]

/-- What a revealed hole reports: the books that lose their certainty, and their tops. -/
theorem mem_observeSequence {inst : ChannelInstance} {role : PortRole} {n id : ℕ} {c : Change} :
    (id, c) ∈ (b.observeSequence inst role n).2 ↔
      ∃ m, b.hole inst role n = some m ∧ (b.book ⟨Channel.of inst, id⟩).believed = true ∧
        c = ⟨(b.book ⟨Channel.of inst, id⟩).top, Certainty.unknown m .gap, false⟩ := by
  simp only [observeSequence, hole]
  cases hprevious : b.lastSequence[inst]? with
  | none => simp
  | some previous =>
      dsimp only
      split
      next hle => simp [show ¬(previous + 1 < n ∧ role = .mktdata) by omega]
      next hlt =>
          split
          next => simp [show ¬(previous + 1 < n ∧ role = .mktdata) by omega]
          next hne =>
              split
              next hrole => simp [hrole]
              next hrole =>
                  rw [if_pos ⟨by omega, not_not.mp hrole⟩]
                  exact (b.mem_filterMap_lose _ _).trans (by simp)

/-! ## Cycles -/

theorem book_closeDisplaced (displaced : Option BookCycle) (k : Scoped Channel) :
    ∃ n, (b.closeDisplaced channel displaced).book k = { b.book k with openCycles := n } := by
  cases displaced with
  | none => exact ⟨(b.book k).openCycles, rfl⟩
  | some cycle => exact b.book_cycleClosed channel cycle.instrumentId k

@[simp] theorem closeDisplaced_cycles (displaced : Option BookCycle) :
    (b.closeDisplaced channel displaced).cycles = b.cycles := by
  cases displaced with
  | none => rfl
  | some cycle => exact b.cycleClosed_cycles channel cycle.instrumentId

/-- Opening a cycle touches a book's count of open cycles only. -/
theorem book_snapshotBegin (begin : SnapshotBegin) (k : Scoped Channel) :
    ∃ n, (b.snapshotBegin channel begin).book k = { b.book k with openCycles := n } := by
  obtain ⟨n, hn⟩ := (b.setCycle ⟨channel, begin.snapshotId⟩
    (BookCycle.opened begin)).book_closeDisplaced channel
      b.cycles[(⟨channel, begin.snapshotId⟩ : Scoped Channel)]? k
  simp only [snapshotBegin, book_update]
  split
  next hk =>
      subst hk
      rw [hn]
      exact ⟨_, rfl⟩
  next => exact ⟨n, hn⟩

@[simp] theorem snapshotBegin_cycles (begin : SnapshotBegin) :
    (b.snapshotBegin channel begin).cycles =
      b.cycles.insert ⟨channel, begin.snapshotId⟩ (BookCycle.opened begin) := by
  simp only [snapshotBegin, update_cycles, closeDisplaced_cycles, setCycle]

@[simp] theorem book_snapshotLevel (level : SnapshotLevel) (k : Scoped Channel) :
    (b.snapshotLevel channel level).book k = b.book k := by
  rw [snapshotLevel]
  split <;> rfl

theorem snapshotLevel_cycles (level : SnapshotLevel) (x : Scoped Channel) :
    (b.snapshotLevel channel level).cycles[x]? =
      if ⟨channel, level.snapshotId⟩ = x then (b.cycles[x]?).map (·.push level)
      else b.cycles[x]? := by
  rw [snapshotLevel]
  split
  next hnone =>
      split
      next hx => rw [← hx, hnone]; rfl
      next => rfl
  next cycle hcycle =>
      rw [setCycle, getElem?_insert_eq]
      split
      next hx => rw [← hx, hcycle]; rfl
      next => rfl

/-- A cycle that its end applies: it is complete, and no reset refuses it. -/
structure Anchors (finish : SnapshotEnd) (cycle : BookCycle) : Prop where
  here : b.cycles[(⟨channel, finish.snapshotId⟩ : Scoped Channel)]? = some cycle
  complete : cycle.levels = cycle.totalLevels
  current : ∀ a ∈ (b.book ⟨channel, cycle.instrumentId⟩).awaitingAnchor, a ≤ cycle.anchorSeq

theorem refusesAnchor_eq (k : Scoped Channel) (n : ℕ) :
    b.refusesAnchor k n = ((b.book k).awaitingAnchor).any fun a ↦ decide (n < a) := by
  rw [refusesAnchor, book]
  cases b.books[k]? <;> rfl

theorem refusesAnchor_iff (k : Scoped Channel) (n : ℕ) :
    b.refusesAnchor k n = true ↔ ¬∀ a ∈ (b.book k).awaitingAnchor, a ≤ n := by
  rw [refusesAnchor_eq]
  cases (b.book k).awaitingAnchor <;> simp

/-- What a cycle that is over does to the books. -/
theorem applyCycle_cases (cycle : BookCycle) :
    ((¬(cycle.levels = cycle.totalLevels ∧
            ∀ a ∈ (b.book ⟨channel, cycle.instrumentId⟩).awaitingAnchor, a ≤ cycle.anchorSeq) ∧
          (b.applyCycle channel cycle).2 = none ∧
          (b.applyCycle channel cycle).1.books = b.books) ∨
        (cycle.levels = cycle.totalLevels ∧
            ∀ a ∈ (b.book ⟨channel, cycle.instrumentId⟩).awaitingAnchor, a ≤ cycle.anchorSeq) ∧
          b.applyCycle channel cycle =
            b.update ⟨channel, cycle.instrumentId⟩ fun book ↦ book.anchor cycle) ∧
      (b.applyCycle channel cycle).1.cycles = b.cycles ∧
      (b.applyCycle channel cycle).1.lastSequence = b.lastSequence := by
  rw [applyCycle]
  split
  next hlevels => exact ⟨Or.inl ⟨fun h ↦ hlevels h.1, rfl, rfl⟩, rfl, rfl⟩
  next hlevels =>
      split
      next hstale =>
          exact ⟨Or.inl ⟨fun h ↦ (b.refusesAnchor_iff _ _).mp hstale h.2, rfl, rfl⟩, rfl, rfl⟩
      next hcurrent =>
          refine ⟨Or.inr ⟨⟨not_not.mp hlevels, ?_⟩, rfl⟩, rfl, rfl⟩
          rwa [b.refusesAnchor_iff, not_not] at hcurrent

/-- The two outcomes of a snapshot end: no book changes, or the cycle anchors its own
instrument. -/
theorem snapshotEnd_cases (finish : SnapshotEnd) :
    ((∀ cycle, ¬b.Anchors channel finish cycle) ∧ (b.snapshotEnd channel finish).2 = none ∧
        ∀ k, ∃ n, (b.snapshotEnd channel finish).1.book k = { b.book k with openCycles := n }) ∨
      ∃ cycle n, b.Anchors channel finish cycle ∧
        (b.snapshotEnd channel finish).2 =
          ({ b.book ⟨channel, cycle.instrumentId⟩ with openCycles := n }.anchor cycle).2 ∧
        (b.snapshotEnd channel finish).1.book ⟨channel, cycle.instrumentId⟩ =
          ({ b.book ⟨channel, cycle.instrumentId⟩ with openCycles := n }.anchor cycle).1 ∧
        ∀ k, k ≠ ⟨channel, cycle.instrumentId⟩ → ∃ n,
          (b.snapshotEnd channel finish).1.book k = { b.book k with openCycles := n } := by
  rw [snapshotEnd]
  dsimp only
  split
  next hnone =>
      refine Or.inl ⟨fun cycle h ↦ ?_, rfl, fun k ↦ ⟨(b.book k).openCycles, rfl⟩⟩
      exact absurd (hnone.symm.trans h.here) (by simp)
  next cycle hcycle =>
      have hbook := (b.dropCycle ⟨channel, finish.snapshotId⟩).book_cycleClosed channel
        cycle.instrumentId
      generalize (b.dropCycle ⟨channel, finish.snapshotId⟩).cycleClosed channel
        cycle.instrumentId = b' at hbook ⊢
      obtain ⟨n, hn⟩ := hbook ⟨channel, cycle.instrumentId⟩
      have hanchors (c : BookCycle) : b.Anchors channel finish c ↔ c = cycle ∧
          cycle.levels = cycle.totalLevels ∧
            ∀ a ∈ (b'.book ⟨channel, cycle.instrumentId⟩).awaitingAnchor, a ≤ cycle.anchorSeq := by
        rw [hn]
        constructor
        · rintro ⟨here, complete, current⟩
          obtain rfl : c = cycle := Option.some.inj (here.symm.trans hcycle)
          exact ⟨rfl, complete, current⟩
        · rintro ⟨rfl, complete, current⟩
          exact ⟨hcycle, complete, current⟩
      rcases (b'.applyCycle_cases channel cycle).1 with ⟨hnot, hnone, hbooks⟩ | ⟨hyes, heq⟩
      · refine Or.inl ⟨fun c h ↦ hnot ((hanchors c).mp h).2, hnone, fun k ↦ ?_⟩
        rw [book, hbooks]
        exact hbook k
      · refine Or.inr ⟨cycle, n, (hanchors cycle).mpr ⟨rfl, hyes⟩, ?_, ?_, fun k hk ↦ ?_⟩
        · rw [heq, update_snd, hn]
          rfl
        · rw [heq, book_update, if_pos rfl, hn]
          rfl
        · rw [heq, book_update, if_neg (Ne.symm hk)]
          exact hbook k

/-- The cycle is closed either way. -/
theorem snapshotEnd_cycles (finish : SnapshotEnd) (x : Scoped Channel) :
    (b.snapshotEnd channel finish).1.cycles[x]? =
      if ⟨channel, finish.snapshotId⟩ = x then none else b.cycles[x]? := by
  rw [snapshotEnd]
  split
  next hnone =>
      split
      next hx => rw [← hx, hnone]
      next => rfl
  next cycle hcycle =>
      rw [(applyCycle_cases ..).2.1, cycleClosed_cycles, dropCycle, getElem?_erase_eq]

end Book

end EdgeMulticast.Recorder

/-!
## The key of a book

`book_key` (`book.rs`): a hash of the two sides of a top and of nothing else, which two observers
of one market pair on.  It is FNV-1a over a tag and the fields of each side.
-/

namespace EdgeMulticast.Recorder

open EdgeMulticast.Lib

def KEY_OFFSET : UInt64 := 0xcbf29ce484222325

def KEY_PRIME : UInt64 := 0x00000100000001b3

def eat (hash : UInt64) (bytes : List Byte) : UInt64 :=
  bytes.foldl (fun hash byte ↦ (hash ^^^ byte.toUInt64) * KEY_PRIME) hash

def Side.isAbsent (side : Side) : Bool := side.priceRaw.isNone && side.qtyRaw.isNone

/-- One side into an accumulator, its numbers as big-endian bytes. -/
def foldSide (hash : UInt64) (side : Side) : UInt64 :=
  if side.isAbsent then eat hash [0]
  else
    let hash := eat hash [1]
    let hash := eat hash (le64 (Int64.ofInt (side.priceRaw.getD 0)).toUInt64).reverse
    let hash := eat hash (le64 (UInt64.ofNat (side.qtyRaw.getD 0))).reverse
    match side.sourceCount with
    | none => eat hash [0]
    | some count => eat (eat hash [1]) (le16 (UInt16.ofNat count)).reverse

def foldTop (hash : UInt64) (top : Top) : UInt64 := foldSide (foldSide hash top.bid) top.ask

/-- A count of zero is the wire's own absence of a count. -/
def Side.asStated (side : Side) : Side :=
  { side with sourceCount := side.sourceCount.filter (· ≠ 0) }

/-- One book as either of its two observers states it. -/
def asBothObserversStateIt (top : Top) : Top := ⟨top.bid.asStated, top.ask.asStated⟩

def bookKey (top : Top) : UInt64 := foldTop KEY_OFFSET (asBothObserversStateIt top)

/-- Two tops that differ in how a missing count is spelled have one key. -/
theorem bookKey_congr {top top' : Top} (hbid : top.bid.asStated = top'.bid.asStated)
    (hask : top.ask.asStated = top'.ask.asStated) : bookKey top = bookKey top' := by
  rw [bookKey, bookKey, asBothObserversStateIt, asBothObserversStateIt, hbid, hask]

/-- The count of zero and the missing count are one book. -/
example : bookKey ⟨⟨some 10, some 2, some 0⟩, {}⟩ = bookKey ⟨⟨some 10, some 2, none⟩, {}⟩ :=
  bookKey_congr rfl rfl

end EdgeMulticast.Recorder
