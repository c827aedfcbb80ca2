import EdgeMulticast.Recorder.Derive

/-!
# What one message does to one book

Every property of the derivation is about the book of one instrument, and a step of the fold is
two things to it: the arrival of the datagram, which may reveal a hole (`book_observe`), and the
message, which touches the book in one of three ways or leaves it alone (`message_cases`).

`Touches` lists the three, with everything the code has checked when it gets there, and
`message_outcome` says the same of all books at once, with the row that is written.
-/

namespace EdgeMulticast.Recorder

open Std (ExtTreeMap)
open EdgeMulticast.Lib

namespace Fold

variable (f : Fold) (p : WireProvenance)

/-! ## The arrival of a datagram -/

/-- The first missing sequence number, when the message is the first of its datagram and the
datagram reveals a hole that touches certainty. -/
def hole : Option ℕ :=
  if f.atDatagram = some p.datagramIndex then none
  else f.book.hole p.inst p.role p.sequenceNumber

theorem book_observe (k : Scoped Channel) : (f.observe p).book.book k =
    match f.hole p with
    | none => f.book.book k
    | some m => if k.scope = Channel.of p.inst ∧ (f.book.book k).believed then
        (f.book.book k).lose m else f.book.book k := by
  rw [observe, hole]
  split
  · rfl
  · exact f.book.book_observeSequence ..

@[simp] theorem observe_table : (f.observe p).table = f.table := by
  rw [observe]
  split <;> rfl

@[simp] theorem observe_cycles : (f.observe p).cycles = f.cycles := by
  rw [observe]
  split <;> rfl

@[simp] theorem observe_bookCycles : (f.observe p).book.cycles = f.book.cycles := by
  rw [observe]
  split
  · rfl
  · exact f.book.observeSequence_cycles ..

/-- The rows an arrival adds: one for every book that loses its certainty and whose instrument
resolves at that instant. -/
theorem observe_bookTop : ∃ rows, (f.observe p).out.bookTop = f.out.bookTop ++ rows ∧
    ∀ row, row ∈ rows ↔ ∃ m id s, f.hole p = some m ∧
      (f.book.book ⟨Channel.of p.inst, id⟩).believed = true ∧
      f.table.resolve (Channel.of p.inst) id p.recvTsNs = some s ∧
      row = bookRow p s
        ⟨(f.book.book ⟨Channel.of p.inst, id⟩).top, Certainty.unknown m .gap, false⟩ := by
  rw [observe, hole]
  split
  · exact ⟨[], by simp, by simp⟩
  · refine ⟨_, rfl, fun row ↦ ?_⟩
    rw [gapRows, List.mem_filterMap]
    constructor
    · rintro ⟨⟨id, change⟩, hmem, hsome⟩
      obtain ⟨s, hs, rfl⟩ := Option.map_eq_some_iff.mp hsome
      obtain ⟨m, hm, hbelieved, rfl⟩ := (f.book.mem_observeSequence).mp hmem
      exact ⟨m, id, s, hm, hbelieved, hs, rfl⟩
    · rintro ⟨m, id, s, hm, hbelieved, hs, rfl⟩
      refine ⟨_, (f.book.mem_observeSequence).mpr ⟨m, hm, hbelieved, rfl⟩, ?_⟩
      simp [hs]

/-! ## The message -/

end Fold

/-- The instrument a message names.  A level of a snapshot names none. -/
def Decoded.names : Decoded → Option ℕ
  | .market body _ => some (instrumentOfMarket body)
  | .state (.reset r) _ => some r.instrumentId
  | .state (.snapshotBegin begin) _ => some begin.instrumentId
  | .state (.snapshotEnd finish) _ => some finish.instrumentId
  | .state (.snapshotLevel _) _ | .reference .. => none

/-- What a market message makes of the book of its instrument.  A trade moves none. -/
def InstrumentBook.market (book : InstrumentBook) : MessageBody → InstrumentBook × Option Change
  | .quote q => book.quote q
  | .trade _ => (book, none)
  | .level l => book.level l
  | .clear c => book.clear c

namespace Book

variable (b : Book) (channel : Channel)

theorem book_market (body : MessageBody) (k : Scoped Channel) : (b.market channel body).1.book k =
    if ⟨channel, instrumentOfMarket body⟩ = k then ((b.book k).market body).1 else b.book k := by
  have hupdate (f : InstrumentBook → InstrumentBook × Option Change) (x : Scoped Channel) :
      (b.update x f).1.book k = if x = k then (f (b.book k)).1 else b.book k := by
    rw [book_update]
    split
    next hx => rw [hx]
    next => rfl
  cases body with
  | trade t => exact (ite_self _).symm
  | quote q => exact hupdate (·.quote q) _
  | level l => exact hupdate (·.level l) _
  | clear c => exact hupdate (·.clear c) _

theorem market_snd (body : MessageBody) : (b.market channel body).2 =
    ((b.book ⟨channel, instrumentOfMarket body⟩).market body).2 := by
  cases body <;> rfl

@[simp] theorem market_cycles (body : MessageBody) :
    (b.market channel body).1.cycles = b.cycles := by
  cases body <;> rfl

end Book

namespace Fold

variable {f : Fold} {p : WireProvenance} (input : EventInput)

/-- The cycle of the instrument under `k` that the message ends and that anchors its book.  The
instrument the end itself names has to resolve, and need not be the cycle's. -/
def anchoring (f : Fold) (k : Scoped Channel) : Decoded → Option BookCycle
  | .state (.snapshotEnd finish) p =>
      if Channel.of p.inst = k.scope ∧
          (f.table.resolve k.scope finish.instrumentId p.recvTsNs).isSome then
        (f.book.cycles[(⟨k.scope, finish.snapshotId⟩ : Scoped Channel)]?).filter fun cycle ↦
          decide (cycle.instrumentId = k.id ∧ cycle.levels = cycle.totalLevels ∧
            ∀ a ∈ (f.book.book k).awaitingAnchor, a ≤ cycle.anchorSeq)
      else none
  | _ => none

/-- Only an end anchors. -/
theorem end_of_anchoring {k : Scoped Channel} {d : Decoded} {cycle : BookCycle}
    (h : f.anchoring k d = some cycle) : ∃ finish p, d = .state (.snapshotEnd finish) p := by
  unfold anchoring at h
  split at h
  next finish p => exact ⟨finish, p, rfl⟩
  next => exact absurd h (by simp)

theorem anchoring_snapshotEnd {k : Scoped Channel} {finish : SnapshotEnd} {cycle : BookCycle} :
    f.anchoring k (.state (.snapshotEnd finish) p) = some cycle ↔
      (⟨Channel.of p.inst, cycle.instrumentId⟩ : Scoped Channel) = k ∧
        (∃ s, f.table.resolve k.scope finish.instrumentId p.recvTsNs = some s) ∧
        f.book.Anchors (Channel.of p.inst) finish cycle := by
  rw [anchoring]
  split
  next h =>
      obtain ⟨hscope, hresolved⟩ := h
      rw [Option.filter_eq_some_iff, decide_eq_true_iff, hscope]
      constructor
      · rintro ⟨here, hid, complete, current⟩
        have hk : (⟨k.scope, cycle.instrumentId⟩ : Scoped Channel) = k := by rw [hid]
        exact ⟨hk, Option.isSome_iff_exists.mp hresolved, here, complete, hk ▸ current⟩
      · rintro ⟨hk, -, here, complete, current⟩
        exact ⟨here, congrArg Scoped.id hk, complete, hk ▸ current⟩
  next h =>
      refine iff_of_false (by simp) ?_
      rintro ⟨rfl, hresolved, -⟩
      exact h ⟨rfl, Option.isSome_iff_exists.mpr hresolved⟩

/-- The end of a cycle arrives on the channel of its instrument. -/
theorem anchoring_scope {k : Scoped Channel} {d : Decoded} {cycle : BookCycle}
    (h : f.anchoring k d = some cycle) : Channel.of d.provenance.inst = k.scope := by
  obtain ⟨finish, p, rfl⟩ := end_of_anchoring h
  exact congrArg Scoped.scope (anchoring_snapshotEnd.mp h).1

/-- The ways a message touches the book under `k`, with the book it makes and the change it
reports. -/
inductive Touches (f : Fold) (k : Scoped Channel) : Decoded → InstrumentBook × Option Change → Prop
  | /-- A market message of the instrument. -/
    market {body p s} (here : ⟨Channel.of p.inst, instrumentOfMarket body⟩ = k)
      (resolved : f.table.resolve k.scope k.id p.recvTsNs = some s) :
      Touches f k (.market body p) ((f.book.book k).market body)
  | /-- A reset of the instrument. -/
    reset {r p s} (here : ⟨Channel.of p.inst, r.instrumentId⟩ = k)
      (resolved : f.table.resolve k.scope k.id p.recvTsNs = some s) :
      Touches f k (.state (.reset r) p) ((f.book.book k).reset r)
  | /-- The end of a cycle of the instrument. -/
    anchor {d cycle n} (anchors : f.anchoring k d = some cycle) :
      Touches f k d ({ f.book.book k with openCycles := n }.anchor cycle)

/-- The book is the same but for its count of open cycles. -/
def Untouched (f f' : Fold) (k : Scoped Channel) : Prop :=
  ∃ n, f'.book.book k = { f.book.book k with openCycles := n }

theorem Untouched.of_eq {f f' : Fold} {k : Scoped Channel} (h : f'.book.book k = f.book.book k) :
    Untouched f f' k := ⟨(f.book.book k).openCycles, h⟩

@[simp] theorem reference_book (p : WireProvenance) (body : ReferenceBody) :
    (f.reference p body).book = f.book := by
  cases body <;> rfl

/-- A market message reaches the book when its instrument resolves. -/
theorem market_book (p : WireProvenance) (body : MessageBody) :
    ((f.market p body).book, (f.market p body).out.bookTop) =
      match f.table.resolve (Channel.of p.inst) (instrumentOfMarket body) p.recvTsNs with
      | none => (f.book, f.out.bookTop)
      | some s => ((f.book.market (Channel.of p.inst) body).1, f.out.bookTop ++
          (f.book.market (Channel.of p.inst) body).2.toList.map (bookRow p s)) := by
  cases hs : f.table.resolve (Channel.of p.inst) (instrumentOfMarket body) p.recvTsNs <;>
    simp only [market, hs, DerivedEvents.unresolved, DerivedEvents.pushEvent,
      DerivedEvents.pushRows]

/-- What a market message makes of a book. -/
theorem message_market (input : EventInput) (p : WireProvenance) (body : MessageBody)
    (k : Scoped Channel) : (f.message input (.market body p)).book.book k =
      if ⟨Channel.of p.inst, instrumentOfMarket body⟩ = k ∧
          (f.table.resolve k.scope k.id p.recvTsNs).isSome then
        ((f.book.book k).market body).1
      else f.book.book k := by
  have hbook := congrArg Prod.fst (f.market_book p body)
  rw [message, show (f.market p body).book = _ from hbook]
  cases hs : f.table.resolve (Channel.of p.inst) (instrumentOfMarket body) p.recvTsNs with
  | none =>
      refine (if_neg ?_).symm
      rintro ⟨rfl, hresolved⟩
      exact absurd hresolved (by simp [hs])
  | some s =>
      rw [Book.book_market]
      refine if_congr ?_ rfl rfl
      constructor
      · rintro rfl
        exact ⟨rfl, by simp [hs]⟩
      · exact And.left

/-- A state message reaches the book when it is attributed to an instrument that resolves. -/
theorem state_book (persist : Bool) (p : WireProvenance) (body : StateBody) :
    ((f.state p persist body).book, (f.state p persist body).out.bookTop) =
      match (instrumentOfState body p.inst f.cycles f.out.refused).1.bind fun id ↦
        f.table.resolve (Channel.of p.inst) id p.recvTsNs with
      | none => (f.book, f.out.bookTop)
      | some s => ((f.book.state (Channel.of p.inst) body).1, f.out.bookTop ++
          (f.book.state (Channel.of p.inst) body).2.toList.map (bookRow p s)) := by
  simp only [state]
  generalize instrumentOfState body p.inst f.cycles f.out.refused = r
  obtain ⟨_ | id, cycles, refused⟩ := r
  · rfl
  · dsimp only
    rw [Option.bind_some]
    cases hs : f.table.resolve (Channel.of p.inst) id p.recvTsNs with
    | none => rfl
    | some s =>
        dsimp only
        split <;> rfl

/-- What a message does, to every book and to the rows: nothing, or it touches one book and
reports the change under the instrument it names. -/
inductive Outcome (f : Fold) (d : Decoded) (f' : Fold) : Prop
  | /-- No book is touched and no row is written. -/
    none (untouched : ∀ k, Untouched f f' k) (rows : f'.out.bookTop = f.out.bookTop)
  | /-- One book is touched. -/
    one {k r s id} (touches : Touches f k d r) (here : f'.book.book k = r.1)
      (elsewhere : ∀ k', k' ≠ k → Untouched f f' k') (names : d.names = some id)
      (resolved : f.table.resolve (Channel.of d.provenance.inst) id d.provenance.recvTsNs = some s)
      (rows : f'.out.bookTop = f.out.bookTop ++ r.2.toList.map (bookRow d.provenance s))

theorem market_outcome (p : WireProvenance) (body : MessageBody) :
    Outcome f (.market body p) (f.market p body) := by
  have h := f.market_book p body
  cases hs : f.table.resolve (Channel.of p.inst) (instrumentOfMarket body) p.recvTsNs with
  | none =>
      rw [hs] at h
      obtain ⟨hbook, hrows⟩ := Prod.mk.inj h
      exact .none (fun k ↦ Untouched.of_eq (by rw [hbook])) hrows
  | some s =>
      rw [hs] at h
      obtain ⟨hbook, hrows⟩ := Prod.mk.inj h
      rw [Book.market_snd] at hrows
      refine .one (Touches.market rfl hs) ?_ (fun k hk ↦ ?_) rfl hs hrows
      · rw [hbook, Book.book_market, if_pos rfl]
      · refine Untouched.of_eq ?_
        rw [hbook, Book.book_market, if_neg (Ne.symm hk)]

theorem state_outcome (persist : Bool) (p : WireProvenance) (body : StateBody) :
    Outcome f (.state body p) (f.state p persist body) := by
  have h := f.state_book persist p body
  cases hs : (instrumentOfState body p.inst f.cycles f.out.refused).1.bind fun id ↦
      f.table.resolve (Channel.of p.inst) id p.recvTsNs with
  | none =>
      rw [hs] at h
      obtain ⟨hbook, hrows⟩ := Prod.mk.inj h
      exact .none (fun k ↦ Untouched.of_eq (by rw [hbook])) hrows
  | some s =>
      rw [hs] at h
      obtain ⟨hbook, hrows⟩ := Prod.mk.inj h
      cases body with
      | reset r =>
          refine .one (Touches.reset rfl hs) ?_ (fun k hk ↦ ?_) rfl hs hrows
          · rw [hbook, Book.state, Book.reset, Book.book_update, if_pos rfl]
          · refine Untouched.of_eq ?_
            rw [hbook, Book.state, Book.reset, Book.book_update, if_neg (Ne.symm hk)]
      | snapshotBegin begin =>
          refine .none (fun k ↦ ?_) (hrows.trans (List.append_nil _))
          rw [Untouched, hbook]
          exact f.book.book_snapshotBegin _ begin k
      | snapshotLevel level =>
          refine .none (fun k ↦ Untouched.of_eq ?_) (hrows.trans (List.append_nil _))
          rw [hbook]
          exact f.book.book_snapshotLevel _ level k
      | snapshotEnd finish =>
          rcases f.book.snapshotEnd_cases (Channel.of p.inst) finish with
            ⟨-, hnone, hsame⟩ | ⟨cycle, n, hanchors, hchange, hown, hsame⟩
          · refine .none (fun k ↦ ?_) ?_
            · rw [Untouched, hbook]
              exact hsame k
            · rw [hrows, Book.state, hnone]
              exact List.append_nil _
          · have hanchor := anchoring_snapshotEnd.mpr ⟨rfl, ⟨s, hs⟩, hanchors⟩
            refine .one (Touches.anchor (n := n) hanchor) ?_ (fun k hk ↦ ?_) rfl hs ?_
            · rw [hbook]
              exact hown
            · rw [Untouched, hbook]
              exact hsame k hk
            · rw [hrows, Book.state, hchange]
              rfl

/-- **What a message does.** -/
theorem message_outcome (d : Decoded) : Outcome f d (f.message input d) := by
  cases d with
  | reference body p =>
      refine .none (fun k ↦ Untouched.of_eq ?_) ?_ <;> rw [message]
      · rw [reference_book]
      · cases body <;> rfl
  | market body p => exact market_outcome p body
  | state body p => exact state_outcome _ p body

/-- What a message does to one book. -/
theorem message_cases (d : Decoded) (k : Scoped Channel) : Untouched f (f.message input d) k ∨
    ∃ r, Touches f k d r ∧ (f.message input d).book.book k = r.1 := by
  cases f.message_outcome input d with
  | none untouched => exact Or.inl (untouched k)
  | @one k' r s id touches here elsewhere =>
      by_cases hk : k = k'
      · exact Or.inr ⟨r, hk ▸ touches, hk ▸ here⟩
      · exact Or.inl (elsewhere k hk)

/-- A cycle that anchors makes the book its own. -/
theorem message_anchoring {d : Decoded} {k : Scoped Channel} {cycle : BookCycle}
    (h : f.anchoring k d = some cycle) :
    ∃ n, (f.message input d).book.book k = ({ f.book.book k with openCycles := n }.anchor cycle).1 := by
  obtain ⟨finish, p, rfl⟩ := end_of_anchoring h
  obtain ⟨rfl, ⟨s, hs⟩, hanchors⟩ := anchoring_snapshotEnd.mp h
  have hbook := congrArg Prod.fst (f.state_book input.persistSnapshotLevels p
    (.snapshotEnd finish))
  simp only [instrumentOfState, Option.bind_some, hs, Book.state] at hbook
  rw [message, hbook]
  rcases f.book.snapshotEnd_cases (Channel.of p.inst) finish with
    ⟨hnot, -⟩ | ⟨cycle', n, hanchors', -, hown, -⟩
  · exact absurd hanchors (hnot cycle)
  · obtain rfl : cycle = cycle' := Option.some.inj (hanchors.here.symm.trans hanchors'.here)
    exact ⟨n, hown⟩

end Fold

/-! ## A small archive

One publisher, one channel, and a port for every role. -/

/-- A datagram of the channel. -/
def datagram (role : PortRole) (sequenceNumber : ℕ) (messages : List WireBody) :
    RecordedDatagram where
  magic := 0
  srcIp := 1
  dstPort := match role with
    | .mktdata => 100
    | .refdata => 200
    | .snapshot => 300
  role := role
  recvTsNs := 0
  channelId := 7
  sequenceNumber := sequenceNumber
  resetCount := 0
  messages := some (messages.take 255)
  count_lt ms hms := by
    obtain rfl := Option.some.inj hms
    exact Nat.lt_succ_of_le (List.length_take_le ..)

def definition (instrumentId : ℕ) : InstrumentDefinition where
  instrumentId := instrumentId
  sourceId := 0
  symbol := ""
  priceExponent := 0
  qtyExponent := 0
  contractValue := 1
  manifestSeq := 1

/-- A snapshot group with the levels of a list, each a side, a price and a quantity. -/
def snapshotGroup (instrumentId snapshotId anchorSeq : ℕ) (levels : List (ℕ × ℤ × ℕ)) :
    List WireBody :=
  .state (.snapshotBegin ⟨instrumentId, anchorSeq, levels.length, snapshotId, 0⟩) ::
    levels.map (fun l ↦ .state (.snapshotLevel ⟨snapshotId, l.1, l.2.1, l.2.2⟩)) ++
      [.state (.snapshotEnd ⟨instrumentId, anchorSeq, snapshotId⟩)]

/-- A snapshot group without levels. -/
def group (instrumentId snapshotId anchorSeq : ℕ) : List WireBody :=
  snapshotGroup instrumentId snapshotId anchorSeq []

end EdgeMulticast.Recorder
