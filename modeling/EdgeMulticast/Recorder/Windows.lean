import EdgeMulticast.Recorder.Runs

/-!
# A feed that is cut into windows

`derive_events` folds an object and ends it.  A feed has no end to wait for, so its datagrams are
cut into windows and go through `derive_events_into` one window after another, with one state.

A call forgets two things at the cut that one fold over everything keeps: the datagram it saw
last, and the cycles that have ended.  `Cut` relates the two folds across a window.  What is
forgotten is read again only by a level or an end that follows the end of its own cycle
(`NothingFollowsEnd`), and a feed without these derives the same rows wherever it is cut
(`windows_derive`).
-/

namespace EdgeMulticast.Recorder

open Std (ExtTreeMap)
open EdgeMulticast.Lib

/-! ## Windows -/

def Refused.plus (a b : Refused) : Refused where
  unresolvedInstrument := a.unresolvedInstrument + b.unresolvedInstrument
  orphanSnapshotLevel := a.orphanSnapshotLevel + b.orphanSnapshotLevel
  outOfOrderDefinition := a.outOfOrderDefinition + b.outOfOrderDefinition

/-- Two derivations as one: the rows of the one after those of the other, and the refusals of
both. -/
def DerivedEvents.join (a b : DerivedEvents) : DerivedEvents where
  event := a.event ++ b.event
  bookTop := a.bookTop ++ b.bookTop
  refused := a.refused.plus b.refused
  bookRefused := a.bookRefused.plus b.bookRefused

/-- One more window, into the state the windows before it left. -/
def deriveWindow (input : EventInput) (s : DerivationState × DerivedEvents)
    (window : List RecordedDatagram) : DerivationState × DerivedEvents :=
  let (state, out) := deriveEventsInto s.1 window input
  (state, s.2.join out)

/-- The windows of a feed, and the end of the derivation. -/
def deriveWindows (windows : List (List RecordedDatagram)) (input : EventInput) : DerivedEvents :=
  let (state, out) := run (deriveWindow input) ({}, {}) windows
  { out with bookRefused := out.bookRefused.plus state.closeObject.2 }

/-! ## What follows the end of its own cycle -/

/-- The cycle a message is of without opening it. -/
def Decoded.continues : Decoded → Option (Scoped ChannelInstance)
  | .state (.snapshotLevel level) p => some ⟨p.inst, level.snapshotId⟩
  | .state (.snapshotEnd finish) p => some ⟨p.inst, finish.snapshotId⟩
  | _ => none

/-- Whether the last cycle begun under a key has ended.  There is none before the first. -/
def endedAfter (x : Scoped ChannelInstance) (was : Option Bool) : Decoded → Option Bool
  | .state (.snapshotBegin begin) p => if ⟨p.inst, begin.snapshotId⟩ = x then some false else was
  | .state (.snapshotEnd finish) p =>
      if ⟨p.inst, finish.snapshotId⟩ = x then was.map fun _ ↦ true else was
  | _ => was

/-- No level and no end of a cycle follows the end of that cycle. -/
def NothingFollowsEnd (ds : List Decoded) : Prop :=
  ∀ pre d, pre ++ [d] <+: ds → ∀ x, d.continues = some x →
    run (endedAfter x) none pre ≠ some true

namespace Fold

variable {f g : Fold} {p : WireProvenance} (input : EventInput)

@[simp] theorem state_cycles (persist : Bool) (body : StateBody) :
    (f.state p persist body).cycles =
      (instrumentOfState body p.inst f.cycles f.out.refused).2.1 := by
  simp only [state]
  generalize instrumentOfState body p.inst f.cycles f.out.refused = r
  obtain ⟨_ | id, cycles, refused⟩ := r
  · rfl
  · dsimp only
    split <;> rfl

@[simp] theorem market_openCycles (body : MessageBody) : (f.market p body).cycles = f.cycles := by
  rw [market]
  dsimp only
  split <;> rfl

@[simp] theorem reference_openCycles (body : ReferenceBody) :
    (f.reference p body).cycles = f.cycles := by
  cases body <;> rfl

/-- The fold marks a cycle as ended when its end has been folded. -/
theorem step_ended (d : Decoded) (x : Scoped ChannelInstance) :
    (f.step input d).cycles[x]?.map (·.ended) =
      endedAfter x (f.cycles[x]?.map (·.ended)) d := by
  rw [step]
  rcases d with ⟨body, p⟩ | ⟨body, p⟩ | ⟨body, p⟩
  · rw [message, market_openCycles, observe_cycles]
    rfl
  · rw [message, state_cycles, observe_cycles]
    cases body with
    | reset r => rfl
    | snapshotBegin begin =>
        simp only [instrumentOfState, endedAfter, getElem?_insert_eq]
        split <;> rfl
    | snapshotLevel level =>
        simp only [instrumentOfState, endedAfter]
        cases hcycle : f.cycles[(⟨p.inst, level.snapshotId⟩ : Scoped ChannelInstance)]? with
        | none => rfl
        | some cycle =>
            rw [getElem?_insert_eq]
            split
            next hx => rw [← hx, hcycle]; rfl
            next => rfl
    | snapshotEnd finish =>
        simp only [instrumentOfState, endedAfter]
        cases hcycle : f.cycles[(⟨p.inst, finish.snapshotId⟩ : Scoped ChannelInstance)]? with
        | none =>
            dsimp only
            split
            next hx => rw [← hx, hcycle]; rfl
            next => rfl
        | some cycle =>
            dsimp only
            rw [getElem?_insert_eq]
            split
            next hx => rw [← hx, hcycle]; rfl
            next => rfl
  · rw [message, reference_openCycles, observe_cycles]
    rfl

/-- A cycle that has ended, by the fold and by the messages. -/
theorem fold_ended (ds : List Decoded) (x : Scoped ChannelInstance) :
    (fold input ds).cycles[x]?.map (·.ended) = run (endedAfter x) none ds := by
  rw [fold]
  refine run_history
    (P := fun pre (f : Fold) ↦ f.cycles[x]?.map (·.ended) = run (endedAfter x) none pre)
    ds (by simp) fun pre d _ h ↦ ?_
  rw [step_ended, run_snoc, h]

end Fold

/-! ## Rows and refusals add up -/

namespace Refused

@[simp] theorem plus_zero (a : Refused) : a.plus {} = a := rfl

end Refused

namespace BookRefused

@[simp] theorem plus_zero (a : BookRefused) : a.plus {} = a := rfl

/-- Refusals that were added to. -/
def Grows (a b : BookRefused) : Prop := ∃ more : BookRefused, b = a.plus more

theorem Grows.refl (a : BookRefused) : a.Grows a := ⟨{}, rfl⟩

theorem Grows.trans {a b c : BookRefused} (hab : a.Grows b) (hbc : b.Grows c) : a.Grows c := by
  obtain ⟨m, rfl⟩ := hab
  obtain ⟨n, rfl⟩ := hbc
  exact ⟨m.plus n, by simp only [plus, Nat.add_assoc]⟩

/-- What a call reports completes what the calls before it reported. -/
theorem Grows.plus_refusedSince {a b : BookRefused} (h : a.Grows b) :
    a.plus (refusedSince b a) = b := by
  obtain ⟨m, rfl⟩ := h
  simp only [plus, refusedSince, Nat.add_sub_cancel_left]

end BookRefused

namespace DerivedEvents

variable (done out : DerivedEvents)

theorem join_pushEvent (row : Event) :
    done.join (out.pushEvent row) = (done.join out).pushEvent row := by
  simp only [join, pushEvent, List.append_assoc]

theorem join_pushRows (rows : List BookTop) :
    done.join (out.pushRows rows) = (done.join out).pushRows rows := by
  simp only [join, pushRows, List.append_assoc]

theorem join_unresolved : done.join out.unresolved = (done.join out).unresolved := by
  simp only [join, unresolved, Refused.plus, Nat.add_assoc]

@[simp] theorem join_nil : done.join {} = done := by
  simp only [join, List.append_nil, Refused.plus_zero, BookRefused.plus_zero]

end DerivedEvents

namespace Book

variable (b : Book) (channel : Channel)

@[simp] theorem cycleClosed_refused (id : ℕ) : (b.cycleClosed channel id).refused = b.refused := by
  rw [cycleClosed]
  split <;> rfl

@[simp] theorem observeSequence_refused (inst : ChannelInstance) (role : PortRole) (n : ℕ) :
    (b.observeSequence inst role n).1.refused = b.refused := by
  simp only [observeSequence]
  split
  · rfl
  · repeat' split
    all_goals rfl

@[simp] theorem market_refused (body : MessageBody) :
    (b.market channel body).1.refused = b.refused := by
  cases body <;> rfl

/-- A state message adds to the refusals, or leaves them as they are. -/
theorem state_grows (body : StateBody) : b.refused.Grows (b.state channel body).1.refused := by
  cases body with
  | reset r => exact BookRefused.Grows.refl _
  | snapshotBegin begin =>
      refine ⟨{}, ?_⟩
      rw [BookRefused.plus_zero, state, snapshotBegin]
      cases b.cycles[(⟨channel, begin.snapshotId⟩ : Scoped Channel)]? with
      | none => rfl
      | some cycle => exact cycleClosed_refused ..
  | snapshotLevel level =>
      rw [state, snapshotLevel]
      split <;> exact BookRefused.Grows.refl _
  | snapshotEnd finish =>
      rw [state, snapshotEnd]
      split
      next => exact BookRefused.Grows.refl _
      next cycle hcycle =>
          rw [applyCycle]
          split
          next => exact ⟨⟨1, 0, 0⟩, by simp [BookRefused.plus, dropCycle]⟩
          next =>
              split
              next => exact ⟨⟨0, 1, 0⟩, by simp [BookRefused.plus, dropCycle]⟩
              next => exact ⟨{}, cycleClosed_refused ..⟩

end Book

namespace Fold

variable {f g : Fold} (input : EventInput)

/-- A step adds to the refusals of the book, or leaves them as they are. -/
theorem step_grows (d : Decoded) : f.book.refused.Grows (f.step input d).book.refused := by
  have hobserve (p : WireProvenance) : (f.observe p).book.refused = f.book.refused := by
    rw [observe]
    split
    · rfl
    · exact f.book.observeSequence_refused ..
  rw [step, ← hobserve d.provenance]
  generalize f.observe d.provenance = f
  rcases d with ⟨body, p⟩ | ⟨body, p⟩ | ⟨body, p⟩
  · have hbook := congrArg Prod.fst (f.market_book p body)
    rw [message, show (f.market p body).book = _ from hbook]
    split
    · exact BookRefused.Grows.refl _
    · rw [Book.market_refused]
      exact BookRefused.Grows.refl _
  · have hbook := congrArg Prod.fst (f.state_book input.persistSnapshotLevels p body)
    rw [message, show (f.state p input.persistSnapshotLevels body).book = _ from hbook]
    split
    · exact BookRefused.Grows.refl _
    · exact Book.state_grows ..
  · rw [message, reference_book]
    exact BookRefused.Grows.refl _

theorem run_grows (ds : List Decoded) :
    f.book.refused.Grows (run (step input) f ds).book.refused :=
  run_induction (P := fun (g : Fold) ↦ f.book.refused.Grows g.book.refused) ds (BookRefused.Grows.refl _)
    fun _ d _ h ↦ h.trans (step_grows input d)

end Fold

/-! ## Two folds across a window -/

/-- Open cycles of which some that have ended are dropped. -/
def Pruned (cycles kept : OpenCycles) : Prop :=
  ∀ x : Scoped ChannelInstance, cycles[x]? = kept[x]? ∨
    kept[x]? = none ∧ ∃ cycle, cycles[x]? = some cycle ∧ cycle.ended = true

theorem Pruned.insert {cycles kept : OpenCycles} (h : Pruned cycles kept)
    (x : Scoped ChannelInstance) (cycle : OpenCycle) :
    Pruned (cycles.insert x cycle) (kept.insert x cycle) := by
  intro y
  rw [getElem?_insert_eq, getElem?_insert_eq]
  split
  · exact Or.inl rfl
  · exact h y

/-- The message does not follow the end of its own cycle. -/
def Decoded.InTime (cycles : OpenCycles) (d : Decoded) : Prop :=
  ∀ x, d.continues = some x → ∀ cycle, cycles[x]? = some cycle → cycle.ended = false

theorem Pruned.getElem?_eq {cycles kept : OpenCycles} {d : Decoded} {x : Scoped ChannelInstance}
    (h : Pruned cycles kept) (hd : d.InTime cycles) (hx : d.continues = some x) :
    cycles[x]? = kept[x]? := by
  rcases h x with heq | ⟨-, cycle, hcycle, hended⟩
  · exact heq
  · exact absurd (hended.symm.trans (hd x hx cycle hcycle)) (by simp)

/-- Where a message is in time, dropping cycles changes neither what it is attributed to nor what
is refused. -/
theorem instrumentOfState_pruned {cycles kept : OpenCycles} {body : StateBody}
    {p : WireProvenance} (h : Pruned cycles kept) (hd : (Decoded.state body p).InTime cycles)
    (done refused : Refused) :
    ∃ cycles' kept' refused' instrument,
      instrumentOfState body p.inst cycles (done.plus refused) =
        (instrument, cycles', done.plus refused') ∧
      instrumentOfState body p.inst kept refused = (instrument, kept', refused') ∧
      Pruned cycles' kept' ∧
      ∀ x, (Decoded.state body p).continues = some x → cycles'[x]? = kept'[x]? := by
  cases body with
  | reset r => exact ⟨cycles, kept, refused, _, rfl, rfl, h, fun x hx ↦ h.getElem?_eq hd hx⟩
  | snapshotBegin begin =>
      exact ⟨_, _, refused, _, rfl, rfl, h.insert _ _, fun x hx ↦ by cases hx⟩
  | snapshotLevel level =>
      have hsame := h.getElem?_eq hd rfl
      simp only [instrumentOfState, ← hsame]
      cases hcycle : cycles[(⟨p.inst, level.snapshotId⟩ : Scoped ChannelInstance)]? with
      | none => exact ⟨_, _, _, _, rfl, rfl, h, fun x hx ↦ h.getElem?_eq hd hx⟩
      | some cycle =>
          refine ⟨_, _, _, _, rfl, rfl, h.insert _ _, fun x hx ↦ ?_⟩
          rw [getElem?_insert_eq, getElem?_insert_eq, h.getElem?_eq hd hx]
  | snapshotEnd finish =>
      have hsame := h.getElem?_eq hd rfl
      simp only [instrumentOfState, ← hsame]
      cases hcycle : cycles[(⟨p.inst, finish.snapshotId⟩ : Scoped ChannelInstance)]? with
      | none => exact ⟨_, _, _, _, rfl, rfl, h, fun x hx ↦ h.getElem?_eq hd hx⟩
      | some cycle =>
          refine ⟨_, _, _, _, rfl, rfl, h.insert _ _, fun x hx ↦ ?_⟩
          rw [getElem?_insert_eq, getElem?_insert_eq, h.getElem?_eq hd hx]

/-- A row reads its own cycle and no other. -/
theorem stateRow_congr {p : WireProvenance} {s : Statement} {body : StateBody}
    {cycles kept : OpenCycles}
    (h : ∀ x, (Decoded.state body p).continues = some x → cycles[x]? = kept[x]?) :
    stateRow p s body cycles = stateRow p s body kept := by
  cases body with
  | reset | snapshotBegin => rfl
  | snapshotLevel | snapshotEnd => simp only [stateRow, h _ rfl]

/-- A fold from the start of the feed (`f`) and a fold from the start of a window (`g`), before
which the first had derived `done`. -/
structure Cut (base : ℕ) (done : DerivedEvents) (f g : Fold) : Prop where
  table : f.table = g.table
  book : f.book = g.book
  cycles : Pruned f.cycles g.cycles
  /-- They agree on what they saw of the window's datagrams. -/
  atDatagram : ∀ i, base ≤ i → (f.atDatagram = some i ↔ g.atDatagram = some i)
  out : f.out = done.join g.out

namespace Cut

variable {base : ℕ} {done : DerivedEvents} {f g : Fold} {p : WireProvenance}

theorem observe (h : Cut base done f g) (hp : base ≤ p.datagramIndex) :
    Cut base done (f.observe p) (g.observe p) := by
  by_cases hseen : f.atDatagram = some p.datagramIndex
  · rwa [Fold.observe, Fold.observe, if_pos hseen, if_pos ((h.atDatagram _ hp).mp hseen)]
  · rw [Fold.observe, Fold.observe, if_neg hseen, if_neg fun hg ↦ hseen ((h.atDatagram _ hp).mpr hg)]
    refine ⟨h.table, ?_, h.cycles, fun _ _ ↦ Iff.rfl, ?_⟩
    · rw [h.book]
    · simp only [Fold.gapRows, h.table, h.book, h.out, DerivedEvents.join_pushRows]

theorem reference (h : Cut base done f g) (body : ReferenceBody) :
    Cut base done (f.reference p body) (g.reference p body) := by
  cases body with
  | manifest summary =>
      exact { h with table := congrArg (InstrumentTable.observeManifest · summary _) h.table }
  | definition d =>
      refine { h with table := ?_, out := ?_ }
      · simp only [Fold.reference, h.table]
      · simp only [Fold.reference, h.table, h.out]
        split
        · simp only [DerivedEvents.join, Refused.plus, Nat.add_assoc]
        · rfl

theorem market (h : Cut base done f g) (body : MessageBody) :
    Cut base done (f.market p body) (g.market p body) := by
  rw [Fold.market, Fold.market, h.table]
  dsimp only
  cases g.table.resolve (Channel.of p.inst) (instrumentOfMarket body) p.recvTsNs with
  | none =>
      refine { h with table := rfl, out := ?_ }
      dsimp only
      rw [h.out, DerivedEvents.join_unresolved]
  | some s =>
      refine { h with table := rfl, book := ?_, out := ?_ }
      · dsimp only
        rw [h.book]
      · dsimp only
        rw [h.book, h.out, DerivedEvents.join_pushRows, DerivedEvents.join_pushEvent]

theorem state (h : Cut base done f g) (persist : Bool) {body : StateBody}
    (hd : (Decoded.state body p).InTime f.cycles) :
    Cut base done (f.state p persist body) (g.state p persist body) := by
  obtain ⟨cycles, kept, refused, instrument, hf, hg, hpruned, hsame⟩ :=
    instrumentOfState_pruned h.cycles hd done.refused g.out.refused
  have hrefused : f.out.refused = done.refused.plus g.out.refused := by rw [h.out]; rfl
  rw [Fold.state, Fold.state, hrefused, hf, hg]
  have hout : { f.out with refused := done.refused.plus refused } =
      done.join { g.out with refused := refused } := by rw [h.out]; rfl
  cases instrument with
  | none => exact { h with cycles := hpruned, out := hout }
  | some id =>
      dsimp only
      rw [h.table]
      cases g.table.resolve (Channel.of p.inst) id p.recvTsNs with
      | none =>
          refine { h with table := rfl, cycles := hpruned, out := ?_ }
          dsimp only
          rw [hout, DerivedEvents.join_unresolved]
      | some s =>
          refine { h with table := rfl, cycles := hpruned, book := ?_, out := ?_ }
          · dsimp only
            rw [h.book]
          · dsimp only
            rw [h.book, hout, stateRow_congr hsame, DerivedEvents.join_pushRows]
            split
            · rw [DerivedEvents.join_pushEvent]
            · rfl

theorem step (h : Cut base done f g) (input : EventInput) {d : Decoded}
    (hbase : base ≤ d.provenance.datagramIndex) (hd : d.InTime f.cycles) :
    Cut base done (f.step input d) (g.step input d) := by
  rw [← Fold.observe_cycles f d.provenance] at hd
  cases d with
  | reference body p => exact (h.observe hbase).reference body
  | market body p => exact (h.observe hbase).market body
  | state body p => exact (h.observe hbase).state input.persistSnapshotLevels hd

end Cut

/-! ## The messages of a window -/

theorem WireBody.decoded_shift (base : ℕ) (p : WireProvenance) (body : WireBody) :
    body.decoded { p with datagramIndex := p.datagramIndex + base } =
      (body.decoded p).map (Decoded.shift base) := by
  cases body <;> rfl

/-- A window is numbered from where the windows before it ended. -/
theorem inOrder_shift (magic base index : ℕ) (archive : List RecordedDatagram) :
    inOrder magic (index + base) archive =
      (inOrder magic index archive).map (Decoded.shift base) := by
  induction archive generalizing index with
  | nil => rfl
  | cons d archive ih =>
      rw [inOrder, inOrder, List.map_append, ← ih (index + 1), Nat.add_right_comm]
      congr 1
      rw [RecordedDatagram.decoded, RecordedDatagram.decoded]
      split
      · rfl
      · rw [List.map_filterMap]
        exact List.filterMap_congr fun m _ ↦
          WireBody.decoded_shift base (d.provenance index m.2) m.1

theorem inOrder_append (magic index : ℕ) (archive more : List RecordedDatagram) :
    inOrder magic index (archive ++ more) =
      inOrder magic index archive ++ inOrder magic (index + archive.length) more := by
  induction archive generalizing index with
  | nil => rfl
  | cons d archive ih =>
      rw [List.cons_append, inOrder, inOrder, ih, List.append_assoc, List.length_cons,
        Nat.add_right_comm, Nat.add_assoc index]

/-- The messages of a window lie between its first and its last datagram. -/
theorem index_lt_of_mem_inOrder {magic index : ℕ} {archive : List RecordedDatagram} {d : Decoded}
    (h : d ∈ inOrder magic index archive) :
    d.provenance.datagramIndex < index + archive.length := by
  induction archive generalizing index with
  | nil => cases h
  | cons r archive ih =>
      rw [List.length_cons]
      rcases List.mem_append.mp h with h | h
      · have := (r.pairwise_decoded magic index).1 d h
        omega
      · have := ih h
        omega

theorem WireCapture.absorb_datagrams (magic : ℕ) (archive : List RecordedDatagram) :
    (absorb magic archive).datagrams = archive.length := by
  suffices h : ∀ c : WireCapture,
      (archive.foldl (absorbDatagram magic) c).datagrams = c.datagrams + archive.length by
    rw [absorb, h, Nat.zero_add]
  induction archive with
  | nil => exact fun c ↦ rfl
  | cons d archive ih =>
      intro c
      rw [List.foldl_cons, ih, absorbDatagram, List.length_cons, Nat.add_right_comm, Nat.add_assoc]

/-! ## Windows add up -/

namespace Fold

variable {f g : Fold} (input : EventInput)

theorem step_atDatagram (d : Decoded) :
    (f.step input d).atDatagram = some d.provenance.datagramIndex := by
  have hobserve (p : WireProvenance) : (f.observe p).atDatagram = some p.datagramIndex := by
    rw [observe]
    split
    · assumption
    · rfl
  rw [step, ← hobserve d.provenance]
  generalize f.observe d.provenance = f
  rcases d with ⟨body, p⟩ | ⟨body, p⟩ | ⟨body, p⟩
  · simp only [message, market]
    split <;> rfl
  · simp only [message, state]
    split
    · rfl
    · split <;> rfl
  · cases body <;> rfl

/-- What a fold has come to: its rows, and the refusals it and its book counted. -/
def derived (f : Fold) : DerivedEvents := { f.out with bookRefused := f.book.refused }

end Fold

/-- The state between two windows stands for a fold from the start of the feed. -/
structure Stands (f : Fold) (state : DerivationState) : Prop where
  table : f.table = state.table
  book : f.book = state.book
  cycles : Pruned f.cycles state.cycles
  behind : ∀ i, f.atDatagram = some i → i < state.datagrams
  reported : state.reported = f.book.refused

namespace Stands

variable {f : Fold} {state : DerivationState} (input : EventInput)

/-- One window, folded by itself and as part of the feed. -/
theorem window (h : Stands f state) (archive : List RecordedDatagram)
    (htime : ∀ pre d, pre ++ [d] <+: inOrder input.magic state.datagrams archive →
      d.InTime (run (Fold.step input) f pre).cycles) :
    let f' := run (Fold.step input) f (inOrder input.magic state.datagrams archive)
    Stands f' (deriveEventsInto state archive input).1 ∧
      f.derived.join (deriveEventsInto state archive input).2 = f'.derived := by
  have hmessages : (WireCapture.absorb input.magic archive).ordered.map
      (Decoded.shift state.datagrams) = inOrder input.magic state.datagrams archive := by
    rw [WireCapture.ordered_absorb, ← inOrder_shift, Nat.zero_add]
  simp only [deriveEventsInto, hmessages, WireCapture.absorb_datagrams]
  have hrange (d : Decoded) (hd : d ∈ inOrder input.magic state.datagrams archive) :=
    And.intro ((WireCapture.pairwise_inOrder input.magic archive state.datagrams).1 d hd)
      (index_lt_of_mem_inOrder hd)
  generalize inOrder input.magic state.datagrams archive = ds at htime hrange ⊢
  have hstart : Cut state.datagrams f.out f
      { table := state.table, cycles := state.cycles, book := state.book } := by
    refine ⟨h.table, h.book, h.cycles, fun i hi ↦ ?_, (DerivedEvents.join_nil _).symm⟩
    exact iff_of_false (fun hsome ↦ (h.behind i hsome).not_ge hi) (by simp)
  have hcut := run_history (P := fun pre g ↦ Cut state.datagrams f.out
    (run (Fold.step input) f pre) g) ds hstart fun pre d hpre hcut ↦ by
      rw [run_snoc]
      exact hcut.step input (hrange d (hpre.subset (by simp))).1 (htime pre d hpre)
  have hbehind : ∀ i, (run (Fold.step input) f ds).atDatagram = some i →
      i < state.datagrams + archive.length := by
    refine run_induction (P := fun (f : Fold) ↦ ∀ i, f.atDatagram = some i →
      i < state.datagrams + archive.length) ds (fun i hi ↦ ?_) fun f d hd _ i hi ↦ ?_
    · exact Nat.lt_add_right _ (h.behind i hi)
    · rw [Fold.step_atDatagram] at hi
      exact Option.some.inj hi ▸ (hrange d hd).2
  have hgrows : f.book.refused.Grows (run (Fold.step input) f ds).book.refused :=
    Fold.run_grows input ds
  refine ⟨⟨hcut.table, hcut.book, fun x ↦ ?_, hbehind, by rw [hcut.book]⟩, ?_⟩
  · rw [ExtTreeMap.getElem?_filter']
    rcases hcut.cycles x with heq | ⟨hnone, hended⟩
    · rw [← heq]
      cases hcycle : (run (Fold.step input) f ds).cycles[x]? with
      | none => exact Or.inl rfl
      | some cycle =>
          cases hended : cycle.ended with
          | false => exact Or.inl (by simp only [Option.filter, hended]; rfl)
          | true => exact Or.inr ⟨by simp [hended], cycle, rfl, hended⟩
    · exact Or.inr ⟨by rw [hnone]; rfl, hended⟩
  · have hrefused := hgrows.plus_refusedSince
    rw [hcut.book] at hrefused
    rw [Fold.derived, Fold.derived, hcut.out, hcut.book, h.reported]
    simp only [DerivedEvents.join, hrefused]

/-- Window after window, as one fold over the feed. -/
theorem windows (h : Stands f state) (windows : List (List RecordedDatagram))
    (htime : ∀ pre d, pre ++ [d] <+: inOrder input.magic state.datagrams windows.flatten →
      d.InTime (run (Fold.step input) f pre).cycles) :
    let f' := run (Fold.step input) f (inOrder input.magic state.datagrams windows.flatten)
    let s := run (deriveWindow input) (state, f.derived) windows
    Stands f' s.1 ∧ s.2 = f'.derived := by
  induction windows generalizing f state with
  | nil => exact ⟨h, rfl⟩
  | cons archive windows ih =>
      rw [List.flatten_cons, inOrder_append] at htime ⊢
      obtain ⟨hstands, hjoin⟩ := h.window input archive fun pre d hpre ↦
        htime pre d (hpre.trans (List.prefix_append ..))
      have hbase : (deriveEventsInto state archive input).1.datagrams =
          state.datagrams + archive.length :=
        congrArg (state.datagrams + ·) (WireCapture.absorb_datagrams input.magic archive)
      rw [run_cons, deriveWindow, run_append, ← hbase]
      rw [← hbase] at htime
      dsimp only
      rw [hjoin]
      refine ih hstands fun pre d hpre ↦ ?_
      rw [← run_append]
      refine htime _ d ?_
      rw [List.append_assoc]
      exact (List.prefix_append_right_inj _).mpr hpre

end Stands

/-- An object that is derived at once, as a fold over its messages and the end of it. -/
theorem deriveEvents_eq (archive : List RecordedDatagram) (input : EventInput) :
    deriveEvents archive input =
      let f := fold input (inOrder input.magic 0 archive)
      { f.derived with
        bookRefused :=
          f.book.refused.plus (refusedSince f.book.closeObject.refused f.book.refused) } := by
  have hshift : (WireCapture.absorb input.magic archive).ordered.map (Decoded.shift 0) =
      inOrder input.magic 0 archive := by
    rw [WireCapture.ordered_absorb]
    exact List.map_id'' Decoded.shift_zero _
  simp only [deriveEvents, deriveEventsInto, fold, hshift]
  rfl

/-- **Derivation does not depend on where the feed is cut.** -/
theorem windows_derive (windows : List (List RecordedDatagram)) (input : EventInput)
    (h : NothingFollowsEnd (inOrder input.magic 0 windows.flatten)) :
    deriveWindows windows input = deriveEvents windows.flatten input := by
  have hstart : Stands {} {} := ⟨rfl, rfl, fun x ↦ Or.inl rfl, by simp, rfl⟩
  obtain ⟨hstands, hderived⟩ := hstart.windows input windows fun pre d hpre x hx cycle hcycle ↦ by
    have hended := Fold.fold_ended input pre x
    rw [fold, hcycle, Option.map_some] at hended
    have hopen := h pre d hpre x hx
    rw [← hended] at hopen
    simpa using hopen
  rw [deriveEvents_eq]
  have hrun : run (deriveWindow input) ({}, {}) windows =
      run (deriveWindow input) ({}, ({} : Fold).derived) windows := rfl
  simp only [deriveWindows, hrun, DerivationState.closeObject, hderived, ← hstands.book,
    hstands.reported]
  rfl

/-- A feed cut inside a snapshot cycle, between a definition and its first price and before a
gap. -/
def cutFeed : List (List RecordedDatagram) := [
  [datagram .refdata 1 [.reference (.definition (definition 1))],
    datagram .snapshot 1 [.state (.snapshotBegin ⟨1, 1, 1, 9, 0⟩)]],
  [datagram .mktdata 1 [.market (.level ⟨1, 0, 100, 5, 0⟩)],
    datagram .snapshot 2 [.state (.snapshotLevel ⟨9, 0, 100, 5⟩),
      .state (.snapshotEnd ⟨1, 1, 9⟩)]],
  [datagram .mktdata 3 [.market (.level ⟨1, 0, 101, 2, 0⟩)]]]

theorem windows_derive_cutFeed :
    deriveWindows cutFeed { magic := 0 } = deriveEvents cutFeed.flatten { magic := 0 } ∧
      (deriveEvents cutFeed.flatten { magic := 0 }).bookTop.length = 4 := by
  refine ⟨windows_derive _ _ ?_, ?_⟩
  · refine forall_prefix_cons.mpr ⟨?_, forall_prefix_cons.mpr ⟨?_, forall_prefix_cons.mpr ⟨?_,
      forall_prefix_cons.mpr ⟨?_, forall_prefix_cons.mpr ⟨?_, forall_prefix_cons.mpr ⟨?_,
        forall_prefix_nil⟩⟩⟩⟩⟩⟩
    all_goals
      intro x hx
      cases hx
    all_goals decide
  · rw [deriveEvents_bookTop]
    decide +kernel

end EdgeMulticast.Recorder
