import EdgeMulticast.Lib.Run
import EdgeMulticast.Recorder.Book
import EdgeMulticast.Recorder.Instruments

/-!
# The fold of the derivation

`derive.rs`: an archive, folded message by message into rows, against reference data and a book
that outlive the message.

`Fold` is what `derive_events_into` carries from one message to the next: the part of the state
that outlives the call, the datagram whose arrival has been noted, and the rows derived so far.
`Fold.step` is the body of its loop.  A row keeps the provenance, the statement and the message
it is made from, and the columns the fold computes; the columns that only repeat these are left
out, and so is the instrument grain.
-/

namespace EdgeMulticast.Recorder

open Std (ExtTreeMap)
open EdgeMulticast.Lib

/-! ## Rows -/

/-- One change in a top of book, as a row. -/
structure BookTop where
  provenance : WireProvenance
  statement : Statement
  top : Top
  fromAnchor : Bool
  bookCertain : Bool
  uncertainSince : Option ℕ
  uncertainReason : UncertainReason
deriving DecidableEq, Repr

def bookRow (p : WireProvenance) (s : Statement) (change : Change) : BookTop where
  provenance := p
  statement := s
  top := change.top
  fromAnchor := change.fromAnchor
  bookCertain := change.certainty.certain
  uncertainSince := change.certainty.since
  uncertainReason := change.certainty.reason

/-- The message an event row is made from. -/
inductive EventBody where
  | market (body : MessageBody)
  | state (body : StateBody)
deriving DecidableEq, Repr

/-- One decoded message, as a row. -/
structure Event where
  provenance : WireProvenance
  statement : Statement
  body : EventBody
  upstreamTs : Option ℕ
  levelIndex : Option ℕ := none
  levelsSeen : Option ℕ := none
  bookLevelsAfter : ℕ := 0
  statusAfter : BookStatus := .unstated
deriving DecidableEq, Repr

/-- What a fold could not attribute, counted rather than guessed. -/
structure Refused where
  unresolvedInstrument : ℕ := 0
  orphanSnapshotLevel : ℕ := 0
  outOfOrderDefinition : ℕ := 0
deriving DecidableEq, Repr

/-- One object's market data rows. -/
structure DerivedEvents where
  event : List Event := []
  bookTop : List BookTop := []
  refused : Refused := {}
  bookRefused : BookRefused := {}

/-- What a derivation needs that the archive does not carry. -/
structure EventInput where
  magic : ℕ
  persistSnapshotLevels : Bool := false
deriving DecidableEq, Repr

/-! ## State -/

/-- One snapshot cycle, while it is open: whose levels these are. -/
structure OpenCycle where
  instrumentId : ℕ
  upstreamTs : ℕ
  levels : ℕ := 0
  /-- Whether the cycle's end has been folded. -/
  ended : Bool := false
deriving DecidableEq, Repr

/-- The open cycles, keyed on the `snapshot_id` a level is attributed through. -/
abbrev OpenCycles := ExtTreeMap (Scoped ChannelInstance) OpenCycle

/-- The state one derivation hands to the next. -/
structure DerivationState where
  table : InstrumentTable := {}
  cycles : OpenCycles := ∅
  book : Book := {}
  /-- Where this derivation's datagram numbering has reached. -/
  datagrams : ℕ := 0
  /-- The book's cumulative refusals as at the end of the previous call. -/
  reported : BookRefused := {}

/-- What the fold carries from one message to the next. -/
structure Fold where
  table : InstrumentTable := {}
  cycles : OpenCycles := ∅
  book : Book := {}
  atDatagram : Option ℕ := none
  out : DerivedEvents := {}

/-! ## Attribution -/

def instrumentOfMarket : MessageBody → ℕ
  | .quote q => q.instrumentId
  | .trade t => t.instrumentId
  | .level l => l.instrumentId
  | .clear c => c.instrumentId

def StateBody.isLevel : StateBody → Bool
  | .snapshotLevel _ => true
  | _ => false

/-- The instrument a state message belongs to, opening and closing cycles as it goes. -/
def instrumentOfState (body : StateBody) (inst : ChannelInstance) (cycles : OpenCycles)
    (refused : Refused) : Option ℕ × OpenCycles × Refused :=
  match body with
  | .reset r => (some r.instrumentId, cycles, refused)
  | .snapshotBegin begin =>
      (some begin.instrumentId,
        cycles.insert ⟨inst, begin.snapshotId⟩ ⟨begin.instrumentId, begin.timestampNs, 0, false⟩,
        refused)
  | .snapshotLevel level =>
      let k : Scoped ChannelInstance := ⟨inst, level.snapshotId⟩
      match cycles[k]? with
      | none => (none, cycles,
          { refused with orphanSnapshotLevel := refused.orphanSnapshotLevel + 1 })
      | some cycle =>
          (some cycle.instrumentId,
            cycles.insert k { cycle with levels := (cycle.levels + 1) % 2 ^ 32 }, refused)
  | .snapshotEnd finish =>
      -- marked rather than removed: the end's row still reads the count of levels
      let k : Scoped ChannelInstance := ⟨inst, finish.snapshotId⟩
      let cycles := match cycles[k]? with
        | none => cycles
        | some cycle => cycles.insert k { cycle with ended := true }
      (some finish.instrumentId, cycles, refused)

/-! ## Event rows -/

def marketRow (p : WireProvenance) (s : Statement) (body : MessageBody) : Event where
  provenance := p
  statement := s
  body := .market body
  upstreamTs := match body with
    | .quote q => some q.sourceTimestampNs
    | .trade t => some t.sourceTimestampNs
    | .level l => some l.timestampNs
    | .clear c => some c.timestampNs

/-- A level carries neither an instrument nor a timestamp: it inherits both from the begin its
`snapshot_id` ties it to. -/
def stateRow (p : WireProvenance) (s : Statement) (body : StateBody) (cycles : OpenCycles) :
    Event :=
  match body with
  | .reset r => { provenance := p, statement := s, body := .state body
                  upstreamTs := some r.timestampNs }
  | .snapshotBegin begin => { provenance := p, statement := s, body := .state body
                              upstreamTs := some begin.timestampNs }
  | .snapshotLevel level =>
      let cycle := cycles[(⟨p.inst, level.snapshotId⟩ : Scoped ChannelInstance)]?
      { provenance := p, statement := s, body := .state body
        upstreamTs := cycle.map (·.upstreamTs)
        levelIndex := cycle.bind fun c ↦ if c.levels < 2 ^ 16 then some c.levels else none }
  | .snapshotEnd finish =>
      let cycle := cycles[(⟨p.inst, finish.snapshotId⟩ : Scoped ChannelInstance)]?
      { provenance := p, statement := s, body := .state body, upstreamTs := none
        levelsSeen := cycle.map (·.levels) }

/-- The two columns only the book can fill, stamped on after the message reached it. -/
def afterTheBook (row : Event) (book : Book) (channel : Channel) (instrumentId : ℕ) : Event :=
  let (levels, status) := book.depthAndStatus channel instrumentId
  { row with bookLevelsAfter := levels, statusAfter := status }

/-! ## The loop -/

namespace Book

/-- A market message reaches the book.  A trade moves none. -/
def market (b : Book) (channel : Channel) : MessageBody → Book × Option Change
  | .quote q => b.quote channel q
  | .trade _ => (b, none)
  | .level l => b.level channel l
  | .clear c => b.clear channel c

/-- A state message reaches the book. -/
def state (b : Book) (channel : Channel) : StateBody → Book × Option Change
  | .reset r => b.reset channel r
  | .snapshotBegin begin => (b.snapshotBegin channel begin, none)
  | .snapshotLevel level => (b.snapshotLevel channel level, none)
  | .snapshotEnd finish => b.snapshotEnd channel finish

end Book

namespace DerivedEvents

def pushEvent (out : DerivedEvents) (row : Event) : DerivedEvents :=
  { out with event := out.event ++ [row] }

def pushRows (out : DerivedEvents) (rows : List BookTop) : DerivedEvents :=
  { out with bookTop := out.bookTop ++ rows }

/-- A message for an instrument with no definition in force is refused. -/
def unresolved (out : DerivedEvents) : DerivedEvents :=
  { out with refused := { out.refused with
      unresolvedInstrument := out.refused.unresolvedInstrument + 1 } }

end DerivedEvents

namespace Fold

variable (f : Fold) (p : WireProvenance)

/-- The rows of the books a gap made unknowable.  One whose instrument does not resolve at that
instant has none. -/
def gapRows (changed : List (ℕ × Change)) : List BookTop :=
  changed.filterMap fun (id, change) ↦
    (f.table.resolve (Channel.of p.inst) id p.recvTsNs).map fun s ↦ bookRow p s change

/-- Once per datagram, not once per message: a gap belongs to the channel instance's sequence
space. -/
def observe : Fold :=
  if f.atDatagram = some p.datagramIndex then f
  else
    let (book, changed) := f.book.observeSequence p.inst p.role p.sequenceNumber
    { f with atDatagram := some p.datagramIndex, book := book
             out := f.out.pushRows (f.gapRows p changed) }

def reference (body : ReferenceBody) : Fold :=
  let a : At := ⟨p.inst, p.sequenceNumber, p.resetCount, p.recvTsNs⟩
  match body with
  | .definition d =>
      let (table, observed) := f.table.observeDefinition d a
      let refused := if observed = .outOfOrder then
        { f.out.refused with outOfOrderDefinition := f.out.refused.outOfOrderDefinition + 1 }
        else f.out.refused
      { f with table := table, out := { f.out with refused := refused } }
  | .manifest summary => { f with table := f.table.observeManifest summary a }

def market (body : MessageBody) : Fold :=
  let channel := Channel.of p.inst
  let id := instrumentOfMarket body
  match f.table.resolve channel id p.recvTsNs with
  | none => { f with out := f.out.unresolved }
  | some s =>
      let (book, change) := f.book.market channel body
      let out := f.out.pushEvent (afterTheBook (marketRow p s body) book channel id)
      { f with book := book, out := out.pushRows (change.toList.map (bookRow p s)) }

/-- The book consumes every level; only whether it becomes a row is optional. -/
def state (persistSnapshotLevels : Bool) (body : StateBody) : Fold :=
  let channel := Channel.of p.inst
  let (instrument, cycles, refused) := instrumentOfState body p.inst f.cycles f.out.refused
  let f := { f with cycles := cycles, out := { f.out with refused := refused } }
  match instrument with
  | none => f
  | some id =>
      match f.table.resolve channel id p.recvTsNs with
      | none => { f with out := f.out.unresolved }
      | some s =>
          let (book, change) := f.book.state channel body
          let out := if !body.isLevel || persistSnapshotLevels then
            f.out.pushEvent (afterTheBook (stateRow p s body cycles) book channel id) else f.out
          { f with book := book, out := out.pushRows (change.toList.map (bookRow p s)) }

def message (input : EventInput) (f : Fold) : Decoded → Fold
  | .reference body p => f.reference p body
  | .market body p => f.market p body
  | .state body p => f.state p input.persistSnapshotLevels body

/-- The body of the loop. -/
def step (input : EventInput) (f : Fold) (decoded : Decoded) : Fold :=
  (f.observe decoded.provenance).message input decoded

end Fold

/-! ## A call -/

/-- The refusals one call is responsible for. -/
def refusedSince (total reported : BookRefused) : BookRefused where
  incompleteCycle := total.incompleteCycle - reported.incompleteCycle
  staleCycle := total.staleCycle - reported.staleCycle
  unclosedCycle := total.unclosedCycle - reported.unclosedCycle

def BookRefused.plus (a b : BookRefused) : BookRefused where
  incompleteCycle := a.incompleteCycle + b.incompleteCycle
  staleCycle := a.staleCycle + b.staleCycle
  unclosedCycle := a.unclosedCycle + b.unclosedCycle

/-- A message numbered from where the derivation has reached. -/
def Decoded.shift (base : ℕ) : Decoded → Decoded
  | .market body p => .market body { p with datagramIndex := p.datagramIndex + base }
  | .state body p => .state body { p with datagramIndex := p.datagramIndex + base }
  | .reference body p => .reference body { p with datagramIndex := p.datagramIndex + base }

/-- Walk one input into state that outlives it, and derive its rows. -/
def deriveEventsInto (state : DerivationState) (archive : List RecordedDatagram)
    (input : EventInput) : DerivationState × DerivedEvents :=
  let capture := WireCapture.absorb input.magic archive
  let start : Fold := { table := state.table, cycles := state.cycles, book := state.book }
  let f := run (Fold.step input) start (capture.ordered.map (Decoded.shift state.datagrams))
  ({ table := f.table
     cycles := f.cycles.filter fun _ cycle ↦ !cycle.ended
     book := f.book
     datagrams := state.datagrams + capture.datagrams
     reported := f.book.refused },
    { f.out with bookRefused := refusedSince f.book.refused state.reported })

/-- The derivation ended: close open cycles and report what they refused. -/
def DerivationState.closeObject (state : DerivationState) : DerivationState × BookRefused :=
  let book := state.book.closeObject
  ({ state with book := book, cycles := ∅, reported := book.refused },
    refusedSince book.refused state.reported)

/-- Walk one object and derive its market data rows. -/
def deriveEvents (archive : List RecordedDatagram) (input : EventInput) : DerivedEvents :=
  let (state, out) := deriveEventsInto {} archive input
  { out with bookRefused := out.bookRefused.plus state.closeObject.2 }

/-! ## The rows of an archive -/

/-- The fold over messages in the order of the archive. -/
def fold (input : EventInput) (ds : List Decoded) : Fold := run (Fold.step input) {} ds

theorem Decoded.shift_zero (d : Decoded) : d.shift 0 = d := by
  cases d <;> rfl

/-- What a derivation writes of an archive's tops is what the fold over its messages writes. -/
theorem deriveEvents_bookTop (archive : List RecordedDatagram) (input : EventInput) :
    (deriveEvents archive input).bookTop =
      (fold input (inOrder input.magic 0 archive)).out.bookTop := by
  have hshift : (WireCapture.absorb input.magic archive).ordered.map (Decoded.shift 0) =
      inOrder input.magic 0 archive := by
    rw [WireCapture.ordered_absorb]
    exact List.map_id'' Decoded.shift_zero _
  simp only [deriveEvents, deriveEventsInto, fold]
  rw [hshift]

end EdgeMulticast.Recorder
