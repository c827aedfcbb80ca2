import EdgeMulticast.Relower.Refdata
import EdgeMulticast.Venue.Adapter
import EdgeMulticast.Venue.Observers

/-!
# Lowering an archive again

`relower.rs` (`dz-recorder-relower`): the adapter is run over the archived payloads, its offers are
resolved against the reference data of the archive, and what it emits is lowered as the publisher
lowers it.

A payload archive is the payloads that it yields and why it fails behind them, if it does.  Every
event here has a lowering, so the count of those without one is left out.
-/

namespace EdgeMulticast.Relower

open Std (ExtTreeMap)
open EdgeMulticast.Lib
open EdgeMulticast.Lowering
open EdgeMulticast.Refdata (InstrumentSpec symbolField)
open EdgeMulticast.Uds (Event)
open EdgeMulticast.Venue (Adapter Payload Poll SinkCall)

/-! ## Reference data -/

/-- The instrument as the lowering reads it.  The wire has no contract factor. -/
def ArchivedInstrument.asInstrument (archived : ArchivedInstrument) : Instrument where
  instrumentId := archived.instrumentId
  priceExponent := archived.priceExponent
  qtyExponent := archived.qtyExponent
  quotedPerContract := none

/-- The Symbol field that an offer would be published under. -/
def offeredSymbol (spec : InstrumentSpec) : SymbolField := (symbolField spec.symbol).1

/-! ## The admitted set -/

/-- The listing sink: what has been admitted, resolved against the archive. -/
structure Admissions where
  table : InstrumentTable := .new
  handles : ExtTreeMap SymbolField InstrumentRef := ∅
  /-- How often each symbol was offered that the archive has no definition for. -/
  missing : ExtTreeMap (List Byte) ℕ := ∅
  caveats : List Caveat := []
  /-- How many payloads were replayed before this poll. -/
  atPayload : ℕ := 0

namespace Admissions

/-- Record a caveat unless the identical one is already held. -/
def pushOnce (a : Admissions) (caveat : Caveat) : Admissions :=
  if caveat ∈ a.caveats then a else { a with caveats := a.caveats ++ [caveat] }

/-- Decline a symbol that the capture did not define, and record it. -/
def decline (a : Admissions) (symbol : List Byte) : Admissions :=
  { a with missing := a.missing.insert symbol ((a.missing[symbol]?).getD 0 + 1) }

/-- Admit a symbol with the Instrument ID and the exponents that the capture states. -/
def admitArchived (a : Admissions) (field : SymbolField) (archived : ArchivedInstrument) :
    InstrumentRef × Admissions :=
  let admitted := a.table.admitInstrument archived.asInstrument
  let a := { a with table := admitted.2, handles := a.handles.insert field admitted.1 }
  (admitted.1, if 0 < a.atPayload then
      a.pushOnce (.instrumentAdmittedInsideWindow archived.instrumentId a.atPayload)
    else a)

/-- An offer of a symbol that is not admitted. -/
def listNew (refdata : ArchivedRefdata) (a : Admissions) (spec : InstrumentSpec) :
    Option InstrumentRef × Admissions :=
  match refdata.bySymbol[offeredSymbol spec]? with
  | none => (none, a.decline spec.symbol)
  | some archived =>
      let admission := a.admitArchived (offeredSymbol spec) archived
      (some admission.1, admission.2)

/-- Resolve an offer.  A symbol that is still admitted keeps its handle. -/
def listOn (refdata : ArchivedRefdata) (a : Admissions) (spec : InstrumentSpec) :
    Option InstrumentRef × Admissions :=
  match a.handles[offeredSymbol spec]? with
  | some handle =>
      if (a.table.get handle).isOk then (some handle, a) else a.listNew refdata spec
  | none => a.listNew refdata spec

def delist (a : Admissions) (h : InstrumentRef) : Admissions :=
  { a with table := a.table.withdraw h }

/-- A poll, answered from the archive.  The shard is dropped, and so is a strike. -/
def polled {α : Type} (refdata : ArchivedRefdata) : Poll α → Admissions → α × Admissions
  | .done adapter, a => (adapter, a)
  | .listOn _ spec next, a =>
      polled refdata (next (a.listOn refdata spec).1) (a.listOn refdata spec).2
  | .delist h next, a => polled refdata next (a.delist h)
  | .strike _ _ next, a => polled refdata next a

def missingDefinitions (a : Admissions) : List MissingDefinition :=
  a.missing.toList.map fun (symbol, offers) ↦ ⟨symbol, offers⟩

end Admissions

/-! ## Events -/

/-- Where a message of the re-lowering came from. -/
structure ReLoweredProvenance where
  payloadIndex : ℕ
  eventIndex : ℕ
  recvTsNs : ℕ
deriving DecidableEq, Repr

/-- What an event is lowered to, as the comparison reads it. -/
def MessageBody.ofMessage : Venue.Message → MessageBody
  | .quote m => .quote m
  | .trade m => .trade m
  | .level m => .level m
  | .clear m => .clear m

/-- The message type that an event would have become. -/
def eventType : Event → String
  | .quote .. => "Quote"
  | .trade .. => "Trade"
  | .level .. => "LevelUpdate"
  | .clear .. => "BookClear"

/-- The reason token that a refusal is counted under. -/
def refusalReason : LoweringError → String
  | .unknownInstrument => "unknown_instrument"
  | .inexactContract _ => "inexact_contract"
  | .scale _ (.tooPrecise _) => "too_precise"
  | .scale _ .malformed => "malformed"
  | .scale _ .overflow => "overflow"

/-- The wire field that a refusal is about, where there is one. -/
def refusalField : LoweringError → Option String
  | .unknownInstrument => none
  | .inexactContract field => some field
  | .scale field _ => some field

/-- The event sink: lower, and keep. -/
structure Collector where
  depth : DepthLowering
  payloadIndex : ℕ
  recvTsNs : ℕ
  eventIndex : ℕ := 0
  out : ReLowered ReLoweredProvenance
  upstreamMessages : ℕ
  events : ℕ

namespace Collector

def keep (c : Collector) (m : Venue.Message) : Collector :=
  { c with out := { c.out with messages := c.out.messages ++
      [⟨.ofMessage m, ⟨c.payloadIndex, c.eventIndex, c.recvTsNs⟩⟩] } }

def refuse (c : Collector) (table : InstrumentTable) (e : Event) (error : LoweringError) :
    Collector :=
  { c with out := { c.out with refusals := c.out.refusals ++ [{
      payloadIndex := c.payloadIndex
      eventIndex := c.eventIndex
      messageType := eventType e
      instrumentId := (table.get (Venue.handleOf e)).toOption.map Instrument.instrumentId
      reason := refusalReason error
      field := refusalField error }] } }

/-- One lowering drives the whole window: it carries the Per-Instrument Seq. -/
def event (table : InstrumentTable) (c : Collector) (e : Event) : Collector :=
  let lowered := Venue.lower c.depth table e
  let c := { c with depth := lowered.2, events := c.events + 1 }
  let c := match lowered.1 with
    | .ok m => c.keep m
    | .error error => c.refuse table e error
  { c with eventIndex := c.eventIndex + 1 }

def tell (table : InstrumentTable) (c : Collector) : SinkCall → Collector
  | .upstreamMessage => { c with upstreamMessages := c.upstreamMessages + 1 }
  | .event e => c.event table e
  | _ => c

end Collector

/-! ## The loop -/

/-- The archived payloads, and why no more of them can be read if that is so. -/
structure PayloadArchive (ε : Type) where
  payloads : List Payload
  failure : Option ε := none

/-- The adapter, the two sinks it writes into, and what they made of it. -/
structure ReLowering (α : Type) where
  adapter : α
  admissions : Admissions := {}
  depth : DepthLowering
  out : ReLowered ReLoweredProvenance := { messages := [] }
  payloads : ℕ := 0
  upstreamMessages : ℕ := 0
  events : ℕ := 0

namespace ReLowering

variable {α : Type} (A : Adapter α) (refdata : ArchivedRefdata)

/-- Poll the adapter's listings. -/
def poll (s : ReLowering α) : ReLowering α :=
  let polled := ({ s.admissions with atPayload := s.payloads } : Admissions).polled refdata
    (A.pollListings s.adapter)
  { s with adapter := polled.1, admissions := polled.2 }

/-- Run the adapter over a payload, and lower what it emits. -/
def payload (s : ReLowering α) (p : Payload) : ReLowering α :=
  let mapped := A.onPayload s.adapter p
  let c := mapped.1.foldl (Collector.tell s.admissions.table)
    { depth := s.depth, payloadIndex := s.payloads, recvTsNs := p.recvTsNs, out := s.out,
      upstreamMessages := s.upstreamMessages, events := s.events }
  { s with
    adapter := mapped.2.2
    depth := c.depth
    out := { c.out with parseFailures := c.out.parseFailures ++
      (mapped.2.1.map fun e ↦ ⟨s.payloads, e.asStr, e.text⟩).toList }
    payloads := s.payloads + 1
    upstreamMessages := c.upstreamMessages
    events := c.events }

/-- One payload, and the poll behind it. -/
def step (s : ReLowering α) (p : Payload) : ReLowering α := (s.payload A p).poll A refdata

/-- What is reported. -/
def finish (s : ReLowering α) : ReLowered ReLoweredProvenance :=
  { s.out with
    missingDefinitions := s.admissions.missingDefinitions
    caveats := s.admissions.caveats }

/-- The replay of a window: a poll, and every payload. -/
def replay (sourceId : SourceId) (adapter : α) (payloads : List Payload) : ReLowering α :=
  run (step A refdata) (poll A refdata { adapter, depth := { sourceId } }) payloads

end ReLowering

/-- Replay an archive of payloads through an adapter, and lower what it emits.  An archive that
fails before it is exhausted is not compared. -/
def relower {α ε : Type} (A : Adapter α) (refdata : ArchivedRefdata) (sourceId : SourceId)
    (adapter : α) (archive : PayloadArchive ε) : Except ε (ReLowered ReLoweredProvenance) :=
  match archive.failure with
  | some e => .error e
  | none => .ok (ReLowering.replay A refdata sourceId adapter archive.payloads).finish

end EdgeMulticast.Relower
