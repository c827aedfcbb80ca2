import EdgeMulticast.Refdata.Agreement
import EdgeMulticast.Relower.Relower

/-!
# An honest publisher

A publisher runs the same adapter over the same payloads: its listings are polled before the first
of them and after each, its offers are answered by the registry that it opened, and what the adapter
emits is lowered with the registry's table.

The publisher mints a handle for each recall key, the re-lowering for each Symbol.  While the
reference data of the archive states what the publisher lowers by, the two tables are one
(`Alike`), so the adapters are answered alike and the messages and the refusals are the same.

The offers are kept beside the registry, which the source does not do.
-/

namespace EdgeMulticast.Relower

open Std (ExtTreeMap)
open EdgeMulticast.Lib
open EdgeMulticast.Lowering
open EdgeMulticast.Refdata (InstrumentSpec RecallKey Registry RegistryCall RegistryConfig Store Strike
  symbolField)
open EdgeMulticast.Uds (Event)
open EdgeMulticast.Venue (Adapter Payload Poll SinkCall)

/-! ## The publisher -/

/-- An offer, and the registry that it met. -/
structure Offer where
  registry : Registry
  shard : String
  spec : InstrumentSpec
  unixNs : ℕ

namespace Offer

variable (o : Offer)

def result : Except Refdata.Refusal InstrumentRef × Registry :=
  o.registry.offer o.shard o.spec o.unixNs

/-- What the publisher lowers the offered instrument by, if the offer is taken. -/
def answer : Option (Except LoweringError Instrument) :=
  o.result.1.toOption.map o.result.2.instruments.get

def symbol : SymbolField := offeredSymbol o.spec

/-- What the publisher recalls the instrument by. -/
def key : Option RecallKey := (o.registry.recallKey o.spec).toOption

end Offer

/-- A registry, how often its clock was read, and the offers made to it. -/
structure Desk where
  registry : Registry
  readings : ℕ := 0
  offers : List Offer := []

namespace Desk

variable (clock : ℕ → ℕ)

def listOn (d : Desk) (shard : String) (spec : InstrumentSpec) : Option InstrumentRef × Desk :=
  let o : Offer := ⟨d.registry, shard, spec, clock d.readings⟩
  (o.result.1.toOption, ⟨o.result.2, d.readings + 1, d.offers ++ [o]⟩)

def delist (d : Desk) (h : InstrumentRef) : Desk :=
  { d with registry := d.registry.withdraw h (clock d.readings), readings := d.readings + 1 }

def strike (d : Desk) (h : InstrumentRef) (stated : Strike) : Desk :=
  { d with registry := (d.registry.stateStrike h stated).2 }

/-- A poll, answered by the registry. -/
def answered {α : Type} : Poll α → Desk → α × Desk
  | .done adapter, d => (adapter, d)
  | .listOn shard spec next, d =>
      answered (next (d.listOn clock shard spec).1) (d.listOn clock shard spec).2
  | .delist h next, d => answered next (d.delist clock h)
  | .strike h stated next, d => answered next (d.strike h stated)

end Desk

/-- What a process does with its registry beside the polls. -/
inductive Upkeep where
  | definitionTick (shard : String) (monotonicNs : ℕ)
  | strikeChanges (shard : String)
  | seedingComplete
  | beginShutdown

def Upkeep.call : Upkeep → RegistryCall
  | definitionTick shard monotonicNs => .definitionTick shard monotonicNs
  | strikeChanges shard => .strikeChanges shard
  | seedingComplete => .seedingComplete
  | beginShutdown => .beginShutdown

/-- An event that the publisher refused to lower. -/
structure Refused where
  payloadIndex : ℕ
  eventIndex : ℕ
  event : Event
  error : LoweringError

/-- The lowering of one payload's events, so far. -/
structure Emission where
  depth : DepthLowering
  eventIndex : ℕ := 0
  messages : List Venue.Message
  refused : List Refused

namespace Emission

variable (table : InstrumentTable) (payloadIndex : ℕ)

def event (s : Emission) (e : Event) : Emission :=
  let lowered := Venue.lower s.depth table e
  { depth := lowered.2
    eventIndex := s.eventIndex + 1
    messages := s.messages ++ lowered.1.toOption.toList
    refused := match lowered.1 with
      | .ok _ => s.refused
      | .error error => s.refused ++ [⟨payloadIndex, s.eventIndex, e, error⟩] }

def tell (s : Emission) : SinkCall → Emission
  | .event e => s.event table payloadIndex e
  | _ => s

end Emission

/-- What a publisher is made of. -/
structure Publisher (α : Type) where
  adapter : Adapter α
  clock : ℕ → ℕ
  /-- What the process does before the poll behind so many payloads. -/
  upkeep : ℕ → List Upkeep

/-- A publisher within an era: what it has lowered, and what it has refused to lower. -/
structure Publishing (α : Type) where
  adapter : α
  desk : Desk
  depth : DepthLowering
  messages : List Venue.Message := []
  refused : List Refused := []
  payloads : ℕ := 0

namespace Publisher

variable {α : Type} (P : Publisher α)

/-- The chores of the process, and a poll of the adapter's listings. -/
def poll (s : Publishing α) : Publishing α :=
  let registry := run Registry.call s.desk.registry ((P.upkeep s.payloads).map Upkeep.call)
  let polled := ({ s.desk with registry := { registry with polling := true } } : Desk).answered P.clock
    (P.adapter.pollListings s.adapter)
  let registry := { polled.2.registry with
    toPublication := polled.2.registry.toPublication.endPoll }
  { s with adapter := polled.1, desk := { polled.2 with registry } }

/-- Run the adapter over a payload, and lower what it emits. -/
def payload (s : Publishing α) (p : Payload) : Publishing α :=
  let mapped := P.adapter.onPayload s.adapter p
  let emitted := mapped.1.foldl (Emission.tell s.desk.registry.instruments s.payloads)
    { depth := s.depth, messages := s.messages, refused := s.refused }
  { s with
    adapter := mapped.2.2
    depth := emitted.depth
    messages := emitted.messages
    refused := emitted.refused
    payloads := s.payloads + 1 }

def step (s : Publishing α) (p : Payload) : Publishing α := P.poll (P.payload s p)

/-- An era: a poll, and every payload. -/
def publish (registry : Registry) (adapter : α) (payloads : List Payload) : Publishing α :=
  run P.step
    (P.poll { adapter, desk := { registry }, depth := { sourceId := registry.config.sourceId } })
    payloads

end Publisher

/-! ## Reference data -/

/-- The archive states every Instrument ID once. -/
def ArchivedRefdata.IdsOnce (refdata : ArchivedRefdata) : Prop :=
  ∀ (symbol symbol' : SymbolField) (archived archived' : ArchivedInstrument),
    refdata.bySymbol[symbol]? = some archived → refdata.bySymbol[symbol']? = some archived' →
    archived.instrumentId = archived'.instrumentId → symbol = symbol'

/-- The publisher recalls each Symbol by one key. -/
def SymbolsOnce (offers : List Offer) : Prop :=
  ∀ o ∈ offers, ∀ o' ∈ offers, o.symbol = o'.symbol → o.key = o'.key

/-- What the publisher lowers an offered instrument by is what the archive states of its Symbol, and
an offer that is not taken is of a Symbol that the archive does not state. -/
def Offer.Stated (refdata : ArchivedRefdata) (o : Offer) : Prop :=
  o.answer = (refdata.bySymbol[o.symbol]?).map fun archived ↦ .ok archived.asInstrument

/-! ## Two tables are one -/

/-- A registry and the admitted set of the archive hold the same instruments under the same
handles. -/
structure Alike (refdata : ArchivedRefdata) (d : Desk) (a : Admissions) : Prop where
  kept : d.registry.Kept
  room : d.registry.admissions ≤ 2 ^ 32
  table : a.table = d.registry.instruments
  minted : ∀ (symbol : SymbolField) (h : InstrumentRef), a.handles[symbol]? = some h →
    h.index.toNat < a.table.slots.length
  named : ∀ h inst, a.table.get h = .ok inst → ∃ symbol : SymbolField, a.handles[symbol]? = some h
  /-- A handle of a symbol is of the instrument that the archive states, and as long as it is held
  the registry has it under the key that the symbol was offered with. -/
  stated : ∀ (symbol : SymbolField) (h : InstrumentRef), a.handles[symbol]? = some h →
    ∃ archived, refdata.bySymbol[symbol]? = some archived ∧
      ∀ inst, a.table.get h = .ok inst → inst = archived.asInstrument ∧
        ∃ o ∈ d.offers, o.symbol = symbol ∧
          ∃ key, o.key = some key ∧ d.registry.handles[key]? = some h

namespace Alike

variable {refdata : ArchivedRefdata} {d : Desk} {a : Admissions}

/-- The symbol whose instrument a handle resolves to has that handle. -/
theorem handle_of_get (h : Alike refdata d a) (hids : refdata.IdsOnce) {symbol : SymbolField}
    {archived : ArchivedInstrument} (harchived : refdata.bySymbol[symbol]? = some archived)
    {handle : InstrumentRef} (hget : a.table.get handle = .ok archived.asInstrument) :
    a.handles[symbol]? = some handle := by
  obtain ⟨symbol', hsymbol'⟩ := h.named handle _ hget
  obtain ⟨archived', harchived', hinst⟩ := h.stated symbol' handle hsymbol'
  have hid : archived.instrumentId = archived'.instrumentId :=
    congrArg Instrument.instrumentId (hinst _ hget).1
  rwa [hids symbol symbol' archived archived' harchived harchived' hid]

/-- What a call leaves as it is. -/
theorem congr (h : Alike refdata d a) {d' : Desk} {a' : Admissions} (hkept : d'.registry.Kept)
    (hhandles : d'.registry.handles = d.registry.handles)
    (hinstruments : d'.registry.instruments = d.registry.instruments)
    (hoffers : d.offers <+: d'.offers) (htable : a'.table = a.table)
    (hheld : a'.handles = a.handles) : Alike refdata d' a' where
  kept := hkept
  room := by
    rw [Registry.admissions, hinstruments]
    exact h.room
  table := htable.trans (h.table.trans hinstruments.symm)
  minted := htable ▸ hheld ▸ h.minted
  named := htable ▸ hheld ▸ h.named
  stated symbol handle hsymbol := by
    rw [hheld] at hsymbol
    obtain ⟨archived, harchived, hinst⟩ := h.stated symbol handle hsymbol
    refine ⟨archived, harchived, fun inst hget ↦ ?_⟩
    rw [htable] at hget
    obtain ⟨heq, o, ho, hrest⟩ := hinst inst hget
    exact ⟨heq, o, hoffers.subset ho, hhandles ▸ hrest⟩

end Alike

/-! ### What leaves the listings as they are -/

/-- What a registry holds, and under which keys, is as it was. -/
def SameListings (r r' : Registry) : Prop :=
  r'.handles = r.handles ∧ r'.instruments = r.instruments

theorem sameListings_reoffer (r : Registry) (handle : InstrumentRef) (shard : ℕ)
    (spec : InstrumentSpec) : SameListings r { r with
      toPublication := r.toPublication.reoffer r.config.sourceId handle shard spec } := by
  rcases r.toPublication.reoffer_cases r.config.sourceId handle shard spec with
    heq | ⟨entry, definition, -, -, -, heq⟩
  · rw [heq]
    exact ⟨rfl, rfl⟩
  · rw [heq, Refdata.Publication.setChanged_eq]
    exact ⟨rfl, rfl⟩

theorem sameListings_strike (r : Registry) (h : InstrumentRef) (stated : Strike) :
    SameListings r (r.stateStrike h stated).2 := by
  change SameListings r { r with
    toPublication := (r.toPublication.stateStrike r.config.sourceId h stated).2 }
  rcases r.toPublication.stateStrike_cases r.config.sourceId h stated with
    heq | ⟨entry, -, ⟨strike, heq⟩ | ⟨current, fixingTimeNs, -, heq⟩⟩
  all_goals
    rw [heq]
    exact ⟨rfl, rfl⟩

theorem sameListings_upkeep (r : Registry) (c : Upkeep) : SameListings r (r.call c.call) := by
  cases c with
  | definitionTick shard monotonicNs =>
      change SameListings r (r.definitionTick shard monotonicNs).2
      rw [Registry.definitionTick]
      split
      · exact ⟨rfl, rfl⟩
      next index _ =>
          rw [SameListings]
          dsimp only
          rw [Refdata.Publication.definitionTick]
          split <;> exact ⟨rfl, rfl⟩
  | strikeChanges shard =>
      change SameListings r (r.strikeChanges shard).2
      rw [Registry.strikeChanges]
      split
      · exact ⟨rfl, rfl⟩
      next index _ =>
          rw [SameListings]
          dsimp only
          rw [Refdata.Publication.strikeChanges]
          split <;> exact ⟨rfl, rfl⟩
  | seedingComplete => exact ⟨rfl, rfl⟩
  | beginShutdown => exact ⟨rfl, rfl⟩

namespace Alike

variable {refdata : ArchivedRefdata} {d : Desk} {a : Admissions}

/-- A registry with the same listings, whose views agree. -/
theorem same (h : Alike refdata d a) {d' : Desk} (hkept : d'.registry.Kept)
    (hsame : SameListings d.registry d'.registry) (hoffers : d.offers <+: d'.offers) :
    Alike refdata d' a :=
  h.congr hkept hsame.1 hsame.2 hoffers rfl rfl

theorem strike (h : Alike refdata d a) (handle : InstrumentRef) (stated : Strike) :
    Alike refdata (d.strike handle stated) a := by
  have hsame := sameListings_strike d.registry handle stated
  refine h.same (Registry.kept_sinkCall h.kept (.strike handle stated) ?_) hsame
    (List.prefix_refl _)
  change (d.registry.stateStrike handle stated).2.instruments.slots.length ≤ 2 ^ 32
  rw [hsame.2]
  exact h.room

theorem upkeep (h : Alike refdata d a) (c : Upkeep) :
    Alike refdata { d with registry := d.registry.call c.call } a := by
  have hsame := sameListings_upkeep d.registry c
  refine h.same (Registry.kept_call h.kept c.call ?_) hsame (List.prefix_refl _)
  rw [Registry.admissions, hsame.2]
  exact h.room

theorem chores (h : Alike refdata d a) (chores : List Upkeep) :
    Alike refdata { d with registry := run Registry.call d.registry (chores.map Upkeep.call) } a := by
  induction chores generalizing d with
  | nil => exact h
  | cons c chores ih => exact ih (h.upkeep c)

/-! ### Delisting -/

theorem delist (h : Alike refdata d a) (clock : ℕ → ℕ) (handle : InstrumentRef) :
    Alike refdata (d.delist clock handle) (a.delist handle) := by
  have hconsistent := h.kept.consistent
  have hpublication := Registry.withdraw_publication d.registry handle (clock d.readings)
  have hlength : (d.delist clock handle).registry.admissions = d.registry.admissions := by
    change (d.registry.withdraw handle (clock d.readings)).instruments.slots.length = _
    rw [hpublication]
    exact Refdata.Publication.length_table_withdraw handle
  have hkept : (d.delist clock handle).registry.Kept :=
    Registry.kept_sinkCall h.kept (.delist handle (clock d.readings)) (hlength.trans_le h.room)
  have hinstruments : (d.delist clock handle).registry.instruments =
      d.registry.instruments.withdraw handle := by
    change (d.registry.withdraw handle (clock d.readings)).instruments = _
    rw [hpublication, Refdata.Publication.withdraw]
    split
    next hslot =>
        refine (InstrumentTable.withdraw_of_slot ?_).symm
        rw [← Option.not_isSome_iff_eq_none, isSome_slotAt, hconsistent.table, ← isSome_slotAt,
          Option.not_isSome_iff_eq_none]
        exact hslot
    next => exact Refdata.Publication.instruments_setChanged _ _
  -- the key of a handle that is still held is not the one that is erased
  have hhandles {key : RecallKey} {other : InstrumentRef} (hne : other ≠ handle)
      (hother : d.registry.handles[key]? = some other) :
      (d.delist clock handle).registry.handles[key]? = some other := by
    change (d.registry.withdraw handle (clock d.readings)).handles[key]? = _
    rw [hpublication, Refdata.Publication.withdraw]
    split
    next => exact hother
    next entry hslot =>
        obtain ⟨key', hkey'⟩ := hconsistent.key_of_slot hslot
        rw [Refdata.Publication.setChanged_eq]
        change (d.registry.handles.erase (d.registry.keyAt handle))[key]? = _
        have hat : d.registry.keyAt handle = key' := by
          rw [Refdata.Publication.keyAt, hkey']
          rfl
        rw [hat, getElem?_erase_ne, hother]
        rintro rfl
        exact hne (Option.some.inj (hother.symm.trans (hconsistent.handle_of_slot hkey')))
  refine ⟨hkept, hlength.trans_le h.room, ?_, ?_, ?_, ?_⟩
  · rw [hinstruments, ← h.table]
    rfl
  · intro symbol held hsymbol
    exact (h.minted symbol held hsymbol).trans_eq (InstrumentTable.length_withdraw _ _).symm
  · intro held inst hget
    rw [Admissions.delist, InstrumentTable.get_withdraw] at hget
    split at hget
    next => cases hget
    next => exact h.named held inst hget
  · intro symbol held hsymbol
    obtain ⟨archived, harchived, hinst⟩ := h.stated symbol held hsymbol
    refine ⟨archived, harchived, fun inst hget ↦ ?_⟩
    rw [Admissions.delist, InstrumentTable.get_withdraw] at hget
    split at hget
    next => cases hget
    next hne =>
        obtain ⟨heq, o, ho, hsame, key, hkey, hheld⟩ := hinst inst hget
        exact ⟨heq, o, ho, hsame, key, hkey, hhandles hne hheld⟩

/-! ### Offers -/

/-- An offer that both decline. -/
theorem declined (h : Alike refdata d a) {d' : Desk} (hkept : d'.registry.Kept)
    (hsame : SameListings d.registry d'.registry) (hoffers : d.offers <+: d'.offers)
    {spec : InstrumentSpec} (hnone : refdata.bySymbol[offeredSymbol spec]? = none) :
    (a.listOn refdata spec).1 = none ∧ Alike refdata d' (a.listOn refdata spec).2 := by
  have hhandle : a.handles[offeredSymbol spec]? = none := by
    refine Option.eq_none_iff_forall_ne_some.mpr fun handle hhandle ↦ ?_
    obtain ⟨archived, harchived, -⟩ := h.stated _ handle hhandle
    cases hnone.symm.trans harchived
  rw [Admissions.listOn, hhandle, Admissions.listNew, hnone]
  exact ⟨rfl, h.congr hkept hsame.1 hsame.2 hoffers rfl rfl⟩

/-- An offer of a symbol that both have admitted. -/
theorem repeated {spec : InstrumentSpec} {handle : InstrumentRef} {inst : Instrument}
    (hhandle : a.handles[offeredSymbol spec]? = some handle)
    (hget : a.table.get handle = .ok inst) : a.listOn refdata spec = (some handle, a) := by
  rw [Admissions.listOn, hhandle]
  dsimp only
  rw [hget]
  rfl

/-- An offer of a symbol that neither has admitted. -/
theorem fresh {spec : InstrumentSpec} {archived : ArchivedInstrument}
    (hfresh : ∀ handle, a.handles[offeredSymbol spec]? = some handle →
      (a.table.get handle).isOk = false)
    (harchived : refdata.bySymbol[offeredSymbol spec]? = some archived) :
    let listed := a.listOn refdata spec
    listed.1 = some (.fromAdmission a.table.slots.length) ∧
      listed.2.table = (a.table.admitInstrument archived.asInstrument).2 ∧
      listed.2.handles =
        a.handles.insert (offeredSymbol spec) (.fromAdmission a.table.slots.length) := by
  have hlist : a.listOn refdata spec = a.listNew refdata spec := by
    rw [Admissions.listOn]
    split
    next handle hhandle => rw [hfresh handle hhandle, if_neg Bool.false_ne_true]
    next => rfl
  rw [hlist, Admissions.listNew, harchived]
  dsimp only [Admissions.admitArchived, Admissions.pushOnce]
  refine ⟨rfl, ?_, ?_⟩ <;> split_ifs <;> rfl

/-- An offer that the registry admits.  Its handle names the next slot of the table: behind the last
handle it would name an instrument that is held, under a symbol that has it already. -/
theorem admitted (h : Alike refdata d a) (hids : refdata.IdsOnce) {d' : Desk} {o : Offer}
    {key : RecallKey} {i : Instrument} {archived : ArchivedInstrument} {handle : InstrumentRef}
    (hhandle : handle = .fromAdmission d.registry.instruments.slots.length)
    (hkey : o.key = some key) (honce : ∀ o' ∈ d.offers, o'.symbol = o.symbol → o'.key = o.key)
    (hunpublished : d.registry.handles[key]? = none)
    (hkept : d'.registry.admissions ≤ 2 ^ 32 → d'.registry.Kept)
    (hoffers : d'.offers = d.offers ++ [o])
    (hinstruments : d'.registry.instruments = (d.registry.instruments.admitInstrument i).2)
    (hhandles : d'.registry.handles = d.registry.handles.insert key handle)
    (harchived : refdata.bySymbol[o.symbol]? = some archived)
    (hget : d'.registry.instruments.get handle = .ok archived.asInstrument) :
    (a.listOn refdata o.spec).1 = some handle ∧ Alike refdata d' (a.listOn refdata o.spec).2 := by
  have hfresh (held : InstrumentRef) (hheld : a.handles[o.symbol]? = some held) :
      (a.table.get held).isOk = false := by
    cases hfound : a.table.get held with
    | error e => rfl
    | ok found =>
        obtain ⟨_, _, hstated⟩ := h.stated o.symbol held hheld
        obtain ⟨-, o', ho', hsymbol, key', hkey', hpublished⟩ := hstated found hfound
        obtain rfl := Option.some.inj ((hkey'.symm.trans (honce o' ho' hsymbol)).trans hkey)
        cases hpublished.symm.trans hunpublished
  rw [hinstruments, ← h.table, InstrumentTable.get_admitInstrument] at hget
  have hroom : a.table.slots.length < 2 ^ 32 := by
    refine Nat.lt_of_le_of_ne (h.table ▸ h.room) fun hfull ↦ ?_
    have hzero : handle.index.toNat = 0 := by
      rw [hhandle, ← h.table, hfull]
      rfl
    rw [hzero, if_neg (by rw [hfull]; exact Nat.zero_ne_add_one _)] at hget
    have hlive := hfresh handle (h.handle_of_get hids harchived hget)
    rw [hget] at hlive
    cases hlive
  have hindex : handle.index.toNat = a.table.slots.length := by
    rw [hhandle, ← h.table]
    exact InstrumentRef.index_fromAdmission hroom
  rw [if_pos hindex] at hget
  obtain rfl := Except.ok.inj hget
  obtain ⟨hanswer, htable, hheld⟩ := fresh hfresh harchived
  rw [h.table, ← hhandle] at hanswer hheld
  have hadmissions : d'.registry.admissions ≤ 2 ^ 32 := by
    rw [Registry.admissions, hinstruments, ← h.table]
    exact (List.length_append).trans_le hroom
  refine ⟨hanswer, hkept hadmissions, hadmissions, ?_, ?_, ?_, ?_⟩
  · rw [htable, hinstruments, h.table]
  · intro symbol held hsymbol
    rw [htable]
    refine Nat.lt_of_lt_of_eq ?_ List.length_append.symm
    rw [hheld, getElem?_insert_eq] at hsymbol
    split at hsymbol
    next =>
        obtain rfl := Option.some.inj hsymbol
        exact hindex.trans_lt (Nat.lt_succ_self _)
    next => exact (h.minted symbol held hsymbol).trans (Nat.lt_succ_self _)
  · intro held found hfound
    rw [htable, InstrumentTable.get_admitInstrument] at hfound
    split at hfound
    next heq =>
        obtain rfl : held = handle :=
          congrArg InstrumentRef.mk (UInt32.toNat_inj.mp (heq.trans hindex.symm))
        exact ⟨o.symbol, by rw [hheld]; exact ExtTreeMap.getElem?_insert_self⟩
    next =>
        obtain ⟨symbol, hsymbol⟩ := h.named held found hfound
        refine ⟨symbol, ?_⟩
        rw [hheld, getElem?_insert_ne, hsymbol]
        rintro rfl
        have hlive := hfresh held hsymbol
        rw [hfound] at hlive
        cases hlive
  · intro symbol held hsymbol
    rw [hheld, getElem?_insert_eq] at hsymbol
    split at hsymbol
    next heq =>
        obtain rfl := Option.some.inj hsymbol
        refine ⟨archived, heq ▸ harchived, fun found hfound ↦ ?_⟩
        rw [htable, InstrumentTable.get_admitInstrument, if_pos hindex] at hfound
        refine ⟨(Except.ok.inj hfound).symm, o, ?_, heq, key, hkey, ?_⟩
        · rw [hoffers]
          exact List.mem_append_right _ List.mem_cons_self
        · rw [hhandles]
          exact ExtTreeMap.getElem?_insert_self
    next hne =>
        obtain ⟨archived', harchived', hstated⟩ := h.stated symbol held hsymbol
        refine ⟨archived', harchived', fun found hfound ↦ ?_⟩
        have hlt := h.minted symbol held hsymbol
        rw [htable, InstrumentTable.get_admitInstrument, if_neg (Nat.ne_of_lt hlt)] at hfound
        obtain ⟨hsame, o', ho', hsymbol', key', hkey', hpublished⟩ := hstated found hfound
        refine ⟨hsame, o', ?_, hsymbol', key', hkey', ?_⟩
        · rw [hoffers]
          exact List.mem_append_left _ ho'
        · rw [hhandles, getElem?_insert_ne, hpublished]
          rintro rfl
          cases hpublished.symm.trans hunpublished

/-- **An offer**, answered by the registry and from the archive. -/
theorem listOn (h : Alike refdata d a) (hids : refdata.IdsOnce) (clock : ℕ → ℕ) (shard : String)
    (spec : InstrumentSpec) (honce : SymbolsOnce (d.listOn clock shard spec).2.offers)
    (hstated : ∀ o ∈ (d.listOn clock shard spec).2.offers, o.Stated refdata) :
    (a.listOn refdata spec).1 = (d.listOn clock shard spec).1 ∧
      Alike refdata (d.listOn clock shard spec).2 (a.listOn refdata spec).2 := by
  obtain ⟨o, ho⟩ : ∃ o : Offer, o = ⟨d.registry, shard, spec, clock d.readings⟩ := ⟨_, rfl⟩
  have hlist : d.listOn clock shard spec =
      (o.result.1.toOption, ⟨o.result.2, d.readings + 1, d.offers ++ [o]⟩) := by
    rw [ho]
    rfl
  have hregistry : o.registry = d.registry := by rw [ho]
  have hspec : o.spec = spec := by rw [ho]
  rw [hlist] at honce hstated ⊢
  dsimp only at honce hstated ⊢
  have hmem : o ∈ d.offers ++ [o] := List.mem_append_right _ List.mem_cons_self
  have hsymbols (o' : Offer) (ho' : o' ∈ d.offers) (heq : o'.symbol = o.symbol) : o'.key = o.key :=
    honce o' (List.mem_append_left _ ho') o hmem heq
  have hanswer := hstated o hmem
  have hprefix : d.offers <+: d.offers ++ [o] := List.prefix_append _ _
  have hkept (hroom : o.result.2.admissions ≤ 2 ^ 32) : o.result.2.Kept := by
    rw [ho] at hroom ⊢
    exact Registry.kept_sinkCall h.kept (.list shard spec (clock d.readings)) hroom
  have hoffer : Registry.OfferSpec o.registry o.shard o.spec o.unixNs o.result.1 o.result.2 :=
    Registry.offer_spec o.shard
  rw [Offer.Stated, Offer.answer] at hanswer
  rw [hregistry] at hoffer
  rw [← hspec]
  generalize o.result.1 = result at hoffer hanswer ⊢
  generalize o.result.2 = r' at hoffer hanswer hkept ⊢
  have hnone {refusal : Refdata.Refusal} (hrefused : result = .error refusal) :
      refdata.bySymbol[o.symbol]? = none := by
    rw [hrefused] at hanswer
    exact Option.map_eq_none_iff.mp hanswer.symm
  -- a registry that is not published to, whatever it wrote down
  have hunchanged {refusal : Refdata.Refusal} (hrefused : result = .error refusal)
      (hsame : Registry.Unpublished d.registry r') :
      (a.listOn refdata o.spec).1 = none ∧
        Alike refdata ⟨r', d.readings + 1, d.offers ++ [o]⟩ (a.listOn refdata o.spec).2 := by
    refine h.declined (hkept ?_) ⟨?_, ?_⟩ hprefix (hnone hrefused)
    · rw [Registry.admissions, hsame.1]
      exact h.room
    · rw [hsame.1]
    · rw [hsame.1]
  cases hoffer with
  | refused refusal => exact hunchanged rfl (.refl _)
  | reoffered index key handle _ recalls hpublished =>
      have hsame := sameListings_reoffer d.registry handle index o.spec
      have hreached : ({ d.registry with
          toPublication := d.registry.reoffer d.registry.config.sourceId handle index o.spec } :
            Registry).Kept := by
        refine hkept ?_
        rw [Registry.admissions, hsame.2]
        exact h.room
      obtain ⟨archived, harchived, hget⟩ := Option.map_eq_some_iff.mp hanswer.symm
      rw [hsame.2, ← h.table] at hget
      have hhandle := h.handle_of_get hids harchived hget.symm
      rw [repeated hhandle hget.symm]
      exact ⟨rfl, h.same hreached hsame hprefix⟩
  | offered index key result r' _ recalls hunpublished admits =>
      have hidentify := Registry.identify_unpublished (r := d.registry)
        (d.registry.resolveId key (symbolField o.spec.symbol).1) key (symbolField o.spec.symbol).1
      cases admits with
      | refused refusal => exact hunchanged rfl (.refl _)
      | unpersisted refusal r' _ failed =>
          rw [failed] at hidentify
          exact hunchanged rfl hidentify
      | admitted composed r' _ _ _ _ identified =>
          rw [identified] at hidentify
          have hpublication : (r'.withPublished key index composed o.unixNs).toPublication =
              (d.registry.toPublication.publish key index composed).2 := by
            rw [Registry.withPublished, (Registry.settle_unpublished _).1]
            dsimp only
            rw [hidentify.1]
          have hminted : (r'.toPublication.publish key index composed).1 =
              .fromAdmission d.registry.instruments.slots.length := by
            rw [hidentify.1]
            rfl
          obtain ⟨archived, harchived, hget⟩ := Option.map_eq_some_iff.mp hanswer.symm
          have hkey : o.key = some key := by
            rw [Offer.key, hregistry, recalls]
            rfl
          refine h.admitted hids (i := composed.instrument) hminted hkey hsymbols hunpublished
            hkept rfl ?_ ?_ harchived hget.symm
          · rw [hpublication]
            exact Refdata.Publication.instruments_publish key index composed
          · rw [hpublication, hminted, Refdata.Publication.publish]
            dsimp only
            rw [Refdata.Publication.setChanged_eq]
            rfl

end Alike

/-! ## Polls -/

/-- The reference data of the archive states what was offered. -/
structure Honest (refdata : ArchivedRefdata) (offers : List Offer) : Prop where
  once : SymbolsOnce offers
  stated : ∀ o ∈ offers, o.Stated refdata

theorem Honest.mono {refdata : ArchivedRefdata} {offers offers' : List Offer}
    (h : Honest refdata offers') (hoffers : offers <+: offers') : Honest refdata offers where
  once o ho o' ho' := h.once o (hoffers.subset ho) o' (hoffers.subset ho')
  stated o ho := h.stated o (hoffers.subset ho)

theorem Desk.offers_answered {α : Type} (clock : ℕ → ℕ) (p : Poll α) (d : Desk) :
    d.offers <+: (Desk.answered clock p d).2.offers := by
  induction p generalizing d with
  | done adapter => exact List.prefix_refl _
  | listOn shard spec next ih =>
      have hone : d.offers <+: (d.listOn clock shard spec).2.offers := List.prefix_append _ _
      exact hone.trans (ih (d.listOn clock shard spec).1 (d.listOn clock shard spec).2)
  | delist h next ih => exact ih (d.delist clock h)
  | strike h stated next ih => exact ih (d.strike h stated)

/-- **A poll**, answered by the registry and from the archive. -/
theorem Alike.answered {α : Type} {refdata : ArchivedRefdata} {d : Desk} {a : Admissions}
    (h : Alike refdata d a) (hids : refdata.IdsOnce) (clock : ℕ → ℕ) (p : Poll α)
    (honest : Honest refdata (Desk.answered clock p d).2.offers) :
    (Admissions.polled refdata p a).1 = (Desk.answered clock p d).1 ∧
      Alike refdata (Desk.answered clock p d).2 (Admissions.polled refdata p a).2 := by
  induction p generalizing d a with
  | done adapter => exact ⟨rfl, h⟩
  | listOn shard spec next ih =>
      rw [Desk.answered] at honest
      rw [Desk.answered, Admissions.polled]
      have hone := honest.mono (Desk.offers_answered clock _ _)
      obtain ⟨hanswer, hnext⟩ := h.listOn hids clock shard spec hone.once hone.stated
      rw [hanswer]
      exact ih _ hnext honest
  | delist handle next ih =>
      rw [Desk.answered] at honest
      rw [Desk.answered, Admissions.polled]
      exact ih (h.delist clock handle) honest
  | strike handle stated next ih =>
      rw [Desk.answered] at honest
      rw [Desk.answered, Admissions.polled]
      exact ih (h.strike handle stated) honest

/-! ## Payloads -/

/-- What a refusal says, its instrument apart. -/
def Refusal.told (r : Refusal) : ℕ × ℕ × String × String × Option String :=
  (r.payloadIndex, r.eventIndex, r.messageType, r.reason, r.field)

/-- What the re-lowering says of an event that the publisher refuses. -/
def Refused.told (r : Refused) : ℕ × ℕ × String × String × Option String :=
  (r.payloadIndex, r.eventIndex, eventType r.event, refusalReason r.error, refusalField r.error)

/-- The two have made the same messages and the same refusals of a payload's events. -/
structure Matches (payloadIndex : ℕ) (s : Emission) (c : Collector) : Prop where
  depth : c.depth = s.depth
  payload : c.payloadIndex = payloadIndex
  eventIndex : c.eventIndex = s.eventIndex
  messages : c.out.messages.map Message.body = s.messages.map MessageBody.ofMessage
  refusals : c.out.refusals.map Refusal.told = s.refused.map Refused.told

namespace Matches

variable {payloadIndex : ℕ} {s : Emission} {c : Collector} (table : InstrumentTable)

theorem event (h : Matches payloadIndex s c) (e : Event) :
    Matches payloadIndex (s.event table payloadIndex e) (c.event table e) := by
  obtain ⟨hdepth, hpayload, hindex, hmessages, hrefusals⟩ := h
  rw [Emission.event, Collector.event, hdepth]
  generalize Venue.lower s.depth table e = lowered
  obtain ⟨result, depth⟩ := lowered
  cases result with
  | ok m =>
      refine ⟨rfl, hpayload, congrArg (· + 1) hindex, ?_, hrefusals⟩
      dsimp only [Collector.keep]
      rw [List.map_append, hmessages, List.map_append]
      rfl
  | error error =>
      refine ⟨rfl, hpayload, congrArg (· + 1) hindex, ?_, ?_⟩
      · dsimp only [Collector.refuse]
        rw [hmessages]
        exact congrArg _ (List.append_nil _).symm
      · dsimp only [Collector.refuse]
        rw [List.map_append, List.map_append, hrefusals, ← hpayload, ← hindex]
        rfl

theorem tell (h : Matches payloadIndex s c) (call : SinkCall) :
    Matches payloadIndex (s.tell table payloadIndex call) (c.tell table call) := by
  cases call with
  | event e => exact h.event table e
  | upstreamMessage => exact ⟨h.depth, h.payload, h.eventIndex, h.messages, h.refusals⟩
  | upstreamIdentity | payloadScope | desynchronised => exact h

theorem tellAll (h : Matches payloadIndex s c) (calls : List SinkCall) :
    Matches payloadIndex (calls.foldl (Emission.tell table payloadIndex) s)
      (calls.foldl (Collector.tell table) c) := by
  induction calls generalizing s c with
  | nil => exact h
  | cons call calls ih => exact ih (h.tell table call)

end Matches

/-! ## Eras -/

/-- The re-lowering is where the publisher was. -/
structure Follows {α : Type} (refdata : ArchivedRefdata) (s : Publishing α) (t : ReLowering α) :
    Prop where
  adapter : t.adapter = s.adapter
  alike : Alike refdata s.desk t.admissions
  depth : t.depth = s.depth
  payloads : t.payloads = s.payloads
  messages : t.out.messages.map Message.body = s.messages.map MessageBody.ofMessage
  refusals : t.out.refusals.map Refusal.told = s.refused.map Refused.told

namespace Publisher

variable {α : Type} (P : Publisher α)

theorem offers_poll (s : Publishing α) : s.desk.offers <+: (P.poll s).desk.offers := by
  let registry := run Registry.call s.desk.registry ((P.upkeep s.payloads).map Upkeep.call)
  exact Desk.offers_answered P.clock (P.adapter.pollListings s.adapter)
    { s.desk with registry := { registry with polling := true } }

theorem offers_run (s : Publishing α) (payloads : List Payload) :
    s.desk.offers <+: (run P.step s payloads).desk.offers := by
  induction payloads generalizing s with
  | nil => exact List.prefix_refl _
  | cons p payloads ih => exact (P.offers_poll (P.payload s p)).trans (ih _)

end Publisher

namespace Follows

variable {α : Type} {refdata : ArchivedRefdata} {s : Publishing α} {t : ReLowering α}
  (P : Publisher α)

theorem poll (h : Follows refdata s t) (hids : refdata.IdsOnce)
    (honest : Honest refdata (P.poll s).desk.offers) :
    Follows refdata (P.poll s) (t.poll P.adapter refdata) := by
  have hchores := h.alike.chores (P.upkeep s.payloads)
  have hpolling : Alike refdata { s.desk with
      registry := { run Registry.call s.desk.registry ((P.upkeep s.payloads).map Upkeep.call) with
        polling := true } } { t.admissions with atPayload := t.payloads } := by
    have hkept := hchores.kept
    refine hchores.congr ⟨⟨hkept.consistent.keys, hkept.consistent.table,
      hkept.consistent.key_of_handle, hkept.consistent.handle_of_key, hkept.consistent.published,
      hkept.consistent.size, hkept.consistent.shards, hkept.consistent.counts⟩, hkept.sets⟩ rfl rfl
      (List.prefix_refl _) rfl rfl
  obtain ⟨hadapter, halike⟩ := hpolling.answered hids P.clock (P.adapter.pollListings s.adapter)
    honest
  refine ⟨?_, ?_, h.depth, h.payloads, h.messages, h.refusals⟩
  · rw [ReLowering.poll, h.adapter]
    exact hadapter
  · rw [ReLowering.poll, h.adapter]
    refine halike.congr ?_ rfl rfl (List.prefix_refl _) rfl rfl
    exact ⟨Refdata.Publication.consistent_endPoll halike.kept.consistent,
      (List.length_map _).trans halike.kept.sets⟩

theorem payload (h : Follows refdata s t) (p : Payload) :
    Follows refdata (P.payload s p) (t.payload P.adapter p) := by
  have hstart : Matches s.payloads
      { depth := s.depth, messages := s.messages, refused := s.refused }
      { depth := t.depth, payloadIndex := t.payloads, recvTsNs := p.recvTsNs, out := t.out,
        upstreamMessages := t.upstreamMessages, events := t.events } :=
    ⟨h.depth, h.payloads, rfl, h.messages, h.refusals⟩
  have hend := hstart.tellAll s.desk.registry.instruments (P.adapter.onPayload s.adapter p).1
  rw [Publisher.payload, ReLowering.payload, h.adapter, h.alike.table]
  exact ⟨rfl, h.alike, hend.depth, congrArg (· + 1) h.payloads, hend.messages, hend.refusals⟩

theorem run (h : Follows refdata s t) (hids : refdata.IdsOnce) (payloads : List Payload)
    (honest : Honest refdata (Lib.run P.step s payloads).desk.offers) :
    Follows refdata (Lib.run P.step s payloads)
      (Lib.run (ReLowering.step P.adapter refdata) t payloads) := by
  induction payloads generalizing s t with
  | nil => exact h
  | cons p payloads ih =>
      have hnext := honest.mono (P.offers_run (P.step s p) payloads)
      exact ih ((h.payload P p).poll P hids hnext) honest

end Follows

section

variable {α : Type} (P : Publisher α) {config : RegistryConfig} {store store' : Store}
  {openedNs rewriteNs : ℕ} {registry : Registry} {refdata : ArchivedRefdata}

/-- A registry that was just opened holds nothing, as the admitted set does. -/
theorem follows_start (h : Registry.open config store openedNs rewriteNs = (.ok registry, store'))
    (refdata : ArchivedRefdata) (adapter : α) : Follows refdata
      { adapter, desk := { registry }, depth := { sourceId := registry.config.sourceId } }
      { adapter, depth := { sourceId := config.sourceId } } := by
  obtain ⟨hconfig, hpublication⟩ := Registry.open_publication h
  have hinstruments : registry.instruments = {} := by rw [hpublication]
  refine ⟨rfl, ⟨(Registry.kept_open h).1, ?_, hinstruments.symm, ?_, ?_, ?_⟩, ?_, rfl, rfl, rfl⟩
  · rw [Registry.admissions, hinstruments]
    exact Nat.zero_le _
  · intro symbol held hsymbol
    cases ExtTreeMap.getElem?_empty.symm.trans hsymbol
  · intro held inst hget
    cases (slotAt_of_length_le (Nat.zero_le _)).symm.trans (InstrumentTable.get_eq_ok_iff.mp hget)
  · intro symbol held hsymbol
    cases ExtTreeMap.getElem?_empty.symm.trans hsymbol
  · rw [hconfig]

/-- Over an era, the re-lowering makes the messages and the refusals of the publisher. -/
theorem follows_publish (h : Registry.open config store openedNs rewriteNs = (.ok registry, store'))
    (hids : refdata.IdsOnce) (adapter : α) (payloads : List Payload)
    (honest : Honest refdata (P.publish registry adapter payloads).desk.offers) :
    Follows refdata (P.publish registry adapter payloads)
      (ReLowering.replay P.adapter refdata config.sourceId adapter payloads) := by
  have hstart := follows_start h refdata adapter
  exact (hstart.poll P hids (honest.mono (P.offers_run _ payloads))).run P hids payloads honest

/-- **An honest publisher is never accused.**  Over an era from its start, let the archive state each
Instrument ID once, and for each offer to the publisher what the publisher lowers the instrument by,
or nothing if the offer is not taken, and let the publisher recall each Symbol by one key.  If the
wire carries the publisher's messages, in the order they were lowered wherever they share a join
key, the comparison has no finding, counts every message as identical, and has the publisher's
refusals. -/
theorem never_accused {W ε : Type}
    (hopen : Registry.open config store openedNs rewriteNs = (.ok registry, store'))
    (hids : refdata.IdsOnce) (adapter : α) (payloads : List Payload)
    (honce : SymbolsOnce (P.publish registry adapter payloads).desk.offers)
    (hstated : ∀ o ∈ (P.publish registry adapter payloads).desk.offers, o.Stated refdata)
    (wire : WireCapture W)
    (hwire : ∀ k, (copiesAt k wire.messages).map Message.body =
      ((P.publish registry adapter payloads).messages.map MessageBody.ofMessage).filter fun b ↦
        decide (b.joinKey = k)) :
    ∃ re, relower P.adapter refdata config.sourceId adapter
        ({ payloads } : PayloadArchive ε) = .ok re ∧
      let published := P.publish registry adapter payloads
      let report := RelowerReport.compare wire re
      report.findings = [] ∧
      ((report.summary.identical = wire.messages.length ∧
          report.summary.identical = published.messages.length) ∧
        report.summary.fieldsDiffer = 0 ∧ report.summary.reLoweredNotOnWire = 0 ∧
        report.summary.onWireNotReLowered = 0) ∧
      report.refusals.map Refusal.told = published.refused.map Refused.told := by
  have hfollows := follows_publish P hopen hids adapter payloads ⟨honce, hstated⟩
  refine ⟨_, rfl, ?_⟩
  have hsame (k : JoinKey) : (copiesAt k wire.messages).map Message.body =
      (copiesAt k (ReLowering.replay P.adapter refdata config.sourceId adapter
        payloads).finish.messages).map Message.body := by
    rw [hwire k, map_body_copiesAt, ← hfollows.messages]
    rfl
  obtain ⟨⟨hwireLength, hreLength⟩, hrest⟩ := summary_of_same hsame
  have hlength := congrArg List.length hfollows.messages
  rw [List.length_map, List.length_map] at hlength
  refine ⟨findings_eq_nil hsame, ⟨⟨hwireLength, hreLength.trans hlength⟩, hrest⟩, ?_⟩
  exact (congrArg _ (refusals_compare wire _)).trans hfollows.refusals

end

/-! ## An era of relistings -/

instance (refdata : ArchivedRefdata) (o : Offer) : Decidable (o.Stated refdata) :=
  inferInstanceAs (Decidable (_ = _))

/-- What an adapter makes of every payload: a level, two trades of one join key, and a level whose
price the exponent of the instrument cannot state. -/
def eventsOf (h : InstrumentRef) : List Event :=
  let trade (price : Int64) : Event :=
    .trade h 7 (.fixed price 0) (.fixed 1 0) .buy none none ⟨false, false, false⟩
  [.level h 0 .bid (.fixed 5 0) (.fixed 3 0) none .new, trade 5, trade 6,
    .level h 0 .ask (.fixed 5 (-1)) (.fixed 3 0) none .new]

/-- A publisher of one instrument, which is delisted and listed again in every poll. -/
def relister : Publisher (Option InstrumentRef) where
  adapter :=
    { pollListings := fun held ↦
        let list := Poll.listOn "main" (Refdata.Registry.soleSpec 65) .done
        match held with
        | none => list
        | some h => .delist h list
      onPayload := fun held _ ↦
        ((held.toList.flatMap eventsOf).map .event, none, held) }
  clock _ := 0
  upkeep _ := [.definitionTick "main" 0]

def relistedEra : Publishing (Option InstrumentRef) :=
  relister.publish Refdata.Registry.soleOpened none [⟨[], 0, 0⟩, ⟨[], 1, 0⟩]

/-- The archive states the instrument. -/
def relistedRefdata : ArchivedRefdata where
  bySymbol := (∅ : ExtTreeMap SymbolField ArchivedInstrument).insert
    (offeredSymbol (Refdata.Registry.soleSpec 65))
    ⟨1, offeredSymbol (Refdata.Registry.soleSpec 65), 0, 0, 1, 0, 1⟩

def relistedWire : WireCapture Unit where
  messages := relistedEra.messages.map fun m ↦ ⟨.ofMessage m, ()⟩

/-- Six messages are identical, and two events are refused on both sides. -/
theorem never_accused_relisted : ∃ re, relower relister.adapter relistedRefdata .first none
      ({ payloads := [⟨[], 0, 0⟩, ⟨[], 1, 0⟩] } : PayloadArchive Unit) = .ok re ∧
    (RelowerReport.compare relistedWire re).findings = [] ∧
    (RelowerReport.compare relistedWire re).summary.identical = 6 ∧
    (RelowerReport.compare relistedWire re).refusals.length = 2 := by
  have hids : relistedRefdata.IdsOnce := by
    intro symbol symbol' archived archived' h h' _
    rw [relistedRefdata, getElem?_insert_eq] at h h'
    split at h <;> split at h'
    next heq heq' => exact heq.symm.trans heq'
    all_goals simp_all
  have hstated : ∀ o ∈ relistedEra.desk.offers, o.Stated relistedRefdata := by decide +kernel
  have honce : SymbolsOnce relistedEra.desk.offers := by
    unfold SymbolsOnce
    decide +kernel
  obtain ⟨re, hre, hfindings, hidentical, hrefusals⟩ := never_accused (ε := Unit) relister
    Refdata.Registry.open_sole hids none [⟨[], 0, 0⟩, ⟨[], 1, 0⟩] honce hstated relistedWire
    fun k ↦ by
      rw [map_body_copiesAt, relistedWire, List.map_map]
      rfl
  have hlength := congrArg List.length hrefusals
  rw [List.length_map, List.length_map] at hlength
  refine ⟨re, hre, hfindings, hidentical.1.2.trans ?_, hlength.trans ?_⟩
  · change relistedEra.messages.length = 6
    decide +kernel
  · change relistedEra.refused.length = 2
    decide +kernel

end EdgeMulticast.Relower
