import EdgeMulticast.Recorder.Wire

/-!
# Reference data as the derivation needs it

`instruments.rs`: statements keyed on the channel and the instrument, scoped to an era, and in
force from the instant they were received.

A definition's symbol is a string here; the cut of the fixed-width bytes at the first NUL is
the codec's.
-/

namespace EdgeMulticast.Recorder

open Std (ExtTreeMap)
open EdgeMulticast.Lib

/-- Where a statement was made. -/
structure At where
  inst : ChannelInstance
  sequenceNumber : ℕ
  resetCount : ℕ
  recvTsNs : ℕ
deriving DecidableEq, Repr

/-- One instrument, as one definition stated it. -/
structure Statement where
  instrumentId : ℕ
  sourceId : ℕ
  symbol : String
  priceExponent : ℤ
  qtyExponent : ℤ
  contractValue : ℕ
  manifestSeq : ℕ
  fromSequence : ℕ
  fromRecvTsNs : ℕ
  firstSeenTsNs : ℕ
deriving DecidableEq, Repr

namespace Statement

/-- Whether two statements say the same thing about an instrument.  Positions are excluded:
the definition cycle republishes the same definition indefinitely. -/
def saysTheSameAs (s other : Statement) : Bool :=
  s.sourceId = other.sourceId && s.symbol = other.symbol &&
    s.priceExponent = other.priceExponent && s.qtyExponent = other.qtyExponent &&
    s.contractValue = other.contractValue

def ofDefinition (d : InstrumentDefinition) (a : At) : Statement where
  instrumentId := d.instrumentId
  sourceId := d.sourceId
  symbol := d.symbol
  priceExponent := d.priceExponent
  qtyExponent := d.qtyExponent
  contractValue := d.contractValue
  manifestSeq := d.manifestSeq
  fromSequence := a.sequenceNumber
  fromRecvTsNs := a.recvTsNs
  firstSeenTsNs := a.recvTsNs

end Statement

/-- What observing a definition did. -/
inductive Observed where
  | first | restated | repeated | outOfOrder
deriving DecidableEq, Repr

/-- One channel's instruments, within one era. -/
structure EraTable where
  resetCount : ℕ
  /-- The statements of an instrument, the one in force last. -/
  instruments : ExtTreeMap ℕ (List Statement)
  declaredCount : Option ℕ

def EraTable.new (resetCount : ℕ) : EraTable := ⟨resetCount, ∅, none⟩

/-- Reference data for every channel an archive holds. -/
structure InstrumentTable where
  channels : ExtTreeMap Channel EraTable := ∅

namespace InstrumentTable

/-- The channel's table, cleared first if the position opens a new era. -/
def eraTable (t : InstrumentTable) (a : At) : EraTable :=
  match t.channels[Channel.of a.inst]? with
  | none => EraTable.new a.resetCount
  | some e => if e.resetCount ≠ a.resetCount then EraTable.new a.resetCount else e

def setEraTable (t : InstrumentTable) (a : At) (e : EraTable) : InstrumentTable :=
  ⟨t.channels.insert (Channel.of a.inst) e⟩

/-- What a statement makes of the history of its instrument. -/
def observe (history : List Statement) (s : Statement) : List Statement × Observed :=
  match history.getLast? with
  | none => ([s], .first)
  | some inForce =>
      if inForce.saysTheSameAs s then (history, .repeated)
      else if s.fromRecvTsNs ≤ inForce.fromRecvTsNs then (history, .outOfOrder)
      else (history ++ [s], .restated)

/-- Take one definition, at the position it was carried. -/
def observeDefinition (t : InstrumentTable) (d : InstrumentDefinition) (a : At) :
    InstrumentTable × Observed :=
  let e := t.eraTable a
  let (history, observed) :=
    observe ((e.instruments[d.instrumentId]?).getD []) (Statement.ofDefinition d a)
  (t.setEraTable a { e with instruments := e.instruments.insert d.instrumentId history },
    observed)

/-- Take one manifest.  A summary that is not valid yet declares nothing. -/
def observeManifest (t : InstrumentTable) (summary : ManifestSummary) (a : At) :
    InstrumentTable :=
  let e := t.eraTable a
  t.setEraTable a (if summary.valid ≠ 0 then
    { e with declaredCount := some summary.instrumentCount } else e)

/-- The statement in force for an instrument at an instant: the last one received at or before
it. -/
def resolve (t : InstrumentTable) (channel : Channel) (instrumentId atRecvTsNs : ℕ) :
    Option Statement :=
  t.channels[channel]?.bind fun e ↦
    e.instruments[instrumentId]?.bind fun history ↦
      history.reverse.find? fun s ↦ s.fromRecvTsNs ≤ atRecvTsNs

/-! ## A statement is about its own instrument -/

/-- Every statement is filed under the instrument it is about. -/
def Filed (t : InstrumentTable) : Prop :=
  ∀ (channel : Channel) (e : EraTable), t.channels[channel]? = some e →
    ∀ (id : ℕ) (history : List Statement), e.instruments[id]? = some history →
      ∀ s ∈ history, s.instrumentId = id

theorem Filed.resolve {t : InstrumentTable} (h : t.Filed) {channel : Channel} {id at' : ℕ}
    {s : Statement} (hs : t.resolve channel id at' = some s) : s.instrumentId = id := by
  obtain ⟨e, he, hs⟩ := Option.bind_eq_some_iff.mp hs
  obtain ⟨history, hhistory, hs⟩ := Option.bind_eq_some_iff.mp hs
  exact h channel e he id history hhistory s (List.mem_reverse.mp (List.mem_of_find?_eq_some hs))

theorem Filed.empty : ({} : InstrumentTable).Filed := by
  rintro channel e he
  exact absurd he (by simp)

theorem Filed.eraTable {t : InstrumentTable} (h : t.Filed) (a : At) {id : ℕ}
    {history : List Statement} (hhistory : (t.eraTable a).instruments[id]? = some history) :
    ∀ s ∈ history, s.instrumentId = id := by
  have hnew : (EraTable.new a.resetCount).instruments[id]? ≠ some history := by
    simp [EraTable.new]
  rw [InstrumentTable.eraTable] at hhistory
  split at hhistory
  next => exact absurd hhistory hnew
  next e he =>
      split at hhistory
      next => exact absurd hhistory hnew
      next => exact h _ e he id history hhistory

theorem Filed.setEraTable {t : InstrumentTable} (h : t.Filed) (a : At) {e : EraTable}
    (he : ∀ (id : ℕ) (history : List Statement), e.instruments[id]? = some history →
      ∀ s ∈ history, s.instrumentId = id) : (t.setEraTable a e).Filed := by
  rintro channel e' he' id history hhistory
  rw [InstrumentTable.setEraTable, getElem?_insert_eq] at he'
  split at he'
  next =>
      obtain rfl := Option.some.inj he'
      exact he id history hhistory
  next => exact h channel e' he' id history hhistory

theorem mem_observe {history : List Statement} {s s' : Statement}
    (h : s' ∈ (observe history s).1) : s' ∈ history ∨ s' = s := by
  rw [observe] at h
  split at h
  · exact Or.inr (List.mem_singleton.mp h)
  · split at h
    · exact Or.inl h
    · split at h
      · exact Or.inl h
      · rcases List.mem_append.mp h with h | h
        · exact Or.inl h
        · exact Or.inr (List.mem_singleton.mp h)

theorem Filed.observeDefinition {t : InstrumentTable} (h : t.Filed) (d : InstrumentDefinition)
    (a : At) : (t.observeDefinition d a).1.Filed := by
  refine h.setEraTable a fun id history hhistory s hs ↦ ?_
  rw [getElem?_insert_eq] at hhistory
  split at hhistory
  next hid =>
      obtain rfl := Option.some.inj hhistory
      rcases mem_observe hs with hs | rfl
      · rw [← hid]
        cases hold : (t.eraTable a).instruments[d.instrumentId]? with
        | none =>
            rw [hold] at hs
            exact absurd hs List.not_mem_nil
        | some old =>
            rw [hold] at hs
            exact h.eraTable a hold s hs
      · exact hid
  next => exact h.eraTable a hhistory s hs

theorem Filed.observeManifest {t : InstrumentTable} (h : t.Filed) (summary : ManifestSummary)
    (a : At) : (t.observeManifest summary a).Filed := by
  refine h.setEraTable a fun id history hhistory ↦ h.eraTable a ?_
  split at hhistory <;> exact hhistory

end InstrumentTable

end EdgeMulticast.Recorder
