import EdgeMulticast.Refdata.Registry

/-!
# Seeding a record

`seed.rs` (`dz-publisher-refdata`): a record from another publisher's identifiers, merged into the
record that a state directory has.  The merge is the union of the two, and refuses every
disagreement.

The maps from keys and from identifiers to entries are lookups in the entries here.
-/

namespace EdgeMulticast.Refdata

open EdgeMulticast.Lib

/-- What is written into a state directory: the identifiers that another publisher published, and
the one it would have issued next. -/
structure Seed where
  sourceId : ℕ
  nextId : ℕ
  /-- Venue keys and their identifiers. -/
  entries : List (List Byte × ℕ)
  /-- Forget every entry whose key stays unknown, rather than refusing the seed. -/
  retireUnmapped : Bool
  venueKeys : VenueKeys
  source_fits : sourceId ≤ U16_MAX
  next_fits : nextId ≤ U32_MAX
  ids_fit : ∀ p ∈ entries, p.2 ≤ U32_MAX

/-- Why nothing was written. -/
inductive SeedError where
  | sourceIdMismatch (persisted seeded : ℕ)
  | conflict (seededKey : List Byte) (seededId : ℕ) (heldKey : List Byte) (heldId : ℕ)
  | idNotBelowNext (instrumentId nextId : ℕ)
  | idMayBeForgotten (instrumentId nextId : ℕ)
  | unresolved (entries : List (ℕ × SymbolKey))
  | badVenueKey (venueKey : List Byte)
  | recordIsDerived
  | derivedWithStatedVenueKeys
  | venueKeysChanged (persisted seeded : VenueKeys)
  | record (e : RecordError)
  | store (e : StateError)
deriving DecidableEq

/-- An entry for a venue key, with the Symbol that the wire carries for it. -/
def Entry.keyed (instrumentId : ℕ) (venueKey : List Byte) (delistedAt : Option ℕ) : Entry :=
  let symbol := (symbolField venueKey).1
  { instrumentId, symbol, venueKey := venueKeyField venueKey symbol, delistedAt }

/-- An entry, and its key where that is known. -/
structure Slot where
  entry : Entry
  key : Option (List Byte)
deriving DecidableEq

/-- The entry of a slot, under this key. -/
def Slot.under (slot : Slot) (key : List Byte) : Entry :=
  { slot.entry with venueKey := venueKeyField key slot.entry.symbol }

/-- The key of an entry, where it is known: in a keyed record, and where it is a whole Symbol and
keys are Symbols. -/
def knownKey (record : StateRecord) (venueKeys : VenueKeys) (e : Entry) : Option (List Byte) :=
  if record.keyed.isSome ∨ venueKeys = .symbol ∧ symbolIsWhole e.symbol then some e.key else none

/-- One pair of a seed. -/
def mergePair (record : StateRecord) (seed : Seed) (slots : List Slot) (pair : List Byte × ℕ) :
    Except SeedError (List Slot) :=
  if ¬isVenueKey pair.1 then .error (.badVenueKey pair.1)
  else if ¬record.allocation.isDerived ∧ (pair.2 = 0 ∨ seed.nextId ≤ pair.2) then
    .error (.idNotBelowNext pair.2 seed.nextId)
  else match slots.find? (·.key = some pair.1) with
    | some held =>
        if held.entry.instrumentId ≠ pair.2 then
          .error (.conflict pair.1 pair.2 pair.1 held.entry.instrumentId)
        else .ok slots
    | none =>
        match slots.findIdx? (·.entry.instrumentId = pair.2) with
        | some i =>
            match slots[i]? with
            | none => .ok slots
            | some slot =>
                match slot.key with
                | some held => .error (.conflict pair.1 pair.2 held slot.entry.instrumentId)
                | none =>
                    -- an unresolved entry: keys that are Symbols have to be its own
                    if seed.venueKeys = .symbol ∧ (symbolField pair.1).1 ≠ slot.entry.symbol then
                      .error (.conflict pair.1 pair.2 (unpadded slot.entry.symbol)
                        slot.entry.instrumentId)
                    else .ok (slots.set i ⟨slot.under pair.1, some pair.1⟩)
        | none =>
            if record.allocation.isDerived then .error .recordIsDerived
            else if pair.2 < record.nextId then
              .error (.idMayBeForgotten pair.2 record.nextId)
            else .ok (slots ++ [⟨Entry.keyed pair.2 pair.1 none, some pair.1⟩])

def mergePairs (record : StateRecord) (seed : Seed) :
    List Slot → List (List Byte × ℕ) → Except SeedError (List Slot)
  | slots, [] => .ok slots
  | slots, pair :: pairs =>
      match mergePair record seed slots pair with
      | .error e => .error e
      | .ok slots => mergePairs record seed slots pairs

/-- What comes before the pairs: whether the record takes a seed like this at all. -/
def refusal (record : StateRecord) (seed : Seed) : Option SeedError :=
  if record.sourceId ≠ seed.sourceId then
    some (.sourceIdMismatch record.sourceId seed.sourceId)
  else if record.allocation = .derived ∧ seed.venueKeys = .stated then
    some .derivedWithStatedVenueKeys
  else match record.keyed.filter (· ≠ seed.venueKeys) with
    | some persisted => some (.venueKeysChanged persisted seed.venueKeys)
    | none =>
        if record.allocation.isDerived ∧ (seed.retireUnmapped ∨ seed.nextId ≠ record.nextId) then
          some .recordIsDerived
        else none

def startSlots (record : StateRecord) (seed : Seed) : List Slot :=
  record.entries.map fun e ↦ ⟨e, knownKey record seed.venueKeys e⟩

/-- The record that a seed makes of a record, or why it makes none. -/
def merge (record : StateRecord) (seed : Seed) : Except SeedError StateRecord :=
  match refusal record seed with
  | some e => .error e
  | none =>
      match mergePairs record seed (startSlots record seed) seed.entries with
      | .error e => .error e
      | .ok slots =>
          let unresolved := slots.filter (·.key = none)
          if unresolved ≠ [] ∧ ¬seed.retireUnmapped then
            .error (.unresolved (unresolved.map fun s ↦ (s.entry.instrumentId, s.entry.symbol)))
          else .ok {
            sourceId := record.sourceId
            nextId := max (max record.nextId seed.nextId) FIRST_INSTRUMENT_ID
            entries := slots.filterMap fun s ↦ s.key.map s.under
            allocation := record.allocation
            keyed := some seed.venueKeys }

/-- The record of a store, as it is or as an empty one. -/
def Store.recordFor (store : Store) (seed : Seed) : Except RecordError StateRecord :=
  match store.record with
  | some bytes => (StateRecord.load bytes).map Loaded.record
  | none => .ok (.empty seed.sourceId)

/-- Write a seed into a state directory. -/
def seed (store : Store) (seed : Seed) : Except SeedError Unit × Store :=
  match store.claims with
  | some e => (.error (.store e), store)
  | none =>
      match store.loads with
      | some e => (.error (.store e), store)
      | none =>
          match store.recordFor seed with
          | .error e => (.error (.record e), store)
          | .ok record =>
              match merge record seed with
              | .error e => (.error e, store)
              | .ok merged =>
                  -- the check that the merge writes nothing that a load refuses
                  match StateRecord.load merged.encode with
                  | .error e => (.error (.record e), store)
                  | .ok _ =>
                      ((store.store merged.encode).1.mapError .store, (store.store merged.encode).2)

end EdgeMulticast.Refdata
