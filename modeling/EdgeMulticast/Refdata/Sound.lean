import EdgeMulticast.Lib.Delimited
import EdgeMulticast.Refdata.Registry

/-!
# Sound records

What the loader requires of a record: the identifiers and the keys are distinct, each entry is one
that can be written, and its identifier lies where the allocation puts it.  A record that was
loaded is sound (`sound_of_load`).
-/

namespace EdgeMulticast.Refdata

open EdgeMulticast.Lib

/-- An entry that can be written. -/
structure Entry.Sound (keyed : Bool) (e : Entry) : Prop where
  id_ne : e.instrumentId ≠ 0
  id_fits : e.instrumentId ≤ U32_MAX
  time_fits : ∀ t ∈ e.delistedAt, t ≤ U64_MAX
  unkeyed : keyed = false → e.venueKey = none
  stated : ∀ key ∈ e.venueKey, isVenueKey key
  whole : keyed = true → e.venueKey = none → symbolIsWhole e.symbol

/-- Where an identifier lies: below the next one, or it is derived where it is not below the
floor. -/
def Entry.Placed (allocation : IdAllocation) (nextId : ℕ) (e : Entry) : Prop :=
  if allocation.isDerived then
    nextId ≤ e.instrumentId → some e.instrumentId = derivation allocation e
  else e.instrumentId < nextId

/-- Entries that a record may hold. -/
structure SoundEntries (allocation : IdAllocation) (keyed : Bool) (nextId : ℕ)
    (entries : List Entry) : Prop where
  ids : (entries.map Entry.instrumentId).Nodup
  keys : (entries.map (Entry.recallKey keyed)).Nodup
  sound : ∀ e ∈ entries, e.Sound keyed
  placed : ∀ e ∈ entries, e.Placed allocation nextId

/-- A record that can be written and read. -/
structure StateRecord.Sound (r : StateRecord) : Prop where
  source_fits : r.sourceId ≤ U16_MAX
  next_fits : r.nextId ≤ U32_MAX
  layout : r.keyed = none → r.allocation ≠ .derivedKey
  entries : SoundEntries r.allocation r.keyed.isSome r.nextId r.entries

theorem sound_empty {sourceId : ℕ} (h : sourceId ≤ U16_MAX) : (StateRecord.empty sourceId).Sound where
  source_fits := h
  next_fits := show FIRST_INSTRUMENT_ID ≤ U32_MAX by decide
  layout := by rintro - ⟨⟩
  entries := by
    constructor
    · exact List.nodup_nil
    · exact List.nodup_nil
    · rintro e ⟨⟩
    · rintro e ⟨⟩

variable {allocation : IdAllocation} {keyed : Bool} {nextId nextId' : ℕ} {entries : List Entry}
  {e : Entry}

/-- Raising the next identifier of a sequential allocation. -/
theorem Entry.Placed.mono (h : e.Placed allocation nextId) (hle : nextId ≤ nextId')  :
    e.Placed allocation nextId' := by
  rw [Entry.Placed] at h ⊢
  split at h
  next hderived =>
      rw [if_pos hderived]
      exact fun hfloor ↦ h (hle.trans hfloor)
  next hderived =>
      rw [if_neg hderived]
      exact h.trans_le hle

theorem SoundEntries.mono (h : SoundEntries allocation keyed nextId entries)
    (hle : nextId ≤ nextId') : SoundEntries allocation keyed nextId' entries :=
  { h with placed := fun e he ↦ (h.placed e he).mono hle }

theorem recallKey_eq_iff {e e' : Entry} : e.recallKey keyed = e'.recallKey keyed ↔
    if keyed then e.key = e'.key else e.symbol = e'.symbol := by
  cases keyed with
  | true => exact Iff.rfl
  | false => exact Vector.toList_inj

/-- What `hold` lets through is recalled by a key of its own. -/
theorem hold_eq_ok (h : hold keyed entries e = .ok ()) :
    e.recallKey keyed ∉ entries.map (Entry.recallKey keyed) := by
  intro hmem
  obtain ⟨e', he', heq⟩ := List.mem_map.mp hmem
  rw [recallKey_eq_iff] at heq
  rw [hold] at h
  cases keyed with
  | true =>
      rw [if_pos rfl] at h heq
      cases hfind : entries.find? (·.key = e.key) with
      | none => exact List.find?_eq_none.mp hfind e' he' (decide_eq_true heq)
      | some first =>
          rw [hfind] at h
          cases h
  | false =>
      rw [if_neg Bool.false_ne_true] at h heq
      cases hfind : entries.find? (·.symbol = e.symbol) with
      | none => exact List.find?_eq_none.mp hfind e' he' (decide_eq_true heq)
      | some first =>
          rw [hfind] at h
          cases h

/-- One more entry, of an identifier and a key that are new. -/
theorem SoundEntries.snoc (h : SoundEntries allocation keyed nextId entries)
    (hid : e.instrumentId ∉ entries.map Entry.instrumentId)
    (hkey : e.recallKey keyed ∉ entries.map (Entry.recallKey keyed)) (hsound : e.Sound keyed)
    (hplaced : e.Placed allocation nextId) :
    SoundEntries allocation keyed nextId (entries ++ [e]) where
  ids := by
    rw [List.map_append, List.map_singleton]
    exact List.nodup_append'.mpr ⟨h.ids, List.nodup_singleton _, by simpa using hid⟩
  keys := by
    rw [List.map_append, List.map_singleton]
    exact List.nodup_append'.mpr ⟨h.keys, List.nodup_singleton _, by simpa using hkey⟩
  sound e' he' := by
    rcases List.mem_append.mp he' with he' | he'
    · exact h.sound e' he'
    · exact List.mem_singleton.mp he' ▸ hsound
  placed e' he' := by
    rcases List.mem_append.mp he' with he' | he'
    · exact h.placed e' he'
    · exact List.mem_singleton.mp he' ▸ hplaced

/-- An element replaced by one of the same value. -/
theorem map_set_of_eq {α β : Type*} {f : α → β} {as : List α} {a b : α} {i : ℕ}
    (hi : as[i]? = some a) (hf : f b = f a) : (as.set i b).map f = as.map f := by
  obtain ⟨hlt, rfl⟩ := List.getElem?_eq_some_iff.mp hi
  rw [List.map_set, hf, ← List.getElem_map f, List.set_getElem_self]
  rwa [List.length_map]

/-- An entry replaced by one of the same identifier and key. -/
theorem SoundEntries.set {i : ℕ} {known : Entry} (h : SoundEntries allocation keyed nextId entries)
    (hi : entries[i]? = some known) (hid : e.instrumentId = known.instrumentId)
    (hkey : e.recallKey keyed = known.recallKey keyed) (hsound : e.Sound keyed)
    (hplaced : e.Placed allocation nextId) :
    SoundEntries allocation keyed nextId (entries.set i e) where
  ids := (map_set_of_eq hi hid).symm ▸ h.ids
  keys := (map_set_of_eq hi hkey).symm ▸ h.keys
  sound e' he' := by
    rcases List.mem_or_eq_of_mem_set he' with he' | rfl
    · exact h.sound e' he'
    · exact hsound
  placed e' he' := by
    rcases List.mem_or_eq_of_mem_set he' with he' | rfl
    · exact h.placed e' he'
    · exact hplaced

/-! ## What is loaded is sound -/

theorem orMalformed_eq_ok {α : Type} {line : ℕ} {what : String} {o : Option α} {a : α}
    (h : orMalformed line what o = .ok a) : o = some a := by
  cases o with
  | none => cases h
  | some a' => rw [Except.ok.inj h]

theorem time_of_parse {version line : ℕ} {inBase : Bool} {stated : Option (List Byte)}
    {time : Option ℕ} (h : parseTimestamp version inBase line stated = .ok time) :
    ∀ t ∈ time, t ≤ U64_MAX := by
  rw [parseTimestamp.eq_def] at h
  split at h
  · cases h
    rintro t ⟨⟩
  split at h
  · cases h
  split at h
  · cases h
  obtain ⟨t', ht', rfl⟩ := map_eq_ok.mp h
  rintro t ⟨⟩
  exact (parseUnsigned_eq_some_iff.mp (orMalformed_eq_ok ht')).2

theorem isVenueKey_of_decode {text key : List Byte} (h : decodeVenueKey text = some key) :
    isVenueKey key := by
  rw [decodeVenueKey] at h
  split at h
  next =>
      obtain ⟨bytes, -, hkey⟩ := Option.bind_eq_some_iff.mp h
      split at hkey
      next hvenue => exact Option.some.inj hkey ▸ hvenue
      next => cases hkey
  next => cases h

/-- The venue key of an entry is one, or its Symbol is. -/
theorem key_of_parse {line instrumentId : ℕ} {symbol : SymbolKey} {text : Option (List Byte)}
    {key : Option (List Byte)} (h : parseVenueKey line instrumentId symbol text = .ok key) :
    (text = none → key = none) ∧ (∀ k ∈ key, isVenueKey k) ∧
      (text.isSome → key = none → symbolIsWhole symbol) := by
  rw [parseVenueKey.eq_def] at h
  split at h
  next =>
      cases h
      exact ⟨fun _ ↦ rfl, by rintro k ⟨⟩, by rintro ⟨⟩⟩
  next text =>
      split at h
      next =>
          split at h
          next hwhole =>
              cases h
              exact ⟨by rintro ⟨⟩, by rintro k ⟨⟩, fun _ _ ↦ hwhole⟩
          next => cases h
      next =>
          split at h
          next => cases h
          next k hk =>
              cases h
              exact ⟨by rintro ⟨⟩, by rintro k' ⟨⟩; exact isVenueKey_of_decode hk, by rintro - ⟨⟩⟩

theorem sound_of_parse {hd : Header} {inBase : Bool} {line : ℕ} {text : List Byte}
    (h : parseEntry hd inBase line text = .ok e) : e.Sound hd.keyed.isSome := by
  rw [parseEntry] at h
  obtain ⟨symbolText, -, h⟩ := bind_eq_ok.mp h
  extract_lets fields behind at h
  obtain ⟨keyText, hpresent, h⟩ : ∃ keyText, keyText.isSome = hd.keyed.isSome ∧
      behind keyText = .ok e := by
    split at h
    next hkeyed =>
        obtain ⟨keyText, hkeyText, h⟩ := bind_eq_ok.mp h
        obtain ⟨text, -, rfl⟩ := map_eq_ok.mp hkeyText
        exact ⟨some text, hkeyed.symm, h⟩
    next hkeyed => exact ⟨none, (eq_false_of_ne_true hkeyed).symm, h⟩
  obtain ⟨delistedAt, htime, h⟩ := bind_eq_ok.mp h
  split at h
  next => cases h
  next =>
  obtain ⟨instrumentId, hid, h⟩ := bind_eq_ok.mp h
  split at h
  next => cases h
  next hne =>
  obtain ⟨symbol, -, h⟩ := bind_eq_ok.mp h
  obtain ⟨venueKey, hkey, h⟩ := bind_eq_ok.mp h
  cases h
  obtain ⟨field, -, hnumber⟩ := Option.bind_eq_some_iff.mp (orMalformed_eq_ok hid)
  obtain ⟨hunkeyed, hstated, hwhole⟩ := key_of_parse hkey
  exact {
    id_ne := hne
    id_fits := (parseUnsigned_eq_some_iff.mp hnumber).2
    time_fits := time_of_parse htime
    unkeyed := fun hkeyed ↦ hunkeyed (Option.not_isSome_iff_eq_none.mp
      (hpresent.trans hkeyed ▸ Bool.false_ne_true))
    stated := hstated
    whole := fun hkeyed ↦ hwhole (hpresent.trans hkeyed) }

namespace Loading

/-- What has been read is sound. -/
structure Sound (hd : Header) (l : Loading) : Prop where
  entries : SoundEntries hd.allocation hd.keyed.isSome l.runningNext l.entries
  next_le : hd.nextId ≤ l.runningNext
  next_fits : l.runningNext ≤ U32_MAX
  floor : hd.allocation.isDerived → l.runningNext = hd.nextId

variable {hd : Header} {l l' : Loading} {line : ℕ}

theorem Sound.congr (h : l.Sound hd) (hentries : l'.entries = l.entries)
    (hnext : l'.runningNext = l.runningNext) : l'.Sound hd where
  entries := hentries ▸ hnext ▸ h.entries
  next_le := hnext ▸ h.next_le
  next_fits := hnext ▸ h.next_fits
  floor := hnext ▸ h.floor

theorem push_eq_ok (h : l.push hd e = .ok l') :
    e.recallKey hd.keyed.isSome ∉ l.entries.map (Entry.recallKey hd.keyed.isSome) ∧
      l' = { l with entries := l.entries ++ [e] } := by
  rw [push] at h
  obtain ⟨⟨⟩, hhold, h⟩ := bind_eq_ok.mp h
  exact ⟨hold_eq_ok hhold, (Except.ok.inj h).symm⟩

theorem Sound.takeBase (hl : l.Sound hd) (he : e.Sound hd.keyed.isSome)
    (h : l.takeBase hd line e = .ok l') : l'.Sound hd := by
  rw [Loading.takeBase] at h
  split at h
  next => cases h
  next hderived =>
  split at h
  next => cases h
  next hbelow =>
  split at h
  next => cases h
  next hnew =>
  obtain ⟨hkey, rfl⟩ := push_eq_ok h
  have hid : e.instrumentId ∉ l.entries.map Entry.instrumentId := by
    intro hmem
    obtain ⟨e', he', heq⟩ := List.mem_map.mp hmem
    exact hnew (List.any_eq_true.mpr ⟨e', he', decide_eq_true heq⟩)
  refine { hl with entries := hl.entries.snoc hid hkey he ?_ }
  rw [Entry.Placed]
  split
  next hd' =>
      intro hfloor
      rw [hl.floor hd'] at hfloor
      exact not_not.mp fun hne ↦ hderived ⟨hd', hfloor, hne⟩
  next hd' => exact (Nat.lt_of_not_le fun hle ↦ hbelow ⟨hd', hle⟩).trans_le hl.next_le

theorem Sound.takeAppended (hl : l.Sound hd) (he : e.Sound hd.keyed.isSome)
    (h : l.takeAppended hd line e = .ok l') : l'.Sound hd := by
  rw [Loading.takeAppended] at h
  split at h
  next i hi =>
      split at h
      next => cases h; exact hl
      next known hknown =>
      split at h
      next => cases h
      next hsymbol =>
      split at h
      next => cases h
      next hkey =>
      cases h
      have hmem : known ∈ l.entries := List.mem_of_getElem? hknown
      have hsound := hl.entries.sound known hmem
      have hplaced := hl.entries.placed known hmem
      exact { hl with
        entries := hl.entries.set hknown rfl rfl { hsound with time_fits := by rintro t ⟨⟩ } hplaced }
  next hnone =>
      have hid : e.instrumentId ∉ l.entries.map Entry.instrumentId := by
        intro hmem
        obtain ⟨e', he', heq⟩ := List.mem_map.mp hmem
        exact absurd heq (of_decide_eq_false (List.findIdx?_eq_none_iff.mp hnone e' he'))
      split at h
      next hd' =>
          split at h
          next => cases h
          next hderived =>
          split at h
          next => cases h
          next =>
          obtain ⟨hkey, rfl⟩ := push_eq_ok h
          refine { hl with entries := hl.entries.snoc hid hkey he ?_ }
          rw [Entry.Placed, if_pos hd']
          exact fun _ ↦ not_not.mp hderived
      next hd' =>
          split at h
          next heq =>
              obtain ⟨next, hpush, h⟩ := bind_eq_ok.mp h
              obtain ⟨hkey, rfl⟩ := push_eq_ok hpush
              split at h
              next hfits =>
                  cases h
                  refine {
                    entries := (hl.entries.mono (Nat.le_succ _)).snoc hid hkey he ?_
                    next_le := Nat.le_succ_of_le hl.next_le
                    next_fits := hfits
                    floor := fun hderived ↦ absurd hderived hd' }
                  rw [Entry.Placed, if_neg hd', heq]
                  exact Nat.lt_succ_self _
              next => cases h
          next => cases h

theorem Sound.take {text : List Byte} (hl : l.Sound hd) (h : l.take hd line text = .ok l') :
    l'.Sound hd := by
  rw [Loading.take] at h
  obtain ⟨entry, hparse, h⟩ := bind_eq_ok.mp h
  have he := sound_of_parse hparse
  split at h
  next =>
      refine Sound.takeBase ?_ he h
      exact hl.congr rfl rfl
  next =>
      refine Sound.takeAppended ?_ he h
      exact hl.congr rfl rfl

theorem Sound.lines {raws : List (List Byte)} (hl : l.Sound hd)
    (h : Loading.lines hd line l raws = .ok l') : l'.Sound hd := by
  induction raws generalizing line l with
  | nil =>
      cases h
      exact hl
  | cons raw raws ih =>
      rw [Loading.lines] at h
      split at h
      next text _ =>
          obtain ⟨next, htake, h⟩ := bind_eq_ok.mp h
          exact ih (hl.take htake) h
      next =>
          split at h
          next => cases h
          next =>
          split at h
          next => cases h
          next =>
              cases h
              exact hl.congr rfl rfl

end Loading

/-- The derivation from keys is that of a keyed record. -/
theorem layout_of_tail {version : ℕ} {fields : List (List Byte)}
    {named : IdAllocation × Option VenueKeys} (h : Header.parseTail version fields = .ok named) :
    named.2 = none → named.1 ≠ .derivedKey := by
  have hend {named' : IdAllocation × Option VenueKeys} {rest : List (List Byte)}
      (h : (if rest = [] then Except.ok named' else .error
        (RecordError.malformed 1 "the header carries more fields than this format has")) =
          .ok named) :
      named' = named := by
    split at h
    next => exact Except.ok.inj h
    next => cases h
  rw [Header.parseTail] at h
  split at h
  next =>
      split at h
      next =>
          obtain ⟨_, ⟨⟩, h⟩ := bind_eq_ok.mp h
          obtain rfl := hend h
          rintro - ⟨⟩
      next =>
          obtain ⟨_, ⟨⟩, -⟩ := bind_eq_ok.mp h
  next =>
  split at h
  next =>
      obtain ⟨allocation, -, h⟩ := bind_eq_ok.mp h
      obtain ⟨venueKeys, -, h⟩ := bind_eq_ok.mp h
      obtain ⟨_, ⟨⟩, h⟩ := bind_eq_ok.mp h
      obtain rfl := hend h
      rintro ⟨⟩
  next =>
      obtain ⟨_, ⟨⟩, h⟩ := bind_eq_ok.mp h
      obtain rfl := hend h
      rintro - ⟨⟩

/-- The allocation and the keys that a header names fit together, and its numbers fit. -/
theorem header_of_parse {header : List Byte} {hd : Header} (h : Header.parse header = .ok hd) :
    hd.sourceId ≤ U16_MAX ∧ hd.nextId ≤ U32_MAX ∧
      (hd.keyed = none → hd.allocation ≠ .derivedKey) := by
  rw [Header.parse] at h
  split at h
  next => cases h
  next =>
  split at h
  next => cases h
  next version _ =>
  split at h
  next => cases h
  next =>
  split at h
  next => cases h
  next =>
  obtain ⟨sourceId, hsource, h⟩ := bind_eq_ok.mp h
  obtain ⟨nextId, hnext, h⟩ := bind_eq_ok.mp h
  extract_lets behind at h
  obtain ⟨base, h⟩ : ∃ base, behind base = .ok hd := by
    split at h
    next => exact ⟨none, h⟩
    next =>
        obtain ⟨base, -, h⟩ := bind_eq_ok.mp h
        exact ⟨base, h⟩
  obtain ⟨⟨allocation, keyed⟩, htail, h⟩ := bind_eq_ok.mp h
  cases h
  obtain ⟨_, -, hsourceId⟩ := Option.bind_eq_some_iff.mp (orMalformed_eq_ok hsource)
  obtain ⟨_, -, hnextId⟩ := Option.bind_eq_some_iff.mp (orMalformed_eq_ok hnext)
  exact ⟨(parseUnsigned_eq_some_iff.mp hsourceId).2, (parseUnsigned_eq_some_iff.mp hnextId).2,
    layout_of_tail htail⟩

/-- What a loader accepts is sound. -/
theorem sound_of_load {bytes : List Byte} {loaded : Loaded}
    (h : StateRecord.load bytes = .ok loaded) : loaded.record.Sound := by
  rw [StateRecord.load] at h
  split at h
  next => cases h
  next =>
  split at h
  next => cases h
  next header raws _ =>
  obtain ⟨hd, hheader, h⟩ := bind_eq_ok.mp h
  obtain ⟨l, hlines, h⟩ := bind_eq_ok.mp h
  split at h
  next => cases h
  next =>
  cases h
  obtain ⟨hsource, hnext, hlayout⟩ := header_of_parse hheader
  have hstart : Loading.Sound hd { runningNext := hd.nextId, complete := header.length } := {
    entries := ⟨List.nodup_nil, List.nodup_nil, by rintro e ⟨⟩, by rintro e ⟨⟩⟩
    next_le := le_rfl
    next_fits := hnext
    floor := fun _ ↦ rfl }
  have hl := hstart.lines hlines
  exact ⟨hsource, hl.next_fits, hlayout, hl.entries⟩

end EdgeMulticast.Refdata
