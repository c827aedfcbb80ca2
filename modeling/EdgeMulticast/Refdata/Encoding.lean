import EdgeMulticast.Refdata.Sound

/-!
# A base is read as it was written

The loader reads back the base of a sound record: its entries in the order of their identifiers,
each with its key written in the one way that a base writes it (`load_encode`).
-/

namespace EdgeMulticast.Refdata

open EdgeMulticast.Lib

/-- An entry as a base writes it: its key is left out where the Symbol says it. -/
def Entry.canonical (keyed : Bool) (e : Entry) : Entry :=
  if keyed then { e with venueKey := venueKeyField e.key e.symbol } else e

/-- The entries of a base, in the order of their identifiers. -/
def sorted (entries : List Entry) : List Entry :=
  entries.mergeSort (·.instrumentId ≤ ·.instrumentId)

/-- A record as it is read back. -/
def StateRecord.canonical (r : StateRecord) : StateRecord :=
  { r with entries := (sorted r.entries).map (Entry.canonical r.keyed.isSome) }

variable {keyed : Bool} {e : Entry} {allocation : IdAllocation} {nextId : ℕ}

/-! ## Keys -/

theorem isVenueKey_of_whole {symbol : SymbolKey} (h : symbolIsWhole symbol) :
    isVenueKey (unpadded symbol) := by
  rw [symbolIsWhole, Bool.and_eq_true, Bool.and_eq_true, decide_eq_true_eq, decide_eq_true_eq,
    decide_eq_true_eq] at h
  obtain ⟨⟨hne, hpadding⟩, hnul⟩ := h
  have hpos := List.length_pos_of_ne_nil hne
  rw [WHOLE_SYMBOL_PADDING, SYMBOL_LEN] at hpadding
  rw [isVenueKey, MAX_VENUE_KEY_LEN, Bool.and_eq_true, Bool.and_eq_true, decide_eq_true_eq,
    decide_eq_true_eq, decide_eq_true_eq]
  exact ⟨⟨hpos, by omega⟩, hnul⟩

theorem Entry.Sound.isVenueKey_key (h : e.Sound true) : isVenueKey e.key := by
  cases hkey : e.venueKey with
  | none =>
      rw [Entry.key, hkey]
      exact isVenueKey_of_whole (h.whole rfl hkey)
  | some key =>
      rw [Entry.key, hkey]
      exact h.stated key hkey

theorem key_venueKeyField (key : List Byte) (symbol : SymbolKey) :
    (venueKeyField key symbol).getD (unpadded symbol) = key := by
  rw [venueKeyField]
  split
  next h =>
      rw [Bool.and_eq_true, decide_eq_true_eq] at h
      exact h.2
  next => rfl

@[simp] theorem canonical_key (h : e.Sound keyed) : (e.canonical keyed).key = e.key := by
  cases keyed with
  | true => exact key_venueKeyField e.key e.symbol
  | false => rfl

@[simp] theorem canonical_id : (e.canonical keyed).instrumentId = e.instrumentId := by
  cases keyed <;> rfl

@[simp] theorem canonical_symbol : (e.canonical keyed).symbol = e.symbol := by
  cases keyed <;> rfl

theorem canonical_recallKey (h : e.Sound keyed) :
    (e.canonical keyed).recallKey keyed = e.recallKey keyed := by
  cases keyed with
  | true => exact canonical_key h
  | false => rfl

theorem canonical_placed (h : e.Sound keyed) (hplaced : e.Placed allocation nextId) :
    (e.canonical keyed).Placed allocation nextId := by
  rw [Entry.Placed] at hplaced ⊢
  have hderivation : derivation allocation (e.canonical keyed) = derivation allocation e := by
    cases allocation with
    | sequential => rfl
    | derived => rw [derivation, derivation, canonical_symbol]
    | derivedKey => rw [derivation, derivation, canonical_key h]
  rwa [canonical_id, hderivation]

/-! ## Texts -/

theorem plainField_ascii {s : String}
    (h : (ascii s).all fun b ↦ b < 0x80 && b ≠ SPACE && b ≠ NEWLINE) : PlainField (ascii s) := by
  intro b hb
  have hall := List.all_eq_true.mp h b hb
  rw [Bool.and_eq_true, Bool.and_eq_true, decide_eq_true_eq, decide_eq_true_eq,
    decide_eq_true_eq] at hall
  exact ⟨hall.1.1, hall.1.2, hall.2⟩

theorem plainField_venueKeyText (key : Option (List Byte)) : PlainField (venueKeyText key) := by
  cases key with
  | none => exact plainField_ascii (by decide)
  | some key => exact plainField_hex key

theorem plainField_allocation (allocation : IdAllocation) : PlainField allocation.tag := by
  cases allocation <;> exact plainField_ascii (by decide)

theorem plainField_venueKeys (venueKeys : VenueKeys) : PlainField venueKeys.tag := by
  cases venueKeys <;> exact plainField_ascii (by decide)

/-- The fields of a base entry. -/
def baseFields (keyed : Bool) (e : Entry) : List (List Byte) :=
  decimal e.instrumentId :: hex e.symbol.toList :: StateRecord.entryTail keyed e

theorem plain_baseFields (keyed : Bool) (e : Entry) :
    ∀ text ∈ baseFields keyed e, PlainField text := by
  intro text htext
  rw [baseFields, StateRecord.entryTail, List.mem_cons, List.mem_cons, List.mem_append] at htext
  rcases htext with rfl | rfl | htext | htext
  · exact plainField_decimal _
  · exact plainField_hex _
  · split at htext
    · rw [List.mem_singleton.mp htext]
      exact plainField_venueKeyText _
    · cases htext
  · rw [Option.mem_toList, Option.map_eq_some_iff] at htext
    obtain ⟨t, -, rfl⟩ := htext
    exact plainField_decimal t

theorem plain_headerFields (r : StateRecord) : ∀ text ∈ r.headerFields, PlainField text := by
  intro text htext
  rw [StateRecord.headerFields, List.mem_append] at htext
  rcases htext with htext | htext
  · simp only [List.mem_cons, List.not_mem_nil, or_false] at htext
    rcases htext with rfl | rfl | rfl | rfl | rfl
    · exact plainField_ascii (by decide)
    all_goals exact plainField_decimal _
  · rw [StateRecord.headerTail] at htext
    split at htext
    next venueKeys _ =>
        rcases List.mem_pair.mp htext with rfl | rfl
        · exact plainField_allocation _
        · exact plainField_venueKeys _
    next =>
        split at htext
        next =>
            rw [List.mem_singleton.mp htext]
            exact plainField_allocation _
        next => cases htext

/-! ## Entries -/

theorem decodeSymbol_hex (symbol : SymbolKey) : decodeSymbol (hex symbol.toList) = some symbol := by
  have hlen : (hex symbol.toList).length = SYMBOL_LEN * 2 := by
    rw [length_hex, Vector.length_toList, Nat.mul_comm]
  rw [decodeSymbol, if_pos hlen, unhex_hex, Option.bind_some, dif_pos (Vector.length_toList ..)]
  exact congrArg some (Vector.toArray_inj.mp rfl)

theorem parseVenueKey_text {line instrumentId : ℕ} {key : List Byte} {symbol : SymbolKey}
    (hkey : isVenueKey key) :
    parseVenueKey line instrumentId symbol (some (venueKeyText (venueKeyField key symbol))) =
      .ok (venueKeyField key symbol) := by
  cases hfield : venueKeyField key symbol with
  | none =>
      have hwhole : symbolIsWhole symbol := by
        rw [venueKeyField] at hfield
        split at hfield
        next h =>
            rw [Bool.and_eq_true] at h
            exact h.1
        next => cases hfield
      rw [venueKeyText, parseVenueKey, if_pos rfl, if_pos hwhole]
  | some stated =>
      obtain rfl : stated = key := by
        rw [venueKeyField] at hfield
        split at hfield
        next => cases hfield
        next => exact (Option.some.inj hfield).symm
      have hne : hex stated ≠ SYMBOL_IS_KEY := by
        intro heq
        have hlen := congrArg List.length heq
        rw [length_hex] at hlen
        have hone : SYMBOL_IS_KEY.length = 1 := rfl
        omega
      have hdecode : decodeVenueKey (hex stated) = some stated := by
        rw [decodeVenueKey, length_hex, if_pos (Nat.mul_mod_right ..), unhex_hex, Option.bind_some,
          if_pos hkey]
      rw [venueKeyText, parseVenueKey, if_neg hne, hdecode]

/-- An entry is read as it is written, where its timestamp may be stated. -/
theorem parseEntry_line {hd : Header} {inBase : Bool} {line : ℕ} (he : e.Sound hd.keyed.isSome)
    (htime : parseTimestamp hd.version inBase line (e.delistedAt.map decimal) = .ok e.delistedAt) :
    parseEntry hd inBase line (fieldsText (baseFields hd.keyed.isSome e)) =
      .ok (e.canonical hd.keyed.isSome) := by
  have hfields := fields_line (plain_baseFields hd.keyed.isSome e) (List.cons_ne_nil _ _)
  have htime : parseTimestamp hd.version inBase line ((e.delistedAt.map decimal).toList).head? =
      .ok e.delistedAt := by rwa [Option.head?_toList]
  have hlength : ¬1 < ((e.delistedAt.map decimal).toList).length := by
    cases e.delistedAt with
    | none => exact Nat.not_lt_zero 1
    | some t => exact Nat.lt_irrefl 1
  have hid : orMalformed line "an entry's Instrument ID is not a number"
      (parseUnsigned U32_MAX (decimal e.instrumentId)) = .ok e.instrumentId := by
    rw [parseUnsigned_decimal he.id_fits]
    rfl
  have hsymbol : orMalformed line "an entry's Symbol is not 64 hexadecimal bytes"
      (decodeSymbol (hex e.symbol.toList)) = .ok e.symbol := by
    rw [decodeSymbol_hex]
    rfl
  have htail : (baseFields hd.keyed.isSome e).drop (if hd.keyed.isSome then 3 else 2) =
      (e.delistedAt.map decimal).toList := by
    cases hd.keyed.isSome <;> rfl
  rw [parseEntry, hfields]
  refine bind_eq_ok.mpr ⟨hex e.symbol.toList, rfl, ?_⟩
  extract_lets rest behind
  have hrest : rest = (e.delistedAt.map decimal).toList := htail
  have hbehind {keyText venueKey : Option (List Byte)}
      (hkey : parseVenueKey line e.instrumentId e.symbol keyText = .ok venueKey) :
      behind keyText = .ok { e with venueKey } := by
    refine bind_eq_ok.mpr ⟨e.delistedAt, hrest ▸ htime, ?_⟩
    rw [if_neg (show ¬1 < rest.length from hrest ▸ hlength)]
    refine bind_eq_ok.mpr ⟨e.instrumentId, hid, ?_⟩
    rw [if_neg he.id_ne]
    exact bind_eq_ok.mpr ⟨e.symbol, hsymbol, bind_eq_ok.mpr ⟨venueKey, hkey, rfl⟩⟩
  cases hkeyed : hd.keyed.isSome with
  | false =>
      have hkey : e.venueKey = none := he.unkeyed hkeyed
      rw [if_neg Bool.false_ne_true]
      refine bind_eq_ok.mpr ⟨none, rfl, (hbehind rfl).trans ?_⟩
      rw [← hkey]
      rfl
  | true =>
      rw [if_pos rfl]
      exact bind_eq_ok.mpr ⟨_, rfl, hbehind (parseVenueKey_text (hkeyed ▸ he).isVenueKey_key)⟩

/-- An entry of a base is read as it is written. -/
theorem parseEntry_base {hd : Header} {line : ℕ} (he : e.Sound hd.keyed.isSome)
    (hversion : hd.version ≠ FORMAT_VERSION_V1) :
    parseEntry hd true line (fieldsText (baseFields hd.keyed.isSome e)) =
      .ok (e.canonical hd.keyed.isSome) := by
  refine parseEntry_line he ?_
  cases htime : e.delistedAt with
  | none => rfl
  | some t =>
      have hparse := parseUnsigned_decimal (he.time_fits t htime)
      rw [Option.map_some, parseTimestamp, if_neg hversion, if_neg (by decide), hparse]
      rfl

/-! ## Bases -/

theorem eq_of_venueKeyField {key key' : List Byte} {symbol : SymbolKey}
    (h : venueKeyField key symbol = some key') : key' = key := by
  rw [venueKeyField] at h
  split at h
  next => cases h
  next => exact (Option.some.inj h).symm

theorem whole_of_venueKeyField {key : List Byte} {symbol : SymbolKey}
    (h : venueKeyField key symbol = none) : symbolIsWhole symbol := by
  rw [venueKeyField] at h
  split at h
  next hwhole =>
      rw [Bool.and_eq_true] at hwhole
      exact hwhole.1
  next => cases h

theorem canonical_sound (h : e.Sound keyed) : (e.canonical keyed).Sound keyed := by
  cases keyed with
  | false => exact h
  | true =>
      refine { h with unkeyed := by rintro ⟨⟩, stated := ?_, whole := ?_ }
      · intro key hkey
        exact eq_of_venueKeyField hkey ▸ h.isVenueKey_key
      · intro _ hkey
        exact whole_of_venueKeyField hkey

theorem map_canonical_id (keyed : Bool) (es : List Entry) :
    (es.map (Entry.canonical keyed)).map Entry.instrumentId = es.map Entry.instrumentId := by
  rw [List.map_map]
  exact List.map_congr_left fun e _ ↦ canonical_id

theorem map_canonical_recallKey {es : List Entry} (h : ∀ e ∈ es, e.Sound keyed) :
    (es.map (Entry.canonical keyed)).map (Entry.recallKey keyed) =
      es.map (Entry.recallKey keyed) := by
  rw [List.map_map]
  exact List.map_congr_left fun e he ↦ canonical_recallKey (h e he)

theorem SoundEntries.canonical {es : List Entry} (h : SoundEntries allocation keyed nextId es) :
    SoundEntries allocation keyed nextId (es.map (Entry.canonical keyed)) where
  ids := (map_canonical_id keyed es).symm ▸ h.ids
  keys := (map_canonical_recallKey h.sound).symm ▸ h.keys
  sound e he := by
    obtain ⟨e', he', rfl⟩ := List.mem_map.mp he
    exact canonical_sound (h.sound e' he')
  placed e he := by
    obtain ⟨e', he', rfl⟩ := List.mem_map.mp he
    exact canonical_placed (h.sound e' he') (h.placed e' he')

theorem SoundEntries.perm {es es' : List Entry} (h : SoundEntries allocation keyed nextId es)
    (hperm : es'.Perm es) : SoundEntries allocation keyed nextId es' where
  ids := (hperm.map _).nodup_iff.mpr h.ids
  keys := (hperm.map _).nodup_iff.mpr h.keys
  sound e he := h.sound e (hperm.mem_iff.mp he)
  placed e he := h.placed e (hperm.mem_iff.mp he)

/-- What is behind the entries that were read is new. -/
theorem SoundEntries.new {es es' : List Entry}
    (h : SoundEntries allocation keyed nextId (es ++ e :: es')) :
    e.instrumentId ∉ es.map Entry.instrumentId ∧
      e.recallKey keyed ∉ es.map (Entry.recallKey keyed) := by
  have hids := h.ids
  have hkeys := h.keys
  rw [List.map_append, List.map_cons] at hids hkeys
  exact ⟨fun hmem ↦ List.disjoint_of_nodup_append hids hmem List.mem_cons_self,
    fun hmem ↦ List.disjoint_of_nodup_append hkeys hmem List.mem_cons_self⟩

namespace Loading

variable {hd : Header} {l : Loading} {line : ℕ}

theorem hold_of_new {entries : List Entry}
    (h : e.recallKey keyed ∉ entries.map (Entry.recallKey keyed)) : hold keyed entries e = .ok () := by
  have hnew : ∀ e' ∈ entries, ¬(if keyed then e'.key = e.key else e'.symbol = e.symbol) := by
    intro e' he' heq
    exact h (List.mem_map.mpr ⟨e', he', recallKey_eq_iff.mpr heq⟩)
  rw [hold]
  cases keyed with
  | true =>
      have hnone : entries.find? (·.key = e.key) = none :=
        List.find?_eq_none.mpr fun e' he' heq ↦ hnew e' he' (of_decide_eq_true heq)
      rw [if_pos rfl, hnone]
  | false =>
      have hnone : entries.find? (·.symbol = e.symbol) = none :=
        List.find?_eq_none.mpr fun e' he' heq ↦ hnew e' he' (of_decide_eq_true heq)
      rw [if_neg Bool.false_ne_true, hnone]

theorem push_of_new (h : e.recallKey hd.keyed.isSome ∉ l.entries.map (Entry.recallKey hd.keyed.isSome)) :
    l.push hd e = .ok { l with entries := l.entries ++ [e] } := by
  rw [push, hold_of_new h]
  rfl

/-- An entry of a base whose identifier and key are new. -/
theorem takeBase_of_new (hplaced : e.Placed hd.allocation hd.nextId)
    (hid : e.instrumentId ∉ l.entries.map Entry.instrumentId)
    (hkey : e.recallKey hd.keyed.isSome ∉ l.entries.map (Entry.recallKey hd.keyed.isSome)) :
    l.takeBase hd line e = .ok { l with entries := l.entries ++ [e] } := by
  have hnew : ¬l.entries.any (·.instrumentId = e.instrumentId) := by
    intro hany
    obtain ⟨e', he', heq⟩ := List.any_eq_true.mp hany
    exact hid (List.mem_map.mpr ⟨e', he', of_decide_eq_true heq⟩)
  rw [Entry.Placed] at hplaced
  rw [Loading.takeBase]
  split at hplaced
  next hderived =>
      rw [if_neg fun h ↦ h.2.2 (hplaced h.2.1), if_neg fun h ↦ h.1 hderived, if_neg hnew,
        push_of_new hkey]
  next hderived =>
      rw [if_neg fun h ↦ hderived h.1, if_neg fun h ↦ absurd hplaced (Nat.not_lt_of_le h.2),
        if_neg hnew, push_of_new hkey]

theorem stripNewline_base (keyed : Bool) (e : Entry) :
    stripNewline (StateRecord.baseLine keyed e) = some (fieldsText (baseFields keyed e)) :=
  stripNewline_line _

theorem length_baseLine (keyed : Bool) (e : Entry) :
    (StateRecord.baseLine keyed e).length = (fieldsText (baseFields keyed e)).length + 1 :=
  List.length_append

/-- The entries of a base are read one by one, whatever lines follow. -/
theorem lines_base {es : List Entry} {raws : List (List Byte)}
    (hbase : ∀ n ∈ hd.base, l.read + es.length ≤ n) (hversion : hd.version ≠ FORMAT_VERSION_V1)
    (hsound : ∀ e ∈ es, e.Sound hd.keyed.isSome)
    (hes : SoundEntries hd.allocation hd.keyed.isSome hd.nextId
      (l.entries ++ es.map (Entry.canonical hd.keyed.isSome))) :
    Loading.lines hd line l (es.map (StateRecord.baseLine hd.keyed.isSome) ++ raws) =
      Loading.lines hd (line + es.length)
        { l with
          entries := l.entries ++ es.map (Entry.canonical hd.keyed.isSome)
          read := l.read + es.length
          complete := l.complete + (es.map (StateRecord.baseLine hd.keyed.isSome)).flatten.length }
        raws := by
  induction es generalizing l line with
  | nil => simp only [List.map_nil, List.nil_append, List.append_nil, List.length_nil,
      List.flatten_nil, Nat.add_zero]
  | cons e es ih =>
      have hinBase : hd.base.all (l.read < ·) = true := by
        rw [Option.all_eq_true]
        intro n hn
        have hle := hbase n hn
        rw [List.length_cons] at hle
        exact decide_eq_true (by omega)
      obtain ⟨hid, hkey⟩ := hes.new
      have hplaced := hes.placed _ (List.mem_append_right _ List.mem_cons_self)
      have htake : l.take hd line (fieldsText (baseFields hd.keyed.isSome e)) = .ok
          { l with
            entries := l.entries ++ [e.canonical hd.keyed.isSome]
            read := l.read + 1
            complete := l.complete + (StateRecord.baseLine hd.keyed.isSome e).length } := by
        rw [Loading.take, hinBase]
        refine bind_eq_ok.mpr ⟨_, parseEntry_base (hsound e List.mem_cons_self) hversion, ?_⟩
        rw [if_pos rfl, if_pos rfl, length_baseLine]
        exact takeBase_of_new hplaced hid hkey
      rw [List.map_cons, List.cons_append, Loading.lines, stripNewline_base]
      dsimp only
      rw [htake]
      refine (ih ?_ ?_ ?_).trans ?_
      · intro n hn
        have hle := hbase n hn
        rw [List.length_cons] at hle
        dsimp only
        omega
      · exact fun e' he' ↦ hsound e' (List.mem_cons_of_mem _ he')
      · rw [List.append_assoc]
        exact hes
      · have hline : line + 1 + es.length = line + (e :: es).length := by
          rw [List.length_cons]
          omega
        have hread : l.read + 1 + es.length = l.read + (e :: es).length := by
          rw [List.length_cons]
          omega
        have hcomplete : l.complete + (StateRecord.baseLine hd.keyed.isSome e).length +
            (es.map (StateRecord.baseLine hd.keyed.isSome)).flatten.length =
            l.complete + ((e :: es).map (StateRecord.baseLine hd.keyed.isSome)).flatten.length := by
          rw [List.map_cons, List.flatten_cons, List.length_append, Nat.add_assoc]
        rw [hline, hread, hcomplete, List.append_assoc]
        rfl

end Loading

/-! ## Headers -/

variable {r : StateRecord}

/-- What the header of a record states. -/
def StateRecord.stated (r : StateRecord) : Header where
  version := layoutVersion r.allocation r.keyed.isSome
  sourceId := r.sourceId
  nextId := r.nextId
  base := some r.entries.length
  allocation := r.allocation
  keyed := r.keyed

/-- There are no more entries than identifiers. -/
theorem StateRecord.Sound.length_le (h : r.Sound) : r.entries.length ≤ USIZE_MAX := by
  have hsubset : r.entries.map Entry.instrumentId ⊆ List.range (U32_MAX + 1) := by
    intro id hid
    obtain ⟨e, he, rfl⟩ := List.mem_map.mp hid
    exact List.mem_range.mpr (Nat.lt_succ_of_le (h.entries.sound e he).id_fits)
  have hlen := (List.subperm_of_subset h.entries.ids hsubset).length_le
  rw [List.length_map, List.length_range] at hlen
  exact hlen.trans (by decide)

theorem fromTag_allocation (allocation : IdAllocation) :
    IdAllocation.fromTag allocation.tag = some allocation := by
  cases allocation <;> decide

theorem fromTag_venueKeys (venueKeys : VenueKeys) :
    VenueKeys.fromTag venueKeys.tag = some venueKeys := by
  cases venueKeys <;> decide

theorem parseTail_headerTail (h : r.Sound) :
    Header.parseTail (layoutVersion r.allocation r.keyed.isSome) r.headerTail =
      .ok (r.allocation, r.keyed) := by
  cases hkeyed : r.keyed with
  | some venueKeys =>
      have htail : r.headerTail = [r.allocation.tag, venueKeys.tag] := by
        rw [StateRecord.headerTail, hkeyed]
      have hversion : layoutVersion r.allocation (some venueKeys).isSome = FORMAT_VERSION_KEYED := rfl
      rw [htail, hversion, Header.parseTail, if_neg (by decide), if_pos rfl]
      refine bind_eq_ok.mpr ⟨r.allocation, ?_, bind_eq_ok.mpr ⟨venueKeys, ?_, rfl⟩⟩
      · rw [List.head?_cons, Option.bind_some, fromTag_allocation]
        rfl
      · rw [List.tail_cons, List.head?_cons, Option.bind_some, fromTag_venueKeys]
        rfl
  | none =>
      have htail : r.headerTail = if r.allocation = .derived then [IdAllocation.derived.tag] else [] := by
        rw [StateRecord.headerTail, hkeyed]
      rw [htail]
      cases hallocation : r.allocation with
      | sequential => rfl
      | derived =>
          rw [if_pos rfl, Header.parseTail]
          exact if_pos rfl
      | derivedKey => exact absurd hallocation (h.layout hkeyed)

theorem layoutVersion_mem (allocation : IdAllocation) (keyed : Bool) :
    layoutVersion allocation keyed ∈
      [FORMAT_VERSION, FORMAT_VERSION_V1, FORMAT_VERSION_DERIVED, FORMAT_VERSION_KEYED] ∧
    layoutVersion allocation keyed ≠ FORMAT_VERSION_V1 ∧
    layoutVersion allocation keyed ≤ U32_MAX := by
  cases allocation <;> cases keyed <;> decide

theorem header_eq (r : StateRecord) : r.header = fieldsText r.headerFields ++ [NEWLINE] := rfl

/-- The header is read as it is written. -/
theorem parse_header (h : r.Sound) : Header.parse r.header = .ok r.stated := by
  have hplain := plain_headerFields r
  have hfields : (trimNewlines r.header).splitOn SPACE = r.headerFields := by
    rw [header_eq, trimNewlines_line (NEWLINE_notMem_fieldsText hplain),
      fields_line hplain (List.cons_ne_nil _ _)]
  obtain ⟨hmem, hne, hfits⟩ := layoutVersion_mem r.allocation r.keyed.isSome
  have hversion : (r.headerFields[1]?.bind (parseUnsigned U32_MAX)) =
      some (layoutVersion r.allocation r.keyed.isSome) := parseUnsigned_decimal hfits
  have htag : r.headerFields.head? = some FORMAT_TAG := rfl
  rw [Header.parse, hfields, if_neg (not_not.mpr htag)]
  dsimp only
  rw [hversion]
  dsimp only
  rw [if_neg (not_not.mpr hmem), if_neg (by rw [header_eq, stripNewline_line]; rintro ⟨⟩)]
  refine bind_eq_ok.mpr ⟨r.sourceId, ?_, bind_eq_ok.mpr ⟨r.nextId, ?_, ?_⟩⟩
  · exact congrArg (orMalformed 1 _) (parseUnsigned_decimal h.source_fits)
  · exact congrArg (orMalformed 1 _) (parseUnsigned_decimal h.next_fits)
  rw [if_neg hne]
  refine bind_eq_ok.mpr ⟨some r.entries.length, ?_, ?_⟩
  · exact congrArg (fun o ↦ (orMalformed 1 _ o).map some) (parseUnsigned_decimal h.length_le)
  · exact bind_eq_ok.mpr ⟨(r.allocation, r.keyed), parseTail_headerTail h, rfl⟩

/-! ## Records -/

theorem sorted_perm (entries : List Entry) : (sorted entries).Perm entries :=
  List.mergeSort_perm _ _

/-- The texts of the lines of a base. -/
def StateRecord.texts (r : StateRecord) : List (List Byte) :=
  fieldsText r.headerFields ::
    (sorted r.entries).map fun e ↦ fieldsText (baseFields r.keyed.isSome e)

theorem encode_eq (r : StateRecord) : r.encode = (r.texts.map (· ++ [NEWLINE])).flatten := by
  rw [StateRecord.encode, StateRecord.texts, List.map_cons, List.flatten_cons, List.map_map]
  rfl

theorem plain_texts (r : StateRecord) : ∀ text ∈ r.texts, NEWLINE ∉ text ∧ ∀ b ∈ text, b < 0x80 := by
  intro text htext
  rw [StateRecord.texts, List.mem_cons, List.mem_map] at htext
  rcases htext with rfl | ⟨e, -, rfl⟩
  · exact ⟨NEWLINE_notMem_fieldsText (plain_headerFields r), ascii_fieldsText (plain_headerFields r)⟩
  · exact ⟨NEWLINE_notMem_fieldsText (plain_baseFields _ e), ascii_fieldsText (plain_baseFields _ e)⟩

theorem ascii_encode (r : StateRecord) : ∀ b ∈ r.encode, b < 0x80 := by
  intro b hb
  rw [encode_eq] at hb
  obtain ⟨line, hline, hb⟩ := List.mem_flatten.mp hb
  obtain ⟨text, htext, rfl⟩ := List.mem_map.mp hline
  rcases List.mem_append.mp hb with hb | hb
  · exact (plain_texts r text htext).2 b hb
  · rw [List.mem_singleton.mp hb]
    decide

theorem linesOf_encode (r : StateRecord) (more : List Byte) :
    linesOf (r.encode ++ more) = r.header ::
      ((sorted r.entries).map (StateRecord.baseLine r.keyed.isSome) ++ linesOf more) := by
  rw [encode_eq, linesOf_flatten fun text htext ↦ (plain_texts r text htext).1, StateRecord.texts,
    List.map_cons, List.map_map, List.cons_append]
  rfl

/-- What the loader has read behind the base of a record. -/
def StateRecord.baseRead (r : StateRecord) : Loading where
  entries := r.canonical.entries
  runningNext := r.nextId
  read := r.entries.length
  complete := r.encode.length

theorem lines_encode (h : r.Sound) (raws : List (List Byte)) :
    Loading.lines r.stated 2 { runningNext := r.nextId, complete := r.header.length }
        ((sorted r.entries).map (StateRecord.baseLine r.keyed.isSome) ++ raws) =
      Loading.lines r.stated (2 + r.entries.length) r.baseRead raws := by
  have hsorted := h.entries.perm (sorted_perm r.entries)
  have hlength := (sorted_perm r.entries).length_eq
  have hversion : r.stated.version ≠ FORMAT_VERSION_V1 := (layoutVersion_mem _ _).2.1
  have hsound : ∀ e ∈ sorted r.entries, e.Sound r.stated.keyed.isSome := hsorted.sound
  refine (Loading.lines_base ?_ hversion hsound ?_).trans ?_
  · intro n hn
    obtain rfl := Option.some.inj hn
    rw [hlength, Nat.zero_add]
  · exact hsorted.canonical
  · rw [hlength, Nat.zero_add, StateRecord.baseRead, StateRecord.encode, List.length_append]
    rfl

/-- **A base is read as it was written.** -/
theorem load_encode (h : r.Sound) : StateRecord.load r.encode = .ok {
    record := r.canonical
    version := layoutVersion r.allocation r.keyed.isSome
    base := r.entries.length
    appended := 0
    torn := false
    complete := r.encode.length } := by
  have hlines := linesOf_encode r []
  rw [List.append_nil] at hlines
  rw [StateRecord.load, isUtf8_of_ascii (ascii_encode r), hlines]
  refine bind_eq_ok.mpr ⟨r.stated, parse_header h, bind_eq_ok.mpr ⟨r.baseRead, ?_, ?_⟩⟩
  · exact lines_encode h []
  · have hwhole : ¬r.stated.base.any (r.baseRead.read < ·) := by
      rw [StateRecord.stated, Option.any_some, decide_eq_true_eq]
      exact Nat.lt_irrefl _
    rw [if_neg hwhole]
    rfl

/-- What was read back is written as it was. -/
theorem encode_canonical (h : r.Sound) : r.canonical.encode = r.encode := by
  have hsorted : sorted r.canonical.entries = r.canonical.entries := by
    refine List.mergeSort_of_pairwise (List.pairwise_map.mpr ?_)
    refine (List.pairwise_mergeSort (fun a b c hab hbc ↦ ?_) (fun a b ↦ ?_) r.entries).imp ?_
    · exact decide_eq_true ((of_decide_eq_true hab).trans (of_decide_eq_true hbc))
    · rw [Bool.or_eq_true, decide_eq_true_eq, decide_eq_true_eq]
      exact Nat.le_total _ _
    · intro a b hab
      rwa [canonical_id, canonical_id]
  have hfields : ∀ e ∈ sorted r.entries, baseFields r.keyed.isSome (e.canonical r.keyed.isSome) =
      baseFields r.keyed.isSome e := by
    intro e he
    have hsound := h.entries.sound e ((sorted_perm r.entries).mem_iff.mp he)
    have htime : (e.canonical r.keyed.isSome).delistedAt = e.delistedAt := by
      rw [Entry.canonical]
      split <;> rfl
    rw [baseFields, baseFields, StateRecord.entryTail, StateRecord.entryTail, canonical_id,
      canonical_symbol, canonical_key hsound, htime]
  have hlength : r.canonical.entries.length = r.entries.length :=
    (List.length_map _).trans (sorted_perm r.entries).length_eq
  have hheader : r.canonical.headerFields = r.headerFields := by
    rw [StateRecord.headerFields, hlength]
    rfl
  have htexts : r.canonical.texts = r.texts := by
    rw [StateRecord.texts, StateRecord.texts, hheader, hsorted]
    refine congrArg (_ :: ·) ((List.map_map ..).trans (List.map_congr_left fun e he ↦ ?_))
    exact congrArg fieldsText (hfields e he)
  rw [encode_eq, encode_eq, htexts]

end EdgeMulticast.Refdata
