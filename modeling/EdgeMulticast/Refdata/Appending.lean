import EdgeMulticast.Refdata.Encoding

/-!
# Lines behind a base

An append states one entry: a new one, or one that the record holds as delisted.  The loader tells
the two apart by what it has read (`Reads.take`), so what it makes of a record with lines behind it
is what the lines make of the record that was there, wherever the file is cut (`load_cut`).
-/

namespace EdgeMulticast.Refdata

open EdgeMulticast.Lib

/-- An entry that is listed again, if it is the one of this identifier. -/
def Entry.relisted (instrumentId : ℕ) (e : Entry) : Entry :=
  if e.instrumentId = instrumentId then { e with delistedAt := none } else e

/-- A record behind one more line. -/
def StateRecord.append (r : StateRecord) (e : Entry) : StateRecord :=
  if e.instrumentId ∈ r.entries.map Entry.instrumentId then
    { r with entries := r.entries.map (Entry.relisted e.instrumentId) }
  else { r with
    entries := r.entries ++ [e]
    nextId := if r.allocation.isDerived then r.nextId else r.nextId + 1 }

/-- A line that lists an entry again. -/
def Restates (r : StateRecord) (e : Entry) : Prop :=
  ∃ known ∈ r.entries, known.instrumentId = e.instrumentId ∧ known.symbol = e.symbol ∧
    known.key = e.key

/-- A line that mints an identifier. -/
structure Mints (r : StateRecord) (e : Entry) : Prop where
  id_new : e.instrumentId ∉ r.entries.map Entry.instrumentId
  key_new : e.recallKey r.keyed.isSome ∉ r.entries.map (Entry.recallKey r.keyed.isSome)
  place : if r.allocation.isDerived then
      some e.instrumentId = derivation r.allocation e ∧ r.nextId ≤ e.instrumentId
    else e.instrumentId = r.nextId ∧ r.nextId + 1 ≤ U32_MAX

/-- An entry that an append states. -/
structure Appendable (r : StateRecord) (e : Entry) : Prop where
  sound : e.Sound r.keyed.isSome
  listed : e.delistedAt = none
  canonical : e.canonical r.keyed.isSome = e
  takes : Restates r e ∨ Mints r e

/-- Entries that are appended one behind the other. -/
def Appends : StateRecord → List Entry → Prop
  | _, [] => True
  | r, e :: es => Appendable r e ∧ Appends (r.append e) es

/-- A record behind its lines. -/
def StateRecord.appendAll (r : StateRecord) (es : List Entry) : StateRecord :=
  es.foldl StateRecord.append r

variable {r : StateRecord} {e : Entry} {es : List Entry} {keyed : Bool} {id : ℕ}

/-! ## What a line leaves -/

@[simp] theorem relisted_id : (e.relisted id).instrumentId = e.instrumentId := by
  rw [Entry.relisted]
  split <;> rfl

@[simp] theorem relisted_symbol : (e.relisted id).symbol = e.symbol := by
  rw [Entry.relisted]
  split <;> rfl

@[simp] theorem relisted_venueKey : (e.relisted id).venueKey = e.venueKey := by
  rw [Entry.relisted]
  split <;> rfl

@[simp] theorem relisted_key : (e.relisted id).key = e.key := by
  rw [Entry.key, Entry.key, relisted_venueKey, relisted_symbol]

@[simp] theorem relisted_recallKey : (e.relisted id).recallKey keyed = e.recallKey keyed := by
  rw [recallKey_eq_iff, relisted_key, relisted_symbol]
  cases keyed <;> rfl

theorem relisted_sound (h : e.Sound keyed) : (e.relisted id).Sound keyed := by
  rw [Entry.relisted]
  split
  next => exact { h with time_fits := by rintro t ⟨⟩ }
  next => exact h

theorem relisted_placed {allocation : IdAllocation} {nextId : ℕ} (h : e.Placed allocation nextId) :
    (e.relisted id).Placed allocation nextId := by
  have hderivation : derivation allocation (e.relisted id) = derivation allocation e := by
    cases allocation with
    | sequential => rfl
    | derived => rw [derivation, derivation, relisted_symbol]
    | derivedKey => rw [derivation, derivation, relisted_key]
  rw [Entry.Placed] at h ⊢
  rwa [relisted_id, hderivation]

theorem map_relisted_id (id : ℕ) (es : List Entry) :
    (es.map (Entry.relisted id)).map Entry.instrumentId = es.map Entry.instrumentId := by
  rw [List.map_map]
  exact List.map_congr_left fun e _ ↦ relisted_id

theorem map_relisted_recallKey (id : ℕ) (es : List Entry) :
    (es.map (Entry.relisted id)).map (Entry.recallKey keyed) = es.map (Entry.recallKey keyed) := by
  rw [List.map_map]
  exact List.map_congr_left fun e _ ↦ relisted_recallKey

theorem SoundEntries.relisted {allocation : IdAllocation} {nextId : ℕ}
    (h : SoundEntries allocation keyed nextId es) :
    SoundEntries allocation keyed nextId (es.map (Entry.relisted id)) where
  ids := (map_relisted_id id es).symm ▸ h.ids
  keys := (map_relisted_recallKey id es).symm ▸ h.keys
  sound e he := by
    obtain ⟨e', he', rfl⟩ := List.mem_map.mp he
    exact relisted_sound (h.sound e' he')
  placed e he := by
    obtain ⟨e', he', rfl⟩ := List.mem_map.mp he
    exact relisted_placed (h.placed e' he')

@[simp] theorem append_keyed : (r.append e).keyed = r.keyed := by
  rw [StateRecord.append]
  split <;> rfl

@[simp] theorem append_allocation : (r.append e).allocation = r.allocation := by
  rw [StateRecord.append]
  split <;> rfl

@[simp] theorem append_sourceId : (r.append e).sourceId = r.sourceId := by
  rw [StateRecord.append]
  split <;> rfl

theorem append_of_restates (h : Restates r e) :
    r.append e = { r with entries := r.entries.map (Entry.relisted e.instrumentId) } := by
  obtain ⟨known, hknown, hid, -⟩ := h
  exact if_pos (List.mem_map.mpr ⟨known, hknown, hid⟩)

theorem append_of_mints (h : Mints r e) : r.append e = { r with
    entries := r.entries ++ [e]
    nextId := if r.allocation.isDerived then r.nextId else r.nextId + 1 } := if_neg h.id_new

/-- A line leaves a sound record. -/
theorem StateRecord.Sound.append (h : r.Sound) (he : Appendable r e) : (r.append e).Sound := by
  rcases he.takes with hrestates | hmints
  · rw [append_of_restates hrestates]
    exact ⟨h.source_fits, h.next_fits, h.layout, h.entries.relisted⟩
  · rw [append_of_mints hmints]
    have hplace := hmints.place
    have hle : r.nextId ≤ if r.allocation.isDerived then r.nextId else r.nextId + 1 := by
      split
      · exact Nat.le_refl _
      · exact Nat.le_succ _
    refine ⟨h.source_fits, ?_, h.layout, (h.entries.mono hle).snoc hmints.id_new hmints.key_new
      he.sound ?_⟩
    · dsimp only
      split
      next => exact h.next_fits
      next hderived =>
          rw [if_neg hderived] at hplace
          exact hplace.2
    · rw [Entry.Placed]
      split
      next hderived =>
          rw [if_pos hderived] at hplace
          exact fun _ ↦ hplace.1
      next hderived =>
          rw [if_neg hderived] at hplace
          rw [hplace.1]
          exact Nat.lt_succ_self _

theorem Appends.take (hes : Appends r es) (k : ℕ) : Appends r (es.take k) := by
  induction es generalizing r k with
  | nil => rwa [List.take_nil]
  | cons e es ih =>
      cases k with
      | zero => trivial
      | succ k => exact ⟨hes.1, ih hes.2 k⟩

/-! ## What the loader makes of it -/

variable {hd : Header} {l : Loading} {line : ℕ}

/-- What has been read is this record, and the base is behind. -/
structure Reads (hd : Header) (l : Loading) (r : StateRecord) : Prop where
  entries : l.entries = r.entries
  next : l.runningNext = r.nextId
  keyed : r.keyed = hd.keyed
  allocation : r.allocation = hd.allocation
  floor : hd.allocation.isDerived → r.nextId = hd.nextId
  behind : hd.base.all (l.read < ·) = false

/-- The entry that an identifier finds is the one that is listed again. -/
theorem set_eq_map_relisted {i : ℕ} {known : Entry} (hids : (es.map Entry.instrumentId).Nodup)
    (hi : es[i]? = some known) (hid : known.instrumentId = id) :
    es.set i { known with delistedAt := none } = es.map (Entry.relisted id) := by
  obtain ⟨hlt, hget⟩ := List.getElem?_eq_some_iff.mp hi
  refine List.ext_getElem (by rw [List.length_set, List.length_map]) fun j hj hj' ↦ ?_
  rw [List.length_set] at hj
  rw [List.getElem_set, List.getElem_map, Entry.relisted]
  split
  next heq =>
      subst heq
      rw [hget, if_pos hid]
  next hne =>
      rw [if_neg]
      intro hsame
      have hi' : (es.map Entry.instrumentId)[i]? = some id := by
        rw [List.getElem?_map, hi, Option.map_some, hid]
      have hj' : (es.map Entry.instrumentId)[j]? = some id := by
        rw [List.getElem?_map, List.getElem?_eq_getElem hj, Option.map_some, hsame]
      have hlen : i < (es.map Entry.instrumentId).length := by rwa [List.length_map]
      exact hne ((List.getElem?_inj hlen hids).mp (hi'.trans hj'.symm))

/-- What the loader has read behind one more line. -/
def Loading.behindLine (l : Loading) (r : StateRecord) (e : Entry) : Loading :=
  { l with
    entries := (r.append e).entries
    runningNext := (r.append e).nextId
    read := l.read + 1
    appended := l.appended + 1
    complete := l.complete + (StateRecord.baseLine r.keyed.isSome e).length }

theorem Reads.behindLine (h : Reads hd l r) (he : Appendable r e) :
    Reads hd (l.behindLine r e) (r.append e) where
  entries := rfl
  next := rfl
  keyed := append_keyed.trans h.keyed
  allocation := append_allocation.trans h.allocation
  floor hderived := by
    rcases he.takes with hrestates | hmints
    · rw [append_of_restates hrestates]
      exact h.floor hderived
    · rw [append_of_mints hmints]
      exact (if_pos (h.allocation ▸ hderived)).trans (h.floor hderived)
  behind := by
    have hbehind := h.behind
    cases hbase : hd.base with
    | none =>
        rw [hbase] at hbehind
        cases hbehind
    | some n =>
        rw [hbase, Option.all_some, decide_eq_false_iff_not] at hbehind
        rw [Option.all_some, decide_eq_false_iff_not]
        exact fun hlt ↦ hbehind ((Nat.lt_succ_self _).trans hlt)

/-- **One appended line.** -/
theorem Reads.take (h : Reads hd l r) (hids : (r.entries.map Entry.instrumentId).Nodup)
    (he : Appendable r e) :
    l.take hd line (fieldsText (baseFields hd.keyed.isSome e)) = .ok (l.behindLine r e) := by
  have hsound : e.Sound hd.keyed.isSome := h.keyed ▸ he.sound
  have hcanonical : e.canonical hd.keyed.isSome = e := h.keyed ▸ he.canonical
  have hparse : parseEntry hd false line (fieldsText (baseFields hd.keyed.isSome e)) =
      .ok (e.canonical hd.keyed.isSome) := by
    refine parseEntry_line hsound ?_
    rw [he.listed]
    rfl
  rw [hcanonical] at hparse
  rw [Loading.take, h.behind]
  refine bind_eq_ok.mpr ⟨e, hparse, ?_⟩
  rw [if_neg Bool.false_ne_true, if_neg Bool.false_ne_true, Loading.takeAppended,
    Loading.behindLine, Loading.length_baseLine, h.keyed]
  dsimp only
  rw [h.entries, h.next]
  rcases he.takes with hrestates | hmints
  · rw [append_of_restates hrestates]
    obtain ⟨known, hknown, hid, hsymbol, hkey⟩ := hrestates
    cases hfind : r.entries.findIdx? (·.instrumentId = e.instrumentId) with
    | none =>
        exact absurd hid (of_decide_eq_false (List.findIdx?_eq_none_iff.mp hfind known hknown))
    | some i =>
        obtain ⟨hlt, hfound, -⟩ := List.findIdx?_eq_some_iff_getElem.mp hfind
        have hsame : r.entries[i] = known := List.inj_on_of_nodup_map hids (List.getElem_mem hlt)
          hknown ((of_decide_eq_true hfound).trans hid.symm)
        have hget : r.entries[i]? = some known := (List.getElem?_eq_getElem hlt).trans
          (congrArg some hsame)
        dsimp only
        rw [hget]
        dsimp only
        rw [if_neg (not_not_intro hsymbol), if_neg (not_not_intro hkey),
          set_eq_map_relisted hids hget hid]
        rfl
  · rw [append_of_mints hmints]
    have hnone : r.entries.findIdx? (·.instrumentId = e.instrumentId) = none := by
      refine List.findIdx?_eq_none_iff.mpr fun known hknown ↦ decide_eq_false fun hid ↦ ?_
      exact hmints.id_new (List.mem_map.mpr ⟨known, hknown, hid⟩)
    have hkey : e.recallKey hd.keyed.isSome ∉ r.entries.map (Entry.recallKey hd.keyed.isSome) :=
      h.keyed ▸ hmints.key_new
    have hplace := hmints.place
    rw [h.allocation] at hplace
    rw [hnone]
    dsimp only
    split
    next hderived =>
        rw [if_pos hderived] at hplace
        rw [if_neg (not_not_intro hplace.1), ← h.floor hderived,
          if_neg (Nat.not_lt_of_le hplace.2), Loading.push_of_new hkey,
          if_pos (h.allocation ▸ hderived)]
        rfl
    next hderived =>
        rw [if_neg hderived] at hplace
        rw [if_pos hplace.1, Loading.push_of_new hkey]
        refine bind_eq_ok.mpr ⟨_, rfl, ?_⟩
        dsimp only
        rw [if_pos hplace.2, if_neg (h.allocation ▸ hderived)]
        rfl

/-! ## Where a record is cut -/

/-- The line that an append writes. -/
def appendedLine (keyed : Bool) (e : Entry) : List Byte :=
  if keyed then encodeKeyedLine e.instrumentId e.symbol (venueKeyField e.key e.symbol)
  else encodeLine e.instrumentId e.symbol

theorem appendedLine_eq (hlisted : e.delistedAt = none) :
    appendedLine keyed e = StateRecord.baseLine keyed e := by
  rw [appendedLine, StateRecord.baseLine, StateRecord.entryTail, hlisted]
  cases keyed <;> simp [encodeLine, encodeKeyedLine, entryText]

/-- A part of a line is taken for its start where its fields are parts of the line's. -/
theorem startsAnAppendedLine_of {id symbol : List Byte} {behind key : Option (List Byte)}
    (he : e.Sound keyed) (hsplit : splitOnce part = (id, behind))
    (hbehind : (behind.map splitOnce).getD ([], none) = (symbol, key)) (hne : id ≠ [])
    (hid : id <+: decimal e.instrumentId) (hsymbol : symbol <+: hex e.symbol.toList)
    (hkey : ∀ k ∈ key, keyed ∧ symbol = hex e.symbol.toList ∧
      k <+: venueKeyText (venueKeyField e.key e.symbol)) :
    startsAnAppendedLine part keyed := by
  have hfits : (decimal e.instrumentId).length ≤ (decimal U32_MAX).length := by
    rw [decimal, List.length_map]
    exact (Nat.length_toDigits_le_iff (by decide) (by decide)).mpr
      (Nat.lt_of_le_of_lt he.id_fits (by decide))
  have hdigits : id.all isDigit := List.all_eq_true.mpr fun b hb ↦
    List.all_eq_true.mp (isDigit_decimal _) b (hid.subset hb)
  have hhex {bs text : List Byte} (htext : text <+: hex bs) :
      text.length ≤ 2 * bs.length ∧ text.all fun b ↦ (nibble b).isSome :=
    ⟨length_hex bs ▸ htext.length_le,
      List.all_eq_true.mpr fun b hb ↦ nibble_of_mem_hex (htext.subset hb)⟩
  have hwhole : (hex e.symbol.toList).length = SYMBOL_LEN * 2 := by
    rw [length_hex, Vector.length_toList, Nat.mul_comm]
  simp only [startsAnAppendedLine, hsplit, hbehind, hne, hid.length_le.trans hfits, hdigits,
    hsymbol.length_le.trans_eq hwhole, (hhex hsymbol).2, ne_eq, not_false_eq_true, decide_true,
    Bool.and_true, Bool.true_and]
  cases key with
  | none => rfl
  | some k =>
      obtain ⟨rfl, rfl, hk⟩ := hkey k rfl
      have hfield : k = SYMBOL_IS_KEY ∨
          k.length ≤ MAX_VENUE_KEY_LEN * 2 ∧ k.all fun b ↦ (nibble b).isSome := by
        cases hfield : venueKeyField e.key e.symbol with
        | none =>
            rw [hfield] at hk
            cases k with
            | nil => exact .inr ⟨Nat.zero_le _, rfl⟩
            | cons b k => exact .inl (hk.eq_of_length_le (Nat.succ_le_succ (Nat.zero_le _)))
        | some stated =>
            rw [hfield, eq_of_venueKeyField hfield] at hk
            have hvalid := he.isVenueKey_key
            simp only [isVenueKey, Bool.and_eq_true, decide_eq_true_eq] at hvalid
            exact .inr ⟨(hhex hk).1.trans (by omega), (hhex hk).2⟩
      simpa [hwhole] using hfield

/-- What is left of a line that was cut could be the start of one. -/
theorem startsAnAppendedLine_of_prefix (he : e.Sound keyed) (hlisted : e.delistedAt = none)
    (h : part <+: fieldsText (baseFields keyed e)) (hne : part ≠ []) :
    startsAnAppendedLine part keyed := by
  have hspace := (plainField_decimal e.instrumentId).space
  have hfree {more : List Byte} (hmore : more <+: hex e.symbol.toList) : SPACE ∉ more :=
    fun hmem ↦ (plainField_hex _).space (hmore.subset hmem)
  have htext : fieldsText (baseFields keyed e) = decimal e.instrumentId ++ SPACE ::
      (hex e.symbol.toList ++ if keyed then SPACE :: venueKeyText (venueKeyField e.key e.symbol)
        else []) := by
    rw [fieldsText, baseFields, StateRecord.entryTail, hlisted]
    cases keyed <;> simp
  have hsymbolPart {more : List Byte} (hmore : more <+: hex e.symbol.toList) :
      startsAnAppendedLine (decimal e.instrumentId ++ SPACE :: more) keyed :=
    startsAnAppendedLine_of he (splitOnce_field hspace more) (splitOnce_last (hfree hmore))
      (decimal_ne_nil _) (List.prefix_refl _) hmore (by rintro k ⟨⟩)
  rw [htext] at h
  rcases prefix_field h with hpart | ⟨more, rfl, hmore⟩
  · exact startsAnAppendedLine_of he (splitOnce_last fun hmem ↦ hspace (hpart.subset hmem)) rfl hne
      hpart List.nil_prefix (by rintro k ⟨⟩)
  cases keyed with
  | false => exact hsymbolPart (by simpa using hmore)
  | true =>
      rcases prefix_field hmore with hmore | ⟨key, rfl, hkey⟩
      · exact hsymbolPart hmore
      · exact startsAnAppendedLine_of he (splitOnce_field hspace _)
          (splitOnce_field (hfree (List.prefix_refl _)) key) (decimal_ne_nil _)
          (List.prefix_refl _) (List.prefix_refl _)
          (by rintro k ⟨⟩; exact ⟨rfl, rfl, hkey⟩)

theorem Appends.listed (hes : Appends r es) :
    ∀ e ∈ es, e.Sound r.keyed.isSome ∧ e.delistedAt = none := by
  induction es generalizing r with
  | nil => rintro e ⟨⟩
  | cons e es ih =>
      intro e' he'
      rcases List.mem_cons.mp he' with rfl | he'
      · exact ⟨hes.1.sound, hes.1.listed⟩
      · exact append_keyed (r := r) (e := e) ▸ ih hes.2 e' he'

/-- Lines that were appended are read one by one, whatever is behind them. -/
theorem Reads.lines (h : Reads hd l r) (hr : r.Sound) (hes : Appends r es) (line : ℕ)
    (raws : List (List Byte)) : ∃ l' : Loading, Reads hd l' (r.appendAll es) ∧
      l'.read = l.read + es.length ∧ l'.appended = l.appended + es.length ∧ l'.torn = l.torn ∧
      l'.complete = l.complete + (es.map (StateRecord.baseLine r.keyed.isSome)).flatten.length ∧
      Loading.lines hd line l (es.map (StateRecord.baseLine r.keyed.isSome) ++ raws) =
        Loading.lines hd (line + es.length) l' raws := by
  induction es generalizing r l line with
  | nil => exact ⟨l, h, rfl, rfl, rfl, rfl, rfl⟩
  | cons e es ih =>
      obtain ⟨he, hes⟩ := hes
      obtain ⟨l', hreads, hread, happended, htorn, hcomplete, hlines⟩ :=
        ih (h.behindLine he) (hr.append he) hes (line + 1)
      rw [append_keyed] at hcomplete hlines
      refine ⟨l', hreads, ?_, ?_, htorn, ?_, ?_⟩
      · rw [hread, List.length_cons, Loading.behindLine, Nat.add_assoc, Nat.add_comm 1]
      · rw [happended, List.length_cons, Loading.behindLine, Nat.add_assoc, Nat.add_comm 1]
      · rw [hcomplete, List.map_cons, List.flatten_cons, List.length_append, Loading.behindLine,
          Nat.add_assoc]
      · have htake : l.take hd line (fieldsText (baseFields r.keyed.isSome e)) =
            .ok (l.behindLine r e) := h.keyed ▸ h.take hr.entries.ids he
        rw [List.map_cons, List.cons_append, Loading.lines, Loading.stripNewline_base]
        dsimp only
        rw [htake, List.length_cons, Nat.add_comm es.length, ← Nat.add_assoc]
        exact hlines

theorem appendAll_sourceId (r : StateRecord) (es : List Entry) :
    (r.appendAll es).sourceId = r.sourceId := by
  induction es generalizing r with
  | nil => rfl
  | cons e es ih => exact (ih _).trans append_sourceId

/-- The record that was read. -/
theorem Reads.record (h : Reads hd l r) (hsource : r.sourceId = hd.sourceId) :
    { sourceId := hd.sourceId
      nextId := l.runningNext
      entries := l.entries
      allocation := hd.allocation
      keyed := hd.keyed } = r := by
  rw [← hsource, h.next, h.entries, ← h.allocation, ← h.keyed]

/-- What is left of a line behind the last whole one. -/
theorem Reads.torn (h : Reads hd l r) (htorn : l.torn = false) (hfree : NEWLINE ∉ part)
    (hpart : part ≠ [] → startsAnAppendedLine part hd.keyed.isSome) :
    Loading.lines hd line l (if part = [] then [] else [part]) = .ok { l with torn := part ≠ [] } := by
  by_cases hnil : part = []
  · rw [if_pos hnil, Loading.lines, decide_eq_false (not_not_intro hnil), ← htorn]
  · have hstarts : ¬(!startsAnAppendedLine part hd.keyed.isSome) := by
      rw [Bool.not_eq_true', Bool.not_eq_false]
      exact hpart hnil
    have hbehind : ¬hd.base.all (l.read < ·) := by
      rw [h.behind]
      exact Bool.false_ne_true
    rw [if_neg hnil, Loading.lines, stripNewline_eq_none hfree]
    dsimp only
    rw [if_neg hbehind, if_neg hstarts, decide_eq_true hnil]

theorem parse_torn {header : List Byte} (h : NEWLINE ∉ header) :
    ∃ refusal, Header.parse header = .error refusal := by
  rw [Header.parse]
  split
  next => exact ⟨_, rfl⟩
  next =>
  split
  next => exact ⟨_, rfl⟩
  next =>
  split
  next => exact ⟨_, rfl⟩
  next => exact ⟨_, if_pos (stripNewline_eq_none h)⟩

theorem SoundEntries.take {allocation : IdAllocation} {nextId : ℕ}
    (h : SoundEntries allocation keyed nextId es) (k : ℕ) :
    SoundEntries allocation keyed nextId (es.take k) where
  ids := h.ids.sublist ((List.take_sublist k es).map _)
  keys := h.keys.sublist ((List.take_sublist k es).map _)
  sound e he := h.sound e (List.mem_of_mem_take he)
  placed e he := h.placed e (List.mem_of_mem_take he)

/-- A base that was cut is refused. -/
theorem load_torn_base {front : List Byte} (h : r.Sound) (hcut : front <+: r.encode)
    (hne : front ≠ r.encode) : ∃ refusal, StateRecord.load front = .error refusal := by
  have hutf8 : isUtf8 front := isUtf8_of_ascii fun b hb ↦ ascii_encode r b (hcut.subset hb)
  rw [encode_eq] at hcut hne
  obtain ⟨k, tail, hends, rfl⟩ := exists_cut hcut
  obtain ⟨hfree, hlines⟩ := hends.lines fun text htext ↦ (plain_texts r text htext).1
  rw [StateRecord.load, hutf8, hlines]
  cases k with
  | zero =>
      by_cases hnil : tail = []
      · rw [if_pos hnil]
        exact ⟨_, rfl⟩
      · obtain ⟨refusal, hparse⟩ := parse_torn hfree
        rw [if_neg hnil]
        exact ⟨refusal, congrArg (· >>= _) hparse⟩
  | succ k =>
      have hk : k < (sorted r.entries).length := by
        have hle := hends.le_length
        rw [List.length_map, StateRecord.texts, List.length_cons, List.length_map] at hle
        refine Nat.lt_of_le_of_ne (Nat.le_of_succ_le_succ hle) fun hk ↦ hne ?_
        have hwhole : r.texts.length ≤ k + 1 := by
          rw [StateRecord.texts, List.length_cons, List.length_map, hk]
        rcases hends.inText with rfl | ⟨-, text, htext, -⟩
        · rw [List.take_of_length_le (by rwa [List.length_map]), List.append_nil]
        · rw [List.getElem?_eq_none hwhole] at htext
          cases htext
      have hlength := (sorted_perm r.entries).length_eq
      have hsorted := h.entries.perm (sorted_perm r.entries)
      have htake : ((sorted r.entries).take k).length = k := List.length_take_of_le (Nat.le_of_lt hk)
      have hsound : SoundEntries r.allocation r.keyed.isSome r.nextId
          (((sorted r.entries).take k).map (Entry.canonical r.keyed.isSome)) :=
        (hsorted.take k).canonical
      have hlines := @Loading.lines_base r.stated
        { runningNext := r.nextId, complete := r.header.length } 2 ((sorted r.entries).take k)
        (if tail = [] then [] else [tail])
        (by
          rintro n ⟨⟩
          rw [htake, Nat.zero_add, ← hlength]
          exact Nat.le_of_lt hk)
        (layoutVersion_mem _ _).2.1
        (fun e he ↦ hsorted.sound e (List.mem_of_mem_take he)) hsound
      have hread : (0 : ℕ) + ((sorted r.entries).take k).length = k := by rw [htake, Nat.zero_add]
      have hinBase : k < r.entries.length := hlength ▸ hk
      rw [StateRecord.texts, List.take_succ_cons, List.map_cons, List.cons_append, ← List.map_take,
        List.map_map]
      change ∃ refusal, (Header.parse r.header >>= fun hd ↦ _) = _
      rw [parse_header h]
      change ∃ refusal, (Loading.lines r.stated 2
        { runningNext := r.nextId, complete := r.header.length }
        (((sorted r.entries).take k).map (StateRecord.baseLine r.stated.keyed.isSome) ++ _) >>=
          fun l ↦ _) = _
      rw [hlines]
      split
      next => exact ⟨_, if_pos (decide_eq_true (hread.trans_lt hinBase))⟩
      next =>
          rw [Loading.lines, stripNewline_eq_none hfree]
          exact ⟨_, congrArg (· >>= _) (if_pos (decide_eq_true (hread.trans_lt hinBase)))⟩

theorem ascii_appended (r : StateRecord) (es : List Entry) :
    ∀ b ∈ r.encode ++ ((es.map fun e ↦ fieldsText (baseFields r.keyed.isSome e)).map
      (· ++ [NEWLINE])).flatten, b < 0x80 := by
  intro b hb
  rcases List.mem_append.mp hb with hb | hb
  · exact ascii_encode r b hb
  · obtain ⟨line, hline, hb⟩ := List.mem_flatten.mp hb
    obtain ⟨text, htext, rfl⟩ := List.mem_map.mp hline
    obtain ⟨e, -, rfl⟩ := List.mem_map.mp htext
    rcases List.mem_append.mp hb with hb | hb
    · exact ascii_fieldsText (plain_baseFields _ e) b hb
    · rw [List.mem_singleton.mp hb]
      decide

/-- **A record that was cut is refused, or what was appended before the cut is there.**  Every part
of a line that an append writes is taken for one. -/
theorem load_cut {front : List Byte} (h : r.Sound) (hes : Appends r.canonical es)
    (hcut : front <+: r.encode ++ (es.map (appendedLine r.keyed.isSome)).flatten) :
    (front.length < r.encode.length ∧ ∃ refusal, StateRecord.load front = .error refusal) ∨
      ∃ k tail, Cut (es.map (appendedLine r.keyed.isSome)) k tail ∧
        front = r.encode ++ ((es.map (appendedLine r.keyed.isSome)).take k).flatten ++ tail ∧
        StateRecord.load front = .ok {
          record := r.canonical.appendAll (es.take k)
          version := layoutVersion r.allocation r.keyed.isSome
          base := r.entries.length
          appended := k
          torn := tail ≠ []
          complete := front.length - tail.length } := by
  by_cases hbase : r.encode <+: front
  case neg =>
      have hfront :=
        (List.prefix_or_prefix_of_prefix hcut (List.prefix_append _ _)).resolve_right hbase
      have hne : front ≠ r.encode := fun heq ↦ hbase (heq ▸ List.prefix_refl _)
      exact .inl ⟨Nat.lt_of_le_of_ne hfront.length_le fun heq ↦ hne (hfront.eq_of_length heq),
        load_torn_base h hfront hne⟩
  refine .inr ?_
  obtain ⟨more, rfl⟩ := hbase
  have hsound : r.canonical.Sound := sound_of_load (load_encode h)
  have hlisted := hes.listed
  have hplain (e : Entry) := plain_baseFields r.keyed.isSome e
  have htexts : es.map (appendedLine r.keyed.isSome) =
      (es.map fun e ↦ fieldsText (baseFields r.keyed.isSome e)).map (· ++ [NEWLINE]) := by
    rw [List.map_map]
    exact List.map_congr_left fun e he ↦ appendedLine_eq (hlisted e he).2
  obtain ⟨k, tail, hends, rfl⟩ := exists_cut ((List.prefix_append_right_inj _).mp hcut)
  refine ⟨k, tail, hends, (List.append_assoc ..).symm, ?_⟩
  rw [htexts] at hcut hends ⊢
  obtain ⟨hfree, hmore⟩ := hends.lines fun text htext ↦ by
    obtain ⟨e, -, rfl⟩ := List.mem_map.mp htext
    exact NEWLINE_notMem_fieldsText (hplain e)
  have hutf8 := isUtf8_of_ascii fun b hb ↦ ascii_appended r es b (hcut.subset hb)
  have hreads : Reads r.stated r.baseRead r.canonical := {
    entries := rfl
    next := rfl
    keyed := rfl
    allocation := rfl
    floor := fun _ ↦ rfl
    behind := decide_eq_false (Nat.lt_irrefl _) }
  have hk : (es.take k).length = k := List.length_take_of_le (by simpa using hends.le_length)
  have hwhole : ((es.map fun e ↦ fieldsText (baseFields r.keyed.isSome e)).take k).map
      (· ++ [NEWLINE]) = (es.take k).map (StateRecord.baseLine r.keyed.isSome) := by
    rw [← List.map_take, List.map_map]
    rfl
  obtain ⟨l, hl, hread, happended, htorn, hcomplete, hlines⟩ := hreads.lines hsound (hes.take k)
    (2 + r.entries.length) (if tail = [] then [] else [tail])
  have hkeyed : r.canonical.keyed = r.keyed := rfl
  rw [hkeyed] at hcomplete hlines
  have hbehind : ¬r.stated.base.any (l.read < ·) := by
    rw [hread]
    exact fun hlt ↦ absurd (of_decide_eq_true hlt) (Nat.not_lt_of_le (Nat.le_add_right _ _))
  have hstarts (hnil : tail ≠ []) : startsAnAppendedLine tail r.stated.keyed.isSome := by
    obtain ⟨-, text, htext, htail⟩ := hends.inText.resolve_left hnil
    obtain ⟨e, he, rfl⟩ := List.mem_map.mp (List.mem_of_getElem? htext)
    exact startsAnAppendedLine_of_prefix (hlisted e he).1 (hlisted e he).2 htail hnil
  rw [StateRecord.load, hutf8, linesOf_encode, hmore, hwhole]
  change (Header.parse r.header >>= fun hd ↦ _) = _
  rw [parse_header h]
  change (Loading.lines r.stated 2 { runningNext := r.nextId, complete := r.header.length } _ >>=
    fun l ↦ _) = _
  rw [lines_encode h, hlines, hl.torn htorn hfree hstarts]
  refine (if_neg hbehind).trans (congrArg Except.ok ?_)
  rw [hread, happended, hcomplete, hk, hl.record (appendAll_sourceId _ _)]
  congr 1
  · exact Nat.add_sub_add_right ..
  · exact Nat.zero_add k
  · rw [← List.append_assoc, List.length_append, Nat.add_sub_cancel, List.length_append,
      ← List.map_take, hwhole]
    rfl

/-- An entry that the record of a new publisher mints. -/
def firstEntry : Entry := { instrumentId := 1, symbol := Vector.replicate SYMBOL_LEN 65 }

/-- The first line that a publisher appends, cut inside its Symbol. -/
theorem load_cut_example : ∃ loaded, StateRecord.load ((StateRecord.empty 7).encode ++
    ([firstEntry].map (appendedLine false)).flatten.take 9) = .ok loaded := by
  have hentries : (StateRecord.empty 7).canonical.entries = [] :=
    List.map_eq_nil_iff.mpr (sorted_perm []).eq_nil
  have hmints : Mints (StateRecord.empty 7).canonical firstEntry :=
    ⟨hentries ▸ List.not_mem_nil, hentries ▸ List.not_mem_nil, by decide⟩
  have hsound : firstEntry.Sound false :=
    ⟨by decide, by decide, nofun, fun _ ↦ rfl, nofun, nofun⟩
  obtain ⟨k, tail, -, -, hload⟩ := (load_cut (sound_empty (show 7 ≤ U16_MAX by decide))
    (show Appends _ [firstEntry] from ⟨⟨hsound, rfl, rfl, .inr hmints⟩, trivial⟩)
    ((List.prefix_append_right_inj _).mpr (List.take_prefix 9 _))).resolve_left
      fun h ↦ Nat.not_lt_of_le (List.prefix_append _ _).length_le h.1
  exact ⟨_, hload⟩

end EdgeMulticast.Refdata
