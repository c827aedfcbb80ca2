import EdgeMulticast.Refdata.Encoding
import EdgeMulticast.Refdata.Seed
import Mathlib.Data.List.GetD

/-!
# A seed is a union

What the pairs of a seed make of a record is followed pair by pair (`Merging`): the slots hold the
pairs of the record whose key is known and those of the seed that are done, and no identifier and
no key twice.

The record that they make is sound, and holds the pairs of both (`merge_spec`, `Merging.sound`,
`Merging.mem_pairs`).
-/

namespace EdgeMulticast.Refdata

open EdgeMulticast.Lib

/-- A venue key and its identifier. -/
abbrev Pair := List Byte × ℕ

/-- The pairs of a record, as a keyed record recalls its entries. -/
def StateRecord.pairs (r : StateRecord) : List Pair :=
  r.entries.map fun e ↦ (e.key, e.instrumentId)

variable {record : StateRecord} {seed : Seed} {slots slots' : List Slot} {pair : Pair}
  {done : List Pair}

/-- A pair of the record whose key is known. -/
def Known (record : StateRecord) (seed : Seed) (pair : Pair) : Prop :=
  ∃ e ∈ record.entries, knownKey record seed.venueKeys e = some pair.1 ∧ e.instrumentId = pair.2

/-- The next identifier of the merged record. -/
def mergedNext (record : StateRecord) (seed : Seed) : ℕ :=
  max (max record.nextId seed.nextId) FIRST_INSTRUMENT_ID

/-! ## Slots -/

@[simp] theorem under_key (s : Slot) (key : List Byte) : (s.under key).key = key :=
  key_venueKeyField key s.entry.symbol

@[simp] theorem under_id (s : Slot) (key : List Byte) :
    (s.under key).instrumentId = s.entry.instrumentId := rfl

/-- The entries of the slots whose key is known. -/
def entriesOf (slots : List Slot) : List Entry := slots.filterMap fun s ↦ s.key.map s.under

theorem mem_entriesOf {e : Entry} :
    e ∈ entriesOf slots ↔ ∃ s ∈ slots, ∃ key, s.key = some key ∧ s.under key = e := by
  rw [entriesOf, List.mem_filterMap]
  simp only [Option.map_eq_some_iff]

theorem keys_entriesOf (slots : List Slot) :
    (entriesOf slots).map Entry.key = slots.filterMap Slot.key := by
  rw [entriesOf, List.map_filterMap]
  refine List.filterMap_congr fun s _ ↦ ?_
  cases s.key with
  | none => rfl
  | some key => exact congrArg some (under_key s key)

theorem ids_entriesOf_sublist (slots : List Slot) :
    ((entriesOf slots).map Entry.instrumentId).Sublist (slots.map fun s ↦ s.entry.instrumentId) := by
  induction slots with
  | nil => exact List.Sublist.slnil
  | cons s slots ih =>
      rw [entriesOf, List.filterMap_cons]
      cases s.key with
      | none => exact ih.cons _
      | some key => exact ih.cons_cons _

/-- What the pairs that are done have made of a record. -/
structure Merging (record : StateRecord) (seed : Seed) (slots : List Slot) (done : List Pair) :
    Prop where
  ids : (slots.map fun s ↦ s.entry.instrumentId).Nodup
  keys : (slots.filterMap Slot.key).Nodup
  valid : ∀ s ∈ slots, ∀ key ∈ s.key, isVenueKey key
  fits : ∀ s ∈ slots, s.entry.instrumentId ≠ 0 ∧ s.entry.instrumentId ≤ U32_MAX ∧
    ∀ t ∈ s.entry.delistedAt, t ≤ U64_MAX
  placed : ∀ s ∈ slots, ∀ key, (∀ known ∈ s.key, known = key) →
    (s.under key).Placed record.allocation (mergedNext record seed)
  stated : ∀ s ∈ slots, ∀ key ∈ s.key,
    Known record seed (key, s.entry.instrumentId) ∨ (key, s.entry.instrumentId) ∈ done
  holds : ∀ p, Known record seed p ∨ p ∈ done →
    ∃ s ∈ slots, s.key = some p.1 ∧ s.entry.instrumentId = p.2
  symbols : record.keyed = none → seed.venueKeys = .symbol → ∀ s ∈ slots, ∀ key ∈ s.key,
    (symbolField key).1 = s.entry.symbol
  kept : ∀ e ∈ record.entries, ∃ s ∈ slots,
    s.entry.instrumentId = e.instrumentId ∧ s.entry.symbol = e.symbol
  issued : ∀ s ∈ slots, (∃ e ∈ record.entries,
    e.instrumentId = s.entry.instrumentId ∧ e.symbol = s.entry.symbol) ∨
      record.nextId ≤ s.entry.instrumentId

/-- A Symbol is its name and the padding behind it. -/
theorem toList_symbol (symbol : SymbolKey) :
    symbol.toList = unpadded symbol ++ (symbol.toList.reverse.takeWhile (· = 0)).reverse := by
  rw [unpadded, ← List.reverse_append, List.takeWhile_append_dropWhile, List.reverse_reverse]

/-- A Symbol is the field of its own name. -/
theorem symbolField_unpadded (symbol : SymbolKey) : (symbolField (unpadded symbol)).1 = symbol := by
  have hlist := toList_symbol symbol
  have hlen : (unpadded symbol).length ≤ SYMBOL_LEN := by
    have hsum := congrArg List.length hlist
    rw [Vector.length_toList, List.length_append] at hsum
    omega
  refine Vector.ext fun i hi ↦ ?_
  rw [symbolField, padText, if_pos hlen, List.take_length, Vector.getElem_ofFn]
  have hget : symbol[i] = symbol.toList.getD i 0 := by
    rw [List.getD_eq_getElem _ _ (by rwa [Vector.length_toList]), Vector.getElem_toList]
  rw [hget]
  conv_rhs => rw [hlist]
  rcases Nat.lt_or_ge i (unpadded symbol).length with hlt | hge
  · rw [List.getD_append _ _ _ _ hlt]
  · rw [List.getD_append_right _ _ _ _ hge, List.getD_eq_default _ _ hge]
    -- behind the name there are only zeros
    rw [List.getD_eq_getElem?_getD]
    cases hat : (symbol.toList.reverse.takeWhile (· = 0)).reverse[i - (unpadded symbol).length]? with
    | none => rfl
    | some b =>
        have hmem := List.mem_reverse.mp (List.mem_of_getElem? hat)
        exact (of_decide_eq_true (List.all_eq_true.mp List.all_takeWhile b hmem)).symm

theorem unpadded_inj {symbol symbol' : SymbolKey} (h : unpadded symbol = unpadded symbol') :
    symbol = symbol' := by
  rw [← symbolField_unpadded symbol, h, symbolField_unpadded]

/-- An entry under a key that does not change what it is recalled by. -/
theorem placed_under {s : Slot} {key : List Byte} {allocation : IdAllocation} {nextId : ℕ}
    (h : s.entry.Placed allocation nextId) (hkey : allocation = .derivedKey → s.entry.key = key) :
    (s.under key).Placed allocation nextId := by
  have hderivation : derivation allocation (s.under key) = derivation allocation s.entry := by
    cases allocation with
    | sequential => rfl
    | derived => rfl
    | derivedKey => rw [derivation, derivation, under_key, hkey rfl]
  rw [Entry.Placed] at h ⊢
  rwa [hderivation]

/-! ## Before the first pair -/

theorem knownKey_eq_some {venueKeys : VenueKeys} {e : Entry} {key : List Byte}
    (h : knownKey record venueKeys e = some key) : e.key = key ∧
      (record.keyed.isSome ∨ venueKeys = .symbol ∧ symbolIsWhole e.symbol) := by
  rw [knownKey] at h
  split at h
  next hknown => exact ⟨Option.some.inj h, hknown⟩
  next => cases h

/-- Entries of one key are recalled alike. -/
theorem recallKey_of_key {keyed : Bool} {e e' : Entry} (he : e.Sound keyed) (he' : e'.Sound keyed)
    (h : e.key = e'.key) : e.recallKey keyed = e'.recallKey keyed := by
  cases keyed with
  | true => exact h
  | false =>
      rw [Entry.key, Entry.key, he.unkeyed rfl, he'.unkeyed rfl] at h
      exact congrArg Vector.toList (unpadded_inj h)

theorem merging_start (h : record.Sound) (seed : Seed) :
    Merging record seed (startSlots record seed) [] where
  ids := by
    rw [startSlots, List.map_map]
    exact h.entries.ids
  keys := by
    have hdistinct := List.pairwise_map.mp h.entries.keys
    rw [startSlots, List.filterMap_map]
    refine List.pairwise_filterMap.mpr (hdistinct.imp_of_mem ?_)
    intro e e' he he' hne key hkey key' hkey' heq
    obtain ⟨rfl, -⟩ := knownKey_eq_some hkey
    obtain ⟨rfl, -⟩ := knownKey_eq_some hkey'
    exact hne (recallKey_of_key (h.entries.sound e he) (h.entries.sound e' he') heq)
  valid s hs key hkey := by
    obtain ⟨e, he, rfl⟩ := List.mem_map.mp hs
    obtain ⟨rfl, hknown⟩ := knownKey_eq_some hkey
    have hsound := h.entries.sound e he
    cases hkeyed : record.keyed.isSome with
    | true => exact (hkeyed ▸ hsound).isVenueKey_key
    | false =>
        rw [hkeyed, Bool.false_eq_true, false_or] at hknown
        rw [Entry.key, hsound.unkeyed hkeyed]
        exact isVenueKey_of_whole hknown.2
  fits s hs := by
    obtain ⟨e, he, rfl⟩ := List.mem_map.mp hs
    have hsound := h.entries.sound e he
    exact ⟨hsound.id_ne, hsound.id_fits, hsound.time_fits⟩
  placed s hs key hkey := by
    obtain ⟨e, he, rfl⟩ := List.mem_map.mp hs
    refine placed_under ((h.entries.placed e he).mono ((le_max_left _ _).trans (le_max_left _ _))) ?_
    intro hallocation
    have hkeyed : record.keyed.isSome := by
      rw [Option.isSome_iff_ne_none]
      exact fun hnone ↦ h.layout hnone hallocation
    exact hkey e.key (if_pos (.inl hkeyed))
  stated s hs key hkey := by
    obtain ⟨e, he, rfl⟩ := List.mem_map.mp hs
    exact .inl ⟨e, he, hkey, rfl⟩
  holds p hp := by
    rcases hp with ⟨e, he, hkey, hid⟩ | hp
    · exact ⟨_, List.mem_map_of_mem he, hkey, hid⟩
    · cases hp
  symbols hkeyed hsymbol s hs key hkey := by
    obtain ⟨e, he, rfl⟩ := List.mem_map.mp hs
    obtain ⟨rfl, -⟩ := knownKey_eq_some hkey
    have hunkeyed := (h.entries.sound e he).unkeyed (Option.isSome_eq_false_iff.mpr
      (Option.isNone_iff_eq_none.mpr hkeyed))
    rw [Entry.key, hunkeyed]
    exact symbolField_unpadded e.symbol
  kept e he := ⟨_, List.mem_map_of_mem he, rfl, rfl⟩
  issued s hs := by
    obtain ⟨e, he, rfl⟩ := List.mem_map.mp hs
    exact .inl ⟨e, he, rfl, rfl⟩

/-! ## One pair -/

/-- What one pair does: it is held already, it names an unresolved entry, or it is new. -/
inductive PairSpec (record : StateRecord) (seed : Seed) (slots : List Slot) (pair : Pair) :
    List Slot → Prop where
  | held {s : Slot} (mem : s ∈ slots) (key : s.key = some pair.1)
      (id : s.entry.instrumentId = pair.2) : PairSpec record seed slots pair slots
  | resolved {before after : List Slot} {s : Slot} (shape : slots = before ++ s :: after)
      (id : s.entry.instrumentId = pair.2) (unknown : s.key = none)
      (fresh : pair.1 ∉ slots.filterMap Slot.key)
      (symbol : seed.venueKeys = .symbol → (symbolField pair.1).1 = s.entry.symbol) :
      PairSpec record seed slots pair (before ++ ⟨s.under pair.1, some pair.1⟩ :: after)
  | added (sequential : ¬record.allocation.isDerived) (above : record.nextId ≤ pair.2)
      (fresh : pair.1 ∉ slots.filterMap Slot.key)
      (unused : pair.2 ∉ slots.map fun s ↦ s.entry.instrumentId) :
      PairSpec record seed slots pair (slots ++ [⟨Entry.keyed pair.2 pair.1 none, some pair.1⟩])

/-- What every pair that is taken is. -/
def Admissible (record : StateRecord) (seed : Seed) (pair : Pair) : Prop :=
  isVenueKey pair.1 ∧ (¬record.allocation.isDerived → pair.2 ≠ 0 ∧ pair.2 < seed.nextId)

theorem fresh_of_find? {key : List Byte} (h : slots.find? (·.key = some key) = none) :
    key ∉ slots.filterMap Slot.key := by
  intro hmem
  obtain ⟨s, hs, hkey⟩ := List.mem_filterMap.mp hmem
  exact List.find?_eq_none.mp h s hs (decide_eq_true hkey)

theorem mergePair_spec (h : mergePair record seed slots pair = .ok slots') :
    Admissible record seed pair ∧ PairSpec record seed slots pair slots' := by
  rw [mergePair] at h
  split at h
  next => cases h
  next hvalid =>
  split at h
  next => cases h
  next hbelow =>
  have hadmissible : Admissible record seed pair := by
    refine ⟨not_not.mp hvalid, fun hsequential ↦ ?_⟩
    rw [not_and, not_or] at hbelow
    exact ⟨(hbelow hsequential).1, Nat.lt_of_not_le (hbelow hsequential).2⟩
  refine ⟨hadmissible, ?_⟩
  split at h
  next held hheld =>
      split at h
      next => cases h
      next hid =>
      cases h
      have hkey : decide (held.key = some pair.1) = true :=
        List.find?_some (p := fun s : Slot ↦ decide (s.key = some pair.1)) hheld
      exact .held (List.mem_of_find?_eq_some hheld) (of_decide_eq_true hkey) (not_not.mp hid)
  next hnone =>
      have hfresh := fresh_of_find? hnone
      split at h
      next i hi =>
          obtain ⟨hlt, hat, -⟩ := List.findIdx?_eq_some_iff_getElem.mp hi
          rw [List.getElem?_eq_getElem hlt] at h
          dsimp only at h
          split at h
          next => cases h
          next hkey =>
          split at h
          next => cases h
          next hsymbol =>
          cases h
          have hshape : slots = slots.take i ++ slots[i] :: slots.drop (i + 1) := by
            rw [List.getElem_cons_drop, List.take_append_drop]
          rw [List.set_eq_take_append_cons_drop, if_pos hlt]
          refine .resolved hshape (of_decide_eq_true hat) hkey hfresh fun hsymbols ↦ ?_
          exact not_not.mp fun hne ↦ hsymbol ⟨hsymbols, hne⟩
      next hunused =>
          split at h
          next => cases h
          next hsequential =>
          split at h
          next => cases h
          next habove =>
          cases h
          refine .added hsequential (Nat.le_of_not_lt habove) hfresh ?_
          intro hmem
          obtain ⟨s, hs, hid⟩ := List.mem_map.mp hmem
          exact absurd hid (of_decide_eq_false (List.findIdx?_eq_none_iff.mp hunused s hs))

/-- What a slot is that a pair resolved stays what it was under every key. -/
theorem under_resolved (s : Slot) (key key' : List Byte) :
    (⟨s.under key, some key⟩ : Slot).under key' = s.under key' := rfl

/-- One element in the place of another. -/
theorem mem_middle {α : Type*} {before after : List α} {a t : α} (b : α)
    (h : t ∈ before ++ a :: after) : t = a ∨ t ∈ before ++ b :: after := by
  rw [List.mem_append, List.mem_cons] at h
  rcases h with h | rfl | h
  · exact .inr (List.mem_append_left _ h)
  · exact .inl rfl
  · exact .inr (List.mem_append_right _ (List.mem_cons_of_mem _ h))

theorem Merging.resolve {before after : List Slot} {s : Slot}
    (h : Merging record seed (before ++ s :: after) done) (hvalid : isVenueKey pair.1)
    (hid : s.entry.instrumentId = pair.2) (hunknown : s.key = none)
    (hfresh : pair.1 ∉ (before ++ s :: after).filterMap Slot.key)
    (hsymbol : seed.venueKeys = .symbol → (symbolField pair.1).1 = s.entry.symbol) :
    Merging record seed (before ++ ⟨s.under pair.1, some pair.1⟩ :: after) (done ++ [pair]) := by
  have hmem : s ∈ before ++ s :: after := List.mem_append_right _ List.mem_cons_self
  have hold (t : Slot) (ht : t ∈ before ++ ⟨s.under pair.1, some pair.1⟩ :: after) :
      t = ⟨s.under pair.1, some pair.1⟩ ∨ t ∈ before ++ s :: after := mem_middle s ht
  have hnew : (⟨s.under pair.1, some pair.1⟩ : Slot) ∈
      before ++ ⟨s.under pair.1, some pair.1⟩ :: after :=
    List.mem_append_right _ List.mem_cons_self
  constructor
  · have hids := h.ids
    rw [List.map_append, List.map_cons] at hids ⊢
    exact hids
  · have hkeys := h.keys
    rw [List.filterMap_append, List.filterMap_cons_none hunknown] at hkeys hfresh
    rw [List.filterMap_append, List.filterMap_cons, List.nodup_middle]
    exact List.nodup_cons.mpr ⟨hfresh, hkeys⟩
  · intro t ht key hkey
    rcases hold t ht with rfl | ht
    · cases hkey
      exact hvalid
    · exact h.valid t ht key hkey
  · intro t ht
    rcases hold t ht with rfl | ht
    · exact h.fits s hmem
    · exact h.fits t ht
  · intro t ht key hkey
    rcases hold t ht with rfl | ht
    · rw [under_resolved]
      refine h.placed s hmem key ?_
      rw [hunknown]
      rintro known ⟨⟩
    · exact h.placed t ht key hkey
  · intro t ht key hkey
    rcases hold t ht with rfl | ht
    · cases hkey
      exact .inr (List.mem_append_right _ (List.mem_singleton.mpr (Prod.ext rfl hid)))
    · exact (h.stated t ht key hkey).imp_right (List.mem_append_left _)
  · intro p hp
    have hcases : (Known record seed p ∨ p ∈ done) ∨ p = pair := by
      rwa [List.mem_append, List.mem_singleton, ← or_assoc] at hp
    rcases hcases with hp | rfl
    · obtain ⟨t, ht, hkey, hpid⟩ := h.holds p hp
      rcases mem_middle ⟨s.under pair.1, some pair.1⟩ ht with rfl | ht
      · rw [hunknown] at hkey
        cases hkey
      · exact ⟨t, ht, hkey, hpid⟩
    · exact ⟨_, hnew, rfl, hid⟩
  · intro hkeyed hsymbols t ht key hkey
    rcases hold t ht with rfl | ht
    · cases hkey
      exact hsymbol hsymbols
    · exact h.symbols hkeyed hsymbols t ht key hkey
  · intro e he
    obtain ⟨t, ht, hsame⟩ := h.kept e he
    rcases mem_middle ⟨s.under pair.1, some pair.1⟩ ht with rfl | ht
    · exact ⟨_, hnew, hsame⟩
    · exact ⟨t, ht, hsame⟩
  · intro t ht
    rcases hold t ht with rfl | ht
    · exact h.issued s hmem
    · exact h.issued t ht

theorem Merging.add (h : Merging record seed slots done) (hvalid : isVenueKey pair.1)
    (hfits : pair.2 ≤ U32_MAX) (hsequential : ¬record.allocation.isDerived) (hne : pair.2 ≠ 0)
    (hbelow : pair.2 < seed.nextId) (habove : record.nextId ≤ pair.2)
    (hfresh : pair.1 ∉ slots.filterMap Slot.key)
    (hunused : pair.2 ∉ slots.map fun s ↦ s.entry.instrumentId) :
    Merging record seed (slots ++ [⟨Entry.keyed pair.2 pair.1 none, some pair.1⟩])
      (done ++ [pair]) := by
  have hold (t : Slot) (ht : t ∈ slots ++ [⟨Entry.keyed pair.2 pair.1 none, some pair.1⟩]) :
      t = ⟨Entry.keyed pair.2 pair.1 none, some pair.1⟩ ∨ t ∈ slots := by
    rwa [List.mem_append, List.mem_singleton, or_comm] at ht
  constructor
  · rw [List.map_append, List.map_singleton]
    exact List.nodup_append'.mpr ⟨h.ids, List.nodup_singleton _,
      List.disjoint_singleton.mpr hunused⟩
  · rw [List.filterMap_append]
    exact List.nodup_append'.mpr ⟨h.keys, List.nodup_singleton _,
      List.disjoint_singleton.mpr hfresh⟩
  · intro t ht key hkey
    rcases hold t ht with rfl | ht
    · cases hkey
      exact hvalid
    · exact h.valid t ht key hkey
  · intro t ht
    rcases hold t ht with rfl | ht
    · exact ⟨hne, hfits, by rintro t ⟨⟩⟩
    · exact h.fits t ht
  · intro t ht key hkey
    rcases hold t ht with rfl | ht
    · rw [Entry.Placed, if_neg hsequential]
      exact hbelow.trans_le ((le_max_right _ _).trans (le_max_left _ _))
    · exact h.placed t ht key hkey
  · intro t ht key hkey
    rcases hold t ht with rfl | ht
    · cases hkey
      exact .inr (List.mem_append_right _ List.mem_cons_self)
    · exact (h.stated t ht key hkey).imp_right (List.mem_append_left _)
  · intro p hp
    have hcases : (Known record seed p ∨ p ∈ done) ∨ p = pair := by
      rwa [List.mem_append, List.mem_singleton, ← or_assoc] at hp
    rcases hcases with hp | rfl
    · obtain ⟨t, ht, hsame⟩ := h.holds p hp
      exact ⟨t, List.mem_append_left _ ht, hsame⟩
    · exact ⟨_, List.mem_append_right _ List.mem_cons_self, rfl, rfl⟩
  · intro hkeyed hsymbols t ht key hkey
    rcases hold t ht with rfl | ht
    · cases hkey
      rfl
    · exact h.symbols hkeyed hsymbols t ht key hkey
  · intro e he
    obtain ⟨t, ht, hsame⟩ := h.kept e he
    exact ⟨t, List.mem_append_left _ ht, hsame⟩
  · intro t ht
    rcases hold t ht with rfl | ht
    · exact .inr habove
    · exact h.issued t ht

/-- **One pair of a seed.** -/
theorem Merging.step (h : Merging record seed slots done) (hfits : pair.2 ≤ U32_MAX)
    (hadmissible : Admissible record seed pair) (hspec : PairSpec record seed slots pair slots') :
    Merging record seed slots' (done ++ [pair]) := by
  cases hspec with
  | @held s hs hkey hid =>
      refine { h with stated := ?_, holds := ?_ }
      · intro t ht key hkey
        exact (h.stated t ht key hkey).imp_right (List.mem_append_left _)
      · intro p hp
        rw [List.mem_append, List.mem_singleton, ← or_assoc] at hp
        rcases hp with hp | rfl
        · exact h.holds p hp
        · exact ⟨s, hs, hkey, hid⟩
  | resolved hshape hid hunknown hfresh hsymbol =>
      subst hshape
      exact h.resolve hadmissible.1 hid hunknown hfresh hsymbol
  | added hsequential habove hfresh hunused =>
      obtain ⟨hne, hbelow⟩ := hadmissible.2 hsequential
      exact h.add hadmissible.1 hfits hsequential hne hbelow habove hfresh hunused

/-- **The pairs of a seed, one after the other.** -/
theorem Merging.run {pairs : List Pair} (h : Merging record seed slots done)
    (hfits : ∀ p ∈ pairs, p.2 ≤ U32_MAX) (hmerge : mergePairs record seed slots pairs = .ok slots') :
    Merging record seed slots' (done ++ pairs) ∧ ∀ p ∈ pairs, Admissible record seed p := by
  induction pairs generalizing slots done with
  | nil =>
      cases hmerge
      rw [List.append_nil]
      exact ⟨h, by rintro p ⟨⟩⟩
  | cons pair pairs ih =>
      rw [mergePairs] at hmerge
      split at hmerge
      next => cases hmerge
      next next hnext =>
          obtain ⟨hadmissible, hspec⟩ := mergePair_spec hnext
          have hstep := h.step (hfits pair List.mem_cons_self) hadmissible hspec
          obtain ⟨hrun, hall⟩ := ih hstep (fun p hp ↦ hfits p (List.mem_cons_of_mem _ hp)) hmerge
          rw [List.append_assoc, List.singleton_append] at hrun
          exact ⟨hrun, List.forall_mem_cons.mpr ⟨hadmissible, hall⟩⟩

/-! ## The merged record -/

variable {merged : StateRecord}

/-- The record that the slots make. -/
def mergedOf (record : StateRecord) (seed : Seed) (slots : List Slot) : StateRecord where
  sourceId := record.sourceId
  nextId := mergedNext record seed
  entries := entriesOf slots
  allocation := record.allocation
  keyed := some seed.venueKeys

theorem merge_spec (h : record.Sound) (hmerge : merge record seed = .ok merged) :
    refusal record seed = none ∧ (∀ p ∈ seed.entries, Admissible record seed p) ∧
      ∃ slots, Merging record seed slots seed.entries ∧ merged = mergedOf record seed slots := by
  rw [merge] at hmerge
  split at hmerge
  next => cases hmerge
  next hrefusal =>
  split at hmerge
  next => cases hmerge
  next slots hslots =>
  dsimp only at hmerge
  split at hmerge
  next => cases hmerge
  next =>
  cases hmerge
  obtain ⟨hmerging, hall⟩ := (merging_start h seed).run seed.ids_fit hslots
  exact ⟨hrefusal, hall, slots, hmerging, rfl⟩

theorem canonical_of_mem_entriesOf {slots : List Slot} {e : Entry} (he : e ∈ entriesOf slots) :
    e.canonical true = e := by
  obtain ⟨s, -, key, -, rfl⟩ := mem_entriesOf.mp he
  rw [Entry.canonical, if_pos rfl, under_key]
  rfl

theorem Merging.sound (h : Merging record seed slots done) (hrecord : record.Sound) :
    (mergedOf record seed slots).Sound where
  source_fits := hrecord.source_fits
  next_fits := max_le (max_le hrecord.next_fits seed.next_fits) (by decide)
  layout := by rintro ⟨⟩
  entries := by
    constructor
    · exact (ids_entriesOf_sublist slots).nodup h.ids
    · exact (keys_entriesOf slots).symm ▸ h.keys
    · intro e he
      obtain ⟨s, hs, key, hkey, rfl⟩ := mem_entriesOf.mp he
      obtain ⟨hne, hid, htime⟩ := h.fits s hs
      refine ⟨hne, hid, htime, by rintro ⟨⟩, fun key' hkey' ↦ ?_, fun _ hnone ↦ ?_⟩
      · exact eq_of_venueKeyField hkey' ▸ h.valid s hs key hkey
      · exact whole_of_venueKeyField hnone
    · intro e he
      obtain ⟨s, hs, key, hkey, rfl⟩ := mem_entriesOf.mp he
      refine h.placed s hs key fun known hknown ↦ ?_
      rw [hkey] at hknown
      exact (Option.some.inj hknown).symm

theorem Merging.mem_pairs (h : Merging record seed slots done) :
    pair ∈ (mergedOf record seed slots).pairs ↔ Known record seed pair ∨ pair ∈ done := by
  rw [StateRecord.pairs, List.mem_map]
  constructor
  · rintro ⟨e, he, rfl⟩
    obtain ⟨s, hs, key, hkey, rfl⟩ := mem_entriesOf.mp he
    rw [under_key, under_id]
    exact h.stated s hs key hkey
  · intro hpair
    obtain ⟨s, hs, hkey, hid⟩ := h.holds pair hpair
    exact ⟨_, mem_entriesOf.mpr ⟨s, hs, pair.1, hkey, rfl⟩, Prod.ext (under_key _ _) hid⟩

/-- A sound keyed record names each key and each identifier once. -/
theorem StateRecord.Sound.paired (h : record.Sound) (hkeyed : record.keyed.isSome) {p q : Pair}
    (hp : p ∈ record.pairs) (hq : q ∈ record.pairs) : p.1 = q.1 ↔ p.2 = q.2 := by
  obtain ⟨e, he, rfl⟩ := List.mem_map.mp hp
  obtain ⟨e', he', rfl⟩ := List.mem_map.mp hq
  have hkeys : (record.entries.map Entry.key).Nodup := by
    have hall := h.entries.keys
    rwa [hkeyed] at hall
  constructor
  · intro heq
    rw [List.inj_on_of_nodup_map hkeys he he' heq]
  · intro heq
    rw [List.inj_on_of_nodup_map h.entries.ids he he' heq]

end EdgeMulticast.Refdata
