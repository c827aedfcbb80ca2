import EdgeMulticast.Refdata.Union

/-!
# Seeding twice

A record that holds the pairs of a seed merges it into itself (`Holds.merge`), so that a seed that
was written may be written again.  A derived record is the exception where it has no floor: merging
gives it one, and the same seed does not state it.

`seeding_iff` is when a seed is a safe union: the merged record is read back, holds both, and takes
the same seed again.
-/

namespace EdgeMulticast.Refdata

open EdgeMulticast.Lib

variable {record merged : StateRecord} {seed : Seed} {slots : List Slot} {pair : Pair}
  {done : List Pair}

/-! ## The same seed again -/

/-- A pair that is held is taken, and changes nothing. -/
theorem mergePair_of_held (hadmissible : Admissible record seed pair) {s : Slot} (hs : s ∈ slots)
    (hkey : s.key = some pair.1)
    (hid : ∀ t ∈ slots, t.key = some pair.1 → t.entry.instrumentId = pair.2) :
    mergePair record seed slots pair = .ok slots := by
  obtain ⟨hvalid, hbelow⟩ := hadmissible
  have hplace : ¬(¬record.allocation.isDerived ∧ (pair.2 = 0 ∨ seed.nextId ≤ pair.2)) := by
    rintro ⟨hsequential, hzero | hle⟩
    · exact (hbelow hsequential).1 hzero
    · exact absurd (hbelow hsequential).2 (Nat.not_lt_of_le hle)
  rw [mergePair, if_neg (not_not_intro hvalid), if_neg hplace]
  cases hfind : slots.find? (·.key = some pair.1) with
  | none => exact absurd (decide_eq_true hkey) (List.find?_eq_none.mp hfind s hs)
  | some held =>
      have hheld : decide (held.key = some pair.1) = true :=
        List.find?_some (p := fun s : Slot ↦ decide (s.key = some pair.1)) hfind
      exact if_neg (not_not_intro
        (hid held (List.mem_of_find?_eq_some hfind) (of_decide_eq_true hheld)))

theorem mergePairs_of_held {pairs : List Pair}
    (h : ∀ p ∈ pairs, mergePair record seed slots p = .ok slots) :
    mergePairs record seed slots pairs = .ok slots := by
  induction pairs with
  | nil => rfl
  | cons pair pairs ih =>
      rw [mergePairs, h pair List.mem_cons_self]
      exact ih fun p hp ↦ h p (List.mem_cons_of_mem _ hp)

/-- The slots of a keyed record. -/
theorem knownKey_of_keyed {venueKeys : VenueKeys} (h : record.keyed.isSome) (e : Entry) :
    knownKey record venueKeys e = some e.key := if_pos (.inl h)

/-- A record that holds the pairs of a seed already. -/
structure Holds (record : StateRecord) (seed : Seed) : Prop where
  sound : record.Sound
  source : record.sourceId = seed.sourceId
  keyed : record.keyed = some seed.venueKeys
  declared : ¬(record.allocation = .derived ∧ seed.venueKeys = .stated)
  canonical : ∀ e ∈ record.entries, e.canonical true = e
  next : seed.nextId ≤ record.nextId
  first : FIRST_INSTRUMENT_ID ≤ record.nextId
  pairs : ∀ p ∈ seed.entries, Admissible record seed p ∧ p ∈ record.pairs

/-- The record keeps out no seed that only resolves what it holds. -/
def Resolves (record : StateRecord) (seed : Seed) : Prop :=
  record.allocation.isDerived → seed.retireUnmapped = false ∧ seed.nextId = record.nextId

theorem Holds.refusal (h : Holds record seed) :
    refusal record seed =
      if record.allocation.isDerived ∧ (seed.retireUnmapped ∨ seed.nextId ≠ record.nextId) then
        some .recordIsDerived
      else none := by
  rw [Refdata.refusal, if_neg (not_not_intro h.source), if_neg h.declared, h.keyed]
  have hsame : (some seed.venueKeys).filter (· ≠ seed.venueKeys) = none := by
    rw [Option.filter_some, if_neg (by simp)]
  rw [hsame]

/-- **A record that holds the pairs of a seed merges it into itself.** -/
theorem Holds.merge (h : Holds record seed) (hresolves : Resolves record seed) :
    merge record seed = .ok record := by
  have hkeyed : record.keyed.isSome := by rw [h.keyed]; rfl
  have hrefusal : Refdata.refusal record seed = none := by
    rw [h.refusal, if_neg]
    rintro ⟨hderived, hretire | hnext⟩
    · exact absurd ((hresolves hderived).1.symm.trans hretire) Bool.false_ne_true
    · exact hnext (hresolves hderived).2
  have hslots : startSlots record seed = record.entries.map fun e ↦ ⟨e, some e.key⟩ :=
    List.map_congr_left fun e _ ↦ congrArg (Slot.mk e) (knownKey_of_keyed hkeyed e)
  have hpairs : mergePairs record seed (startSlots record seed) seed.entries =
      .ok (startSlots record seed) := by
    refine mergePairs_of_held fun p hp ↦ ?_
    obtain ⟨hadmissible, hmem⟩ := h.pairs p hp
    obtain ⟨e, he, rfl⟩ := List.mem_map.mp hmem
    rw [hslots]
    refine mergePair_of_held hadmissible (List.mem_map_of_mem he) rfl fun t ht htkey ↦ ?_
    obtain ⟨e', he', rfl⟩ := List.mem_map.mp ht
    exact (h.sound.paired hkeyed (List.mem_map_of_mem he') hmem).mp (Option.some.inj htkey)
  have hknown : (startSlots record seed).filter (·.key = none) = [] := by
    rw [hslots, List.filter_map, List.map_eq_nil_iff, List.filter_eq_nil_iff]
    intro e _ hnone
    cases of_decide_eq_true (p := some e.key = none) hnone
  have hentries : entriesOf (startSlots record seed) = record.entries := by
    rw [entriesOf, hslots, List.filterMap_map]
    exact (List.filterMap_congr fun e he ↦ congrArg some (h.canonical e he)).trans
      List.filterMap_some
  rw [Refdata.merge, hrefusal]
  dsimp only
  rw [hpairs]
  dsimp only
  rw [hknown, if_neg (fun hno ↦ hno.1 rfl)]
  have hnext : max (max record.nextId seed.nextId) FIRST_INSTRUMENT_ID = record.nextId := by
    rw [max_eq_left h.next, max_eq_left h.first]
  rw [entriesOf] at hentries
  rw [hnext, hentries, ← h.keyed]

theorem refusal_eq_none (h : refusal record seed = none) : record.sourceId = seed.sourceId ∧
    ¬(record.allocation = .derived ∧ seed.venueKeys = .stated) ∧
      (∀ venueKeys ∈ record.keyed, venueKeys = seed.venueKeys) ∧ Resolves record seed := by
  rw [refusal] at h
  split at h
  next => cases h
  next hsource =>
  split at h
  next => cases h
  next hdeclared =>
  split at h
  next => cases h
  next hkeyed =>
  split at h
  next => cases h
  next hresolves =>
  refine ⟨not_not.mp hsource, hdeclared, fun venueKeys hmem ↦ ?_, fun hderived ↦ ?_⟩
  · have hfilter := Option.filter_eq_none_iff.mp hkeyed venueKeys hmem
    exact not_not.mp fun hne ↦ hfilter (decide_eq_true hne)
  · rw [not_and, not_or, not_not] at hresolves
    exact ⟨eq_false_of_ne_true (hresolves hderived).1, (hresolves hderived).2⟩

/-- A merged record holds the pairs of its seed. -/
theorem Merging.toHolds (h : Merging record seed slots seed.entries) (hrecord : record.Sound)
    (hrefusal : refusal record seed = none) (hall : ∀ p ∈ seed.entries, Admissible record seed p) :
    Holds (mergedOf record seed slots) seed := by
  obtain ⟨hsource, hdeclared, -, -⟩ := refusal_eq_none hrefusal
  refine ⟨h.sound hrecord, hsource, rfl, hdeclared, fun e he ↦ canonical_of_mem_entriesOf he, ?_, ?_, ?_⟩
  · exact (le_max_right _ _).trans (le_max_left _ _)
  · exact le_max_right _ _
  · exact fun p hp ↦ ⟨hall p hp, h.mem_pairs.mpr (.inr hp)⟩

theorem mem_pairs_canonical (h : record.Sound) : pair ∈ record.canonical.pairs ↔ pair ∈ record.pairs := by
  have hpair (e : Entry) (he : e ∈ record.entries) :
      ((e.canonical record.keyed.isSome).key, (e.canonical record.keyed.isSome).instrumentId) =
        (e.key, e.instrumentId) := by
    rw [canonical_key (h.entries.sound e he), canonical_id]
  rw [StateRecord.pairs, StateRecord.pairs, StateRecord.canonical, List.map_map, List.mem_map,
    List.mem_map]
  constructor
  · rintro ⟨e, he, rfl⟩
    have he := (sorted_perm _).mem_iff.mp he
    exact ⟨e, he, (hpair e he).symm⟩
  · rintro ⟨e, he, rfl⟩
    exact ⟨e, (sorted_perm _).mem_iff.mpr he, hpair e he⟩

/-- Holding the pairs of a seed outlives the state directory. -/
theorem Holds.read (h : Holds record seed) : Holds record.canonical seed where
  sound := {
    source_fits := h.sound.source_fits
    next_fits := h.sound.next_fits
    layout := h.sound.layout
    entries := (h.sound.entries.perm (sorted_perm _)).canonical }
  source := h.source
  keyed := h.keyed
  declared := h.declared
  canonical e he := by
    obtain ⟨e', he', rfl⟩ := List.mem_map.mp he
    have he' := (sorted_perm _).mem_iff.mp he'
    have hkeyed : record.keyed.isSome = true := by rw [h.keyed]; rfl
    rw [hkeyed, h.canonical e' he', h.canonical e' he']
  next := h.next
  first := h.first
  pairs p hp := ⟨(h.pairs p hp).1, (mem_pairs_canonical h.sound).mpr (h.pairs p hp).2⟩

/-! ## What a seed does -/

/-- The record and the seed disagree on a key or an identifier: two pairs agree in one of their
components and not in the other, or the identifier of an entry without a known key is stated for a
key of another Symbol. -/
inductive Disagree (record : StateRecord) (seed : Seed) : Prop where
  | pair {p q : Pair} (mem : p ∈ seed.entries) (held : Known record seed q ∨ q ∈ seed.entries)
      (differ : ¬(p.1 = q.1 ↔ p.2 = q.2))
  | symbol {p : Pair} {e : Entry} (mem : p ∈ seed.entries) (held : e ∈ record.entries)
      (id : e.instrumentId = p.2) (unkeyed : record.keyed = none)
      (declared : seed.venueKeys = .symbol) (differ : (symbolField p.1).1 ≠ e.symbol)

/-- What a record and a seed are merged into. -/
structure SafeUnion (record : StateRecord) (seed : Seed) (merged : StateRecord) : Prop where
  loads : ∃ loaded, StateRecord.load merged.encode = .ok loaded ∧
    loaded.record = merged.canonical ∧ ∀ p, p ∈ loaded.record.pairs ↔ p ∈ merged.pairs
  union : ∀ p, p ∈ merged.pairs ↔ Known record seed p ∨ p ∈ seed.entries
  paired : ∀ p ∈ merged.pairs, ∀ q ∈ merged.pairs, p.1 = q.1 ↔ p.2 = q.2
  issued : ∀ m ∈ merged.entries, (∃ e ∈ record.entries,
    e.instrumentId = m.instrumentId ∧ e.symbol = m.symbol) ∨ record.nextId ≤ m.instrumentId
  next : record.nextId ≤ merged.nextId ∧ seed.nextId ≤ merged.nextId
  again : merge merged seed = .ok merged
  againRead : merge merged.canonical seed = .ok merged.canonical

/-- The floor of the record moves where a derived record has none. -/
theorem resolves_merged (h : Resolves record seed) : Resolves (mergedOf record seed slots) seed ↔
    ¬(record.allocation.isDerived ∧ record.nextId = 0) := by
  constructor
  · rintro hmerged ⟨hderived, hzero⟩
    have hsame : seed.nextId = mergedNext record seed := (hmerged hderived).2
    have hfirst : FIRST_INSTRUMENT_ID ≤ mergedNext record seed := le_max_right _ _
    rw [← hsame, (h hderived).2, hzero] at hfirst
    exact absurd hfirst (by decide)
  · intro hfloor hderived
    obtain ⟨hretire, hnext⟩ := h hderived
    refine ⟨hretire, ?_⟩
    have hpos : FIRST_INSTRUMENT_ID ≤ record.nextId :=
      Nat.one_le_iff_ne_zero.mpr fun hzero ↦ hfloor ⟨hderived, hzero⟩
    rw [mergedOf, mergedNext, hnext, max_self, max_eq_left hpos]

theorem safeUnion_of_merge (h : record.Sound) (hmerge : merge record seed = .ok merged) :
    SafeUnion record seed merged ↔ ¬(record.allocation.isDerived ∧ record.nextId = 0) := by
  obtain ⟨hrefusal, hall, slots, hmerging, rfl⟩ := merge_spec h hmerge
  have hholds := hmerging.toHolds h hrefusal hall
  obtain ⟨-, -, -, hresolves⟩ := refusal_eq_none hrefusal
  have hmerged : Resolves (mergedOf record seed slots) seed ↔ _ := resolves_merged hresolves
  rw [← hmerged]
  constructor
  · intro hsafe
    exact (refusal_eq_none (merge_spec hholds.sound hsafe.again).1).2.2.2
  · intro hagain
    refine ⟨⟨_, load_encode hholds.sound, rfl, fun p ↦ mem_pairs_canonical hholds.sound⟩,
      fun p ↦ hmerging.mem_pairs, fun p hp q hq ↦ hholds.sound.paired rfl hp hq, ?_, ?_,
      hholds.merge hagain, hholds.read.merge hagain⟩
    · intro m hm
      obtain ⟨s, hs, key, -, rfl⟩ := mem_entriesOf.mp hm
      exact hmerging.issued s hs
    · exact ⟨(le_max_left _ _).trans (le_max_left _ _), hholds.next⟩

/-- Two slots of one identifier are one. -/
theorem Merging.slot_inj (h : Merging record seed slots done) {s t : Slot} (hs : s ∈ slots)
    (ht : t ∈ slots) (hid : s.entry.instrumentId = t.entry.instrumentId) : s = t :=
  List.inj_on_of_nodup_map h.ids hs ht hid

/-- **What a record and a seed disagree on is refused.** -/
theorem merge_of_disagree (h : record.Sound) (hdisagree : Disagree record seed) :
    ∃ e, merge record seed = .error e := by
  cases hmerge : merge record seed with
  | error e => exact ⟨e, rfl⟩
  | ok merged =>
      exfalso
      obtain ⟨hrefusal, hall, slots, hmerging, rfl⟩ := merge_spec h hmerge
      have hholds := hmerging.toHolds h hrefusal hall
      cases hdisagree with
      | pair hp hq hdiffer =>
          exact hdiffer (hholds.sound.paired rfl (hmerging.mem_pairs.mpr (.inr hp))
            (hmerging.mem_pairs.mpr hq))
      | @symbol p e hp he hid hunkeyed hdeclared hdiffer =>
          obtain ⟨s, hs, hkey, hpid⟩ := hmerging.holds p (.inr hp)
          obtain ⟨t, ht, htid, htsymbol⟩ := hmerging.kept e he
          obtain rfl := hmerging.slot_inj hs ht (hpid.trans (hid.symm.trans htid.symm))
          exact hdiffer ((hmerging.symbols hunkeyed hdeclared s hs p.1 hkey).trans htsymbol)

/-- A record is replaced, or it is not known whether it was. -/
theorem Store.store_refused {store : Store} {bytes : List Byte} {e : StateError}
    (h : (store.store bytes).1 = .error e) (hknown : e ≠ .write) :
    (store.store bytes).2.record = store.record := by
  rw [Store.store] at h ⊢
  split at h
  next => cases h
  next => rfl
  next =>
      cases h
      exact absurd rfl hknown
  next => rfl

/-- **A refusal writes nothing.** -/
theorem seed_refused {store : Store} {e : SeedError} (h : (Refdata.seed store seed).1 = .error e)
    (hknown : e ≠ .store .write) : (Refdata.seed store seed).2.record = store.record := by
  rw [Refdata.seed] at h ⊢
  split at h
  next => rfl
  next =>
  split at h
  next => rfl
  next =>
  split at h
  next => rfl
  next =>
  split at h
  next => rfl
  next merged _ =>
  split at h
  next => rfl
  next =>
      cases hstored : (store.store merged.encode).1 with
      | ok _ =>
          rw [hstored] at h
          cases h
      | error e' =>
          rw [hstored] at h
          cases h
          exact Store.store_refused hstored fun heq ↦ hknown (congrArg SeedError.store heq)

/-- The record of a store is sound. -/
theorem sound_of_recordFor {store : Store} (h : store.recordFor seed = .ok record) :
    record.Sound := by
  rw [Store.recordFor] at h
  split at h
  next =>
      obtain ⟨loaded, hload, rfl⟩ := map_eq_ok.mp h
      exact sound_of_load hload
  next =>
      cases h
      exact sound_empty seed.source_fits

/-- **When a seed is a safe union.** -/
theorem seeding_iff {store : Store} (h : store.recordFor seed = .ok record) :
    (∀ merged, merge record seed = .ok merged →
      (SafeUnion record seed merged ↔ ¬(record.allocation.isDerived ∧ record.nextId = 0))) ∧
    (Disagree record seed → ∃ e, merge record seed = .error e) ∧
    ∀ e, (Refdata.seed store seed).1 = .error e → e ≠ .store .write →
      (Refdata.seed store seed).2.record = store.record :=
  ⟨fun _ ↦ safeUnion_of_merge (sound_of_recordFor h), merge_of_disagree (sound_of_recordFor h),
    fun _ ↦ seed_refused⟩

theorem seven_fits : 7 ≤ U16_MAX := by decide

theorem three_fits : 3 ≤ U32_MAX := by decide

theorem names_fit : ∀ p ∈ [(ascii "KXA", 1), (ascii "KXB", 2)], p.2 ≤ U32_MAX := by decide

/-- Two names in an empty directory. -/
def handover : Seed where
  sourceId := 7
  nextId := 3
  entries := [(ascii "KXA", 1), (ascii "KXB", 2)]
  retireUnmapped := false
  venueKeys := .symbol
  source_fits := seven_fits
  next_fits := three_fits
  ids_fit := names_fit

theorem seeding_handover :
    (∀ merged, merge (.empty 7) handover = .ok merged →
      (SafeUnion (.empty 7) handover merged ↔
        ¬((StateRecord.empty 7).allocation.isDerived ∧ (StateRecord.empty 7).nextId = 0))) ∧
    (Disagree (.empty 7) handover → ∃ e, merge (.empty 7) handover = .error e) ∧
    ∀ e, (Refdata.seed {} handover).1 = .error e → e ≠ .store .write →
      (Refdata.seed {} handover).2.record = none :=
  @seeding_iff (.empty 7) handover {} rfl

/-- A derived record without a floor, and a seed of nothing. -/
def floorless : Store := { record := some (ascii "dz-refdata-state 3 7 0 0 derived\n") }

theorem zero_fits : 0 ≤ U32_MAX := Nat.zero_le _

theorem none_fits : ∀ p ∈ ([] : List Pair), p.2 ≤ U32_MAX := by decide

def nothing : Seed where
  sourceId := 7
  nextId := 0
  entries := []
  retireUnmapped := false
  venueKeys := .symbol
  source_fits := seven_fits
  next_fits := zero_fits
  ids_fit := none_fits

theorem seeding_floorless : floorless.recordFor nothing = .ok ⟨7, 0, [], .derived, none⟩ ∧
    merge ⟨7, 0, [], .derived, none⟩ nothing = .ok ⟨7, 1, [], .derived, some .symbol⟩ ∧
    merge ⟨7, 1, [], .derived, some .symbol⟩ nothing = .error .recordIsDerived := by
  refine ⟨by decide +kernel, rfl, rfl⟩

end EdgeMulticast.Refdata
