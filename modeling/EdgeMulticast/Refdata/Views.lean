import EdgeMulticast.Refdata.Admission

/-!
# The views of the published set

A registry keeps the set that it publishes in five ways: the slots, the handles by key, the
lowering's table, a count for the process and the counts of each shard.  `Publication.Consistent` is
that they agree, and every operation keeps it, as long as a handle names each slot that was ever
admitted to.
-/

namespace EdgeMulticast.Refdata

open EdgeMulticast.Lib
open EdgeMulticast.Codec
open EdgeMulticast.Lowering (Instrument InstrumentRef InstrumentTable)

theorem putSlot_length {α : Type} (slots : List (Option α)) (a : α) :
    putSlot slots slots.length a = slots ++ [some a] := by
  rw [putSlot, resizeTo, Nat.add_sub_cancel_left, List.replicate_one, List.set_append_right _ _ (Nat.le_refl _),
    Nat.sub_self]
  rfl

/-! ## The views agree -/

/-- Whether an instrument of a shard has a pending strike. -/
def Published.pendingOn (shard : ℕ) (entry : Published) : Bool :=
  entry.shard = shard && entry.strike.any isPending

/-- An entry as it is before a definition of it has been handed out. -/
def Published.fresh (entry : Published) : Published := { entry with defined := false }

theorem Published.pendingOn_self {shard : ℕ} {entry : Published} (h : entry.shard = shard) :
    entry.pendingOn shard = entry.strike.any isPending := by
  rw [pendingOn, decide_eq_true h, Bool.true_and]

theorem Published.pendingOn_ne {shard : ℕ} {entry : Published} (h : entry.shard ≠ shard) :
    entry.pendingOn shard = false := by
  rw [pendingOn, decide_eq_false h, Bool.false_and]

/-- The counts that a shard keeps of the slots. -/
structure PublishedSet.Counts (set : PublishedSet) (shard : ℕ) (slots : List (Option Published)) :
    Prop where
  published : set.published = holding (fun e ↦ e.shard = shard) slots
  pending : set.strikesPending = holding (Published.pendingOn shard) slots

/-- What is kept of the published set is kept the same way everywhere. -/
structure Publication.Consistent (p : Publication) : Prop where
  keys : p.slotKeys.map Option.isSome = p.slots.map Option.isSome
  table : p.instruments.slots.map Option.isSome = p.slots.map Option.isSome
  key_of_handle : ∀ key h, p.handles[key]? = some h → slotAt p.slotKeys h.index.toNat = some key
  handle_of_key : ∀ i key, slotAt p.slotKeys i = some key →
    ∃ h, p.handles[key]? = some h ∧ h.index.toNat = i
  published : p.published = held p.slots
  size : p.handles.size = held p.slots
  shards : ∀ e, some e ∈ p.slots → e.shard < p.sets.length
  counts : ∀ s (set : PublishedSet), p.sets[s]? = some set → set.Counts s p.slots

namespace Publication.Consistent

variable {p : Publication} {i : ℕ} {entry : Published}

theorem length_keys (h : p.Consistent) : p.slotKeys.length = p.slots.length := by
  simpa only [List.length_map] using congrArg List.length h.keys

theorem length_table (h : p.Consistent) : p.instruments.slots.length = p.slots.length := by
  simpa only [List.length_map] using congrArg List.length h.table

/-- An occupied slot has a key. -/
theorem key_of_slot (h : p.Consistent) (hslot : slotAt p.slots i = some entry) :
    ∃ key, slotAt p.slotKeys i = some key := by
  rw [← Option.isSome_iff_exists, isSome_slotAt, h.keys, ← isSome_slotAt, hslot, Option.isSome_some]

theorem instrument_of_slot (h : p.Consistent) (hslot : slotAt p.slots i = some entry) :
    ∃ inst, slotAt p.instruments.slots i = some inst := by
  rw [← Option.isSome_iff_exists, isSome_slotAt, h.table, ← isSome_slotAt, hslot, Option.isSome_some]

/-- The key of a slot that a handle names is published under that handle. -/
theorem handle_of_slot (h : p.Consistent) {key : RecallKey} {handle : InstrumentRef}
    (hkey : slotAt p.slotKeys handle.index.toNat = some key) : p.handles[key]? = some handle := by
  obtain ⟨found, hfound, hindex⟩ := h.handle_of_key _ key hkey
  obtain rfl : found = handle :=
    congrArg InstrumentRef.mk (UInt32.toNat_inj.mp hindex)
  exact hfound

theorem shard_lt (h : p.Consistent) (hslot : slotAt p.slots i = some entry) :
    entry.shard < p.sets.length :=
  h.shards entry (List.mem_of_getElem? (slotAt_eq_some_iff.mp hslot))

end Publication.Consistent

/-! ## Every operation keeps them so -/

namespace Publication

variable {p : Publication} {shard s : ℕ} {instrument : InstrumentRef} {entry : Published}

/-- What a change does to the set of its shard. -/
def change (p : Publication) (set : PublishedSet) : PublishedSet :=
  if p.polling then { set with changed := true } else set.advance

theorem setChanged_eq (p : Publication) (shard : ℕ) : p.setChanged shard = p.modifySet shard p.change := by
  have hchange : p.change = if p.polling then fun set ↦ { set with changed := true }
      else PublishedSet.advance := by
    funext set
    rw [change]
    split
    · rfl
    · rfl
  rw [setChanged, hchange]
  split
  · rfl
  · rfl

theorem counts_change {set : PublishedSet} {slots : List (Option Published)}
    (h : set.Counts s slots) : (p.change set).Counts s slots := by
  rw [change]
  split
  · exact ⟨h.published, h.pending⟩
  · exact ⟨h.published, h.pending⟩

/-- The sets of a registry change at one shard. -/
theorem counts_modify {sets : List PublishedSet} {slots slots' : List (Option Published)}
    {f : PublishedSet → PublishedSet} (h : ∀ s (set : PublishedSet), sets[s]? = some set → set.Counts s slots)
    (hthere : ∀ set, set.Counts shard slots → (f set).Counts shard slots')
    (helse : ∀ s (set : PublishedSet), s ≠ shard → set.Counts s slots → set.Counts s slots') :
    ∀ s (set : PublishedSet), (sets.modify shard f)[s]? = some set → set.Counts s slots' := by
  intro s set hset
  rw [List.getElem?_modify] at hset
  obtain ⟨old, hold, rfl⟩ := Option.map_eq_some_iff.mp hset
  have hcounts := h s old hold
  split
  next hs =>
      subst hs
      exact hthere old hcounts
  next hs => exact helse s old (Ne.symm hs) hcounts

theorem consistent_setChanged (h : p.Consistent) (shard : ℕ) : (p.setChanged shard).Consistent := by
  rw [setChanged_eq]
  exact {
    keys := h.keys
    table := h.table
    key_of_handle := h.key_of_handle
    handle_of_key := h.handle_of_key
    published := h.published
    size := h.size
    shards := fun e he ↦ (h.shards e he).trans_eq (List.length_modify _ _ _).symm
    counts := counts_modify h.counts (fun set ↦ counts_change) fun s set _ hset ↦ hset }

/-- What is published at a slot is restated there. -/
theorem consistent_setSlot (h : p.Consistent) (hslot : p.slot instrument = some entry)
    {entry' : Published} {f : PublishedSet → PublishedSet} (hshard : entry'.shard = entry.shard)
    (hpublished : ∀ set, (f set).published = set.published)
    (hpending : ∀ set, set.Counts entry.shard p.slots → (f set).strikesPending =
      set.strikesPending - (if entry.strike.any isPending then 1 else 0) +
        if entry'.strike.any isPending then 1 else 0) :
    ((p.setSlot instrument entry').modifySet entry.shard f).Consistent := by
  have hset (q : Published → Bool) := holding_set q hslot (some entry')
  have hmap := map_isSome_set hslot entry'
  exact {
    keys := h.keys.trans hmap.symm
    table := h.table.trans hmap.symm
    key_of_handle := h.key_of_handle
    handle_of_key := h.handle_of_key
    published := h.published.trans (held_set_some hslot entry').symm
    size := h.size.trans (held_set_some hslot entry').symm
    shards := by
      intro e he
      refine Nat.lt_of_lt_of_eq ?_ (List.length_modify _ _ _).symm
      rcases List.mem_or_eq_of_mem_set he with hold | hnew
      · exact h.shards e hold
      · rw [Option.some.inj hnew, hshard]
        exact h.shard_lt hslot
    counts := by
      refine counts_modify h.counts ?_ ?_
      · intro set hcounts
        have hpub := hset fun e ↦ e.shard = entry.shard
        have hpend := hset (Published.pendingOn entry.shard)
        have hle := le_holding (Published.pendingOn entry.shard) hslot
        rw [Published.pendingOn_self rfl] at hle
        rw [Option.any_some, decide_eq_true hshard, decide_eq_true rfl] at hpub
        rw [Option.any_some, Published.pendingOn_self rfl, Published.pendingOn_self hshard] at hpend
        refine ⟨(hpublished set).trans (hcounts.published.trans (Nat.add_right_cancel hpub).symm), ?_⟩
        rw [hpending set hcounts, hcounts.pending]
        change _ = holding _ (p.slots.set _ _)
        omega
      · intro s set hs hcounts
        have hpub := hset fun e ↦ e.shard = s
        have hpend := hset (Published.pendingOn s)
        rw [Option.any_some, hshard] at hpub
        rw [Option.any_some, Published.pendingOn_ne hs.symm,
          Published.pendingOn_ne (hshard.trans_ne hs.symm)] at hpend
        exact ⟨hcounts.published.trans (Nat.add_right_cancel hpub).symm,
          hcounts.pending.trans (Nat.add_right_cancel hpend).symm⟩ }

/-- A published instrument is withdrawn. -/
theorem consistent_withdraw (h : p.Consistent) (instrument : InstrumentRef) :
    (p.withdraw instrument).Consistent := by
  rw [withdraw]
  split
  next => exact h
  next entry hslot =>
      refine consistent_setChanged ?_ entry.shard
      obtain ⟨key, hkey⟩ := h.key_of_slot hslot
      obtain ⟨inst, hinst⟩ := h.instrument_of_slot hslot
      have hhandle := h.handle_of_slot hkey
      have hset (q : Published → Bool) := holding_set q hslot none
      have hheld := held_set_none hslot
      rw [keyAt, hkey, Option.getD_some]
      exact {
        keys := by
          change (p.slotKeys.set _ none).map _ = (p.slots.set _ none).map _
          rw [List.map_set, List.map_set, h.keys]
          rfl
        table := by
          change (p.instruments.withdraw instrument).slots.map _ = (p.slots.set _ none).map _
          rw [InstrumentTable.withdraw_slots hinst, List.map_set, List.map_set, h.table]
          rfl
        key_of_handle := by
          intro key' handle' hhandle'
          change (p.handles.erase key)[key']? = some handle' at hhandle'
          change slotAt (p.slotKeys.set _ none) _ = some key'
          rw [getElem?_erase_eq, Option.ite_none_left_eq_some] at hhandle'
          have hkey' := h.key_of_handle key' handle' hhandle'.2
          rw [slotAt_set _ _ _ _ (lt_of_slotAt hkey), if_neg]
          · exact hkey'
          · intro hindex
            rw [hindex, hkey] at hkey'
            exact hhandle'.1 (Option.some.inj hkey')
        handle_of_key := by
          intro i key' hkey'
          change slotAt (p.slotKeys.set _ none) i = some key' at hkey'
          rw [slotAt_set _ _ _ _ (lt_of_slotAt hkey), Option.ite_none_left_eq_some] at hkey'
          obtain ⟨handle', hhandle', hindex⟩ := h.handle_of_key i key' hkey'.2
          refine ⟨handle', (getElem?_erase_ne ?_).trans hhandle', hindex⟩
          rintro rfl
          rw [hhandle, Option.some.injEq] at hhandle'
          exact hkey'.1 (by rw [← hindex, hhandle'])
        published := by
          change p.published - 1 = held (p.slots.set _ none)
          rw [h.published]
          exact Nat.sub_eq_of_eq_add hheld.symm
        size := by
          change (p.handles.erase key).size = held (p.slots.set _ none)
          have hsize := size_erase_add_one hhandle
          rw [h.size, ← hheld] at hsize
          exact Nat.add_right_cancel hsize
        shards := by
          intro e he
          refine Nat.lt_of_lt_of_eq ?_ (List.length_modify _ _ _).symm
          rcases List.mem_or_eq_of_mem_set he with hold | hnew
          · exact h.shards e hold
          · cases hnew
        counts := by
          refine counts_modify h.counts ?_ ?_
          · intro set hcounts
            have hpub := hset fun e ↦ e.shard = entry.shard
            have hpend := hset (Published.pendingOn entry.shard)
            rw [Option.any_none, decide_eq_true rfl] at hpub
            rw [Option.any_none, Published.pendingOn_self rfl] at hpend
            constructor
            · dsimp only
              rw [hcounts.published]
              exact Nat.sub_eq_of_eq_add hpub.symm
            · dsimp only
              rw [hcounts.pending]
              exact Nat.sub_eq_of_eq_add hpend.symm
          · intro s set hs hcounts
            have hpub := hset fun e ↦ e.shard = s
            have hpend := hset (Published.pendingOn s)
            rw [Option.any_none, decide_eq_false hs.symm] at hpub
            rw [Option.any_none, Published.pendingOn_ne hs.symm] at hpend
            exact ⟨hcounts.published.trans (Nat.add_right_cancel hpub).symm,
              hcounts.pending.trans (Nat.add_right_cancel hpend).symm⟩ }

@[simp] theorem instruments_setChanged (p : Publication) (shard : ℕ) :
    (p.setChanged shard).instruments = p.instruments := by
  rw [setChanged_eq]
  rfl

@[simp] theorem slots_setChanged (p : Publication) (shard : ℕ) :
    (p.setChanged shard).slots = p.slots := by
  rw [setChanged_eq]
  rfl

@[simp] theorem published_setChanged (p : Publication) (shard : ℕ) :
    (p.setChanged shard).published = p.published := by
  rw [setChanged_eq]
  rfl

theorem slots_publish (key : RecallKey) (shard : ℕ) (composed : Composition) :
    (p.publish key shard composed).2.slots =
      putSlot p.slots (InstrumentRef.fromAdmission p.instruments.slots.length).index.toNat
        { shard, definition := composed.definition } := by
  rw [publish]
  exact slots_setChanged _ shard

theorem published_publish (key : RecallKey) (shard : ℕ) (composed : Composition) :
    (p.publish key shard composed).2.published = p.published + 1 := by
  rw [publish]
  exact published_setChanged _ shard

theorem instruments_publish (key : RecallKey) (shard : ℕ) (composed : Composition) :
    (p.publish key shard composed).2.instruments =
      (p.instruments.admitInstrument composed.instrument).2 := by
  rw [publish]
  exact instruments_setChanged _ shard

theorem length_table_publish (key : RecallKey) (shard : ℕ) (composed : Composition) :
    (p.publish key shard composed).2.instruments.slots.length = p.instruments.slots.length + 1 := by
  rw [instruments_publish]
  exact List.length_append

theorem length_table_withdraw (instrument : InstrumentRef) :
    (p.withdraw instrument).instruments.slots.length = p.instruments.slots.length := by
  rw [withdraw]
  split
  · rfl
  · rw [instruments_setChanged]
    exact InstrumentTable.length_withdraw _ _

/-- What publishing does, as long as the table's next slot has a handle. -/
theorem publish_eq (h : p.Consistent) (hroom : p.slots.length < 2 ^ 32) (key : RecallKey)
    (shard : ℕ) (composed : Composition) : p.publish key shard composed =
      (.fromAdmission p.slots.length, ({ p with
        instruments := (p.instruments.admitInstrument composed.instrument).2
        slotKeys := p.slotKeys ++ [some key]
        slots := p.slots ++ [some { shard, definition := composed.definition }]
        handles := p.handles.insert key (.fromAdmission p.slots.length)
        published := p.published + 1 : Publication }.modifySet shard fun set ↦
          { set with published := set.published + 1 }).setChanged shard) := by
  have hkeys : putSlot p.slotKeys p.slots.length key = p.slotKeys ++ [some key] := by
    rw [← h.length_keys, putSlot_length]
  rw [publish]
  simp only [InstrumentTable.admitInstrument, h.length_table,
    InstrumentRef.index_fromAdmission hroom, hkeys, putSlot_length]

/-- An instrument that is not published is published. -/
theorem consistent_publish (h : p.Consistent) (hroom : p.slots.length < 2 ^ 32) {key : RecallKey}
    (hkey : p.handles[key]? = none) (hshard : shard < p.sets.length) (composed : Composition) :
    (p.publish key shard composed).2.Consistent := by
  have hindex := InstrumentRef.index_fromAdmission hroom
  rw [publish_eq h hroom]
  refine consistent_setChanged ?_ shard
  exact {
    keys := by
      change (p.slotKeys ++ _).map _ = (p.slots ++ _).map _
      rw [List.map_append, List.map_append, h.keys]
      rfl
    table := by
      change (p.instruments.slots ++ _).map _ = (p.slots ++ _).map _
      rw [List.map_append, List.map_append, h.table]
      rfl
    key_of_handle := by
      intro key' handle' hhandle'
      change (p.handles.insert key _)[key']? = some handle' at hhandle'
      change slotAt (p.slotKeys ++ _) _ = some key'
      rw [slotAt_append, h.length_keys]
      rw [getElem?_insert_eq] at hhandle'
      split at hhandle'
      next hsame =>
          rw [← Option.some.inj hhandle', if_pos hindex, hsame]
      next hother =>
          have hkey' := h.key_of_handle key' handle' hhandle'
          have hlt := lt_of_slotAt hkey'
          rw [if_neg (Nat.ne_of_lt (hlt.trans_eq h.length_keys))]
          exact hkey'
    handle_of_key := by
      intro i key' hkey'
      change slotAt (p.slotKeys ++ _) i = some key' at hkey'
      rw [slotAt_append, h.length_keys] at hkey'
      split at hkey'
      next hi =>
          obtain rfl := Option.some.inj hkey'
          exact ⟨_, Std.ExtTreeMap.getElem?_insert_self, hindex.trans hi.symm⟩
      next hi =>
          obtain ⟨handle', hhandle', hindex'⟩ := h.handle_of_key i key' hkey'
          refine ⟨handle', (getElem?_insert_ne ?_).trans hhandle', hindex'⟩
          rintro rfl
          cases hkey.symm.trans hhandle'
    published := by
      change p.published + 1 = held (p.slots ++ _)
      rw [held_append, h.published]
    size := by
      change (p.handles.insert key _).size = held (p.slots ++ _)
      rw [Std.ExtTreeMap.size_insert, held_append, h.size, if_neg]
      rw [Std.ExtTreeMap.contains_eq_isSome_getElem?, hkey]
      exact Bool.false_ne_true
    shards := by
      intro e he
      refine Nat.lt_of_lt_of_eq ?_ (List.length_modify _ _ _).symm
      rcases List.mem_append.mp he with hold | hnew
      · exact h.shards e hold
      · obtain rfl := Option.some.inj (List.mem_singleton.mp hnew)
        exact hshard
    counts := by
      refine counts_modify h.counts ?_ ?_
      · intro set hcounts
        constructor
        · change set.published + 1 = holding _ (p.slots ++ _)
          rw [holding_append, decide_eq_true rfl, hcounts.published]
          rfl
        · change set.strikesPending = holding _ (p.slots ++ _)
          rw [holding_append, hcounts.pending, if_neg]
          · rfl
          · rw [Published.pendingOn, Option.any_none, Bool.and_false]
            exact Bool.false_ne_true
      · intro s set hs hcounts
        constructor
        · change set.published = holding _ (p.slots ++ _)
          rw [holding_append, decide_eq_false hs.symm, hcounts.published]
          rfl
        · change set.strikesPending = holding _ (p.slots ++ _)
          rw [holding_append, Published.pendingOn_ne hs.symm, hcounts.pending]
          rfl }

/-- What is listed and delisted leaves an empty slot. -/
theorem withdraw_publish {listed : Publication} (key : RecallKey) (shard : ℕ)
    (composed : Composition) (h : p.Consistent) (hroom : p.slots.length < 2 ^ 32)
    (hlisted : listed = (p.publish key shard composed).2) :
    listed.slot (.fromAdmission p.slots.length) = some { shard, definition := composed.definition } ∧
      listed.keyAt (.fromAdmission p.slots.length) = key ∧
      (listed.withdraw (.fromAdmission p.slots.length)).slots = p.slots ++ [none] ∧
      (listed.withdraw (.fromAdmission p.slots.length)).published = p.published ∧
      (listed.withdraw (.fromAdmission p.slots.length)).phase = p.phase ∧
      (listed.withdraw (.fromAdmission p.slots.length)).handles[key]? = none := by
  have hindex := InstrumentRef.index_fromAdmission hroom
  rw [Publication.publish_eq h hroom, Publication.setChanged_eq] at hlisted
  have hslot : listed.slot (.fromAdmission p.slots.length) =
      some { shard, definition := composed.definition } := by
    rw [hlisted]
    exact (slotAt_append _ _ _).trans (if_pos hindex)
  have hkey : listed.keyAt (.fromAdmission p.slots.length) = key := by
    rw [hlisted]
    refine congrArg (fun o ↦ Option.getD o []) ((slotAt_append _ _ _).trans (if_pos ?_))
    exact hindex.trans h.length_keys.symm
  refine ⟨hslot, hkey, ?_⟩
  rw [Publication.withdraw, hslot]
  dsimp only
  rw [Publication.setChanged_eq, hkey, hlisted]
  refine ⟨?_, rfl, rfl, ?_⟩
  · change (p.slots ++ [some _]).set _ none = _
    rw [hindex, List.set_append_right _ _ (Nat.le_refl _), Nat.sub_self]
    rfl
  · exact Std.ExtTreeMap.getElem?_erase_self

/-- What is restated at a slot leaves the strike as it is. -/
theorem consistent_restated (h : p.Consistent) (hslot : p.slot instrument = some entry)
    {entry' : Published} (hshard : entry'.shard = entry.shard)
    (hstrike : entry'.strike.any isPending = entry.strike.any isPending) :
    (p.setSlot instrument entry').Consistent := by
  have hsame := consistent_setSlot h hslot hshard (f := id) (fun set ↦ rfl) fun set hcounts ↦ by
    have hle := le_holding (Published.pendingOn entry.shard) hslot
    rw [Published.pendingOn_self rfl, ← hcounts.pending] at hle
    rw [hstrike, id, Nat.sub_add_cancel hle]
  rwa [modifySet, List.modify_id] at hsame

/-- A restatement that is accepted, or nothing. -/
theorem reoffer_cases (p : Publication) (sourceId : Lowering.SourceId) (handle : InstrumentRef)
    (shard : ℕ) (spec : InstrumentSpec) : p.reoffer sourceId handle shard spec = p ∨
      ∃ entry definition, p.slot handle = some entry ∧ entry.shard = shard ∧
        sameDefinition entry.definition definition = false ∧
        p.reoffer sourceId handle shard spec =
          (p.setSlot handle { entry with definition }).setChanged shard := by
  rw [reoffer]
  split
  next => exact .inl rfl
  next entry hslot =>
      split
      next => exact .inl rfl
      next hshard =>
          split
          next => exact .inl rfl
          next composed _ =>
              split
              next => exact .inl rfl
              next =>
                  split
                  next => exact .inl rfl
                  next hsame =>
                      exact .inr ⟨entry, composed.definition, hslot, Decidable.not_not.mp hshard,
                        Bool.eq_false_iff.mpr hsame, rfl⟩

theorem consistent_reoffer (h : p.Consistent) (sourceId : Lowering.SourceId)
    (handle : InstrumentRef) (shard : ℕ) (spec : InstrumentSpec) :
    (p.reoffer sourceId handle shard spec).Consistent := by
  rcases p.reoffer_cases sourceId handle shard spec with heq | ⟨entry, definition, hslot, -, -, heq⟩
  · rw [heq]
    exact h
  · rw [heq]
    exact consistent_setChanged (consistent_restated h hslot (by rfl) (by rfl)) shard

theorem consistent_replaceStrike (h : p.Consistent) (hslot : p.slot instrument = some entry)
    (strike : StrikeInterval) : (p.replaceStrike instrument entry strike).Consistent :=
  consistent_setSlot h hslot (by rfl) (fun set ↦ rfl) fun set _ ↦ rfl

theorem consistent_stateStrike (h : p.Consistent) (sourceId : Lowering.SourceId)
    (instrument : InstrumentRef) (stated : Strike) :
    (p.stateStrike sourceId instrument stated).2.Consistent := by
  rcases p.stateStrike_cases sourceId instrument stated with
    heq | ⟨entry, hslot, ⟨strike, heq⟩ | ⟨current, fixingTimeNs, hcurrent, heq⟩⟩
  · rw [heq]
    exact h
  · rw [heq]
    exact consistent_replaceStrike h hslot strike
  · rw [heq]
    refine consistent_restated h hslot (by rfl) ?_
    rw [hcurrent]
    rfl

/-- A tick leaves what is published as it is, whether it is defined apart. -/
theorem map_fresh_handed {seq : UInt16} {slots slots' : List (Option Published)}
    {out : List PublishedDefinition} (h : Walk.Handed shard seq slots out slots') :
    slots'.map (Option.map Published.fresh) = slots.map (Option.map Published.fresh) := by
  refine map_eq_of_slotAt h.length_eq fun i ↦ ?_
  rcases h.slot i with heq | ⟨entry, hentry, hdefined, -, -⟩
  · rw [heq]
  · rw [hentry, hdefined]
    rfl

theorem consistent_definitionTick (h : p.Consistent) (shard monotonicNs : ℕ) :
    (p.definitionTick shard monotonicNs).2.Consistent := by
  rw [definitionTick]
  split
  next => exact h
  next set hset =>
      have hhanded : Walk.Handed shard set.manifestSeq p.slots
          (set.tick shard monotonicNs p.slots).1 (set.tick shard monotonicNs p.slots).2.2 :=
        PublishedSet.tick_handed
      have hfresh := map_fresh_handed hhanded
      have hmap := map_isSome_congr hfresh
      have hheld : held (set.tick shard monotonicNs p.slots).2.2 = held p.slots := by
        rw [held_eq_count, held_eq_count, hmap]
      obtain ⟨cursor, pacer, hnext⟩ : ∃ cursor pacer,
          (set.tick shard monotonicNs p.slots).2.1 = { set with cursor, pacer } :=
        PublishedSet.tick_set
      exact {
        keys := h.keys.trans hmap.symm
        table := h.table.trans hmap.symm
        key_of_handle := h.key_of_handle
        handle_of_key := h.handle_of_key
        published := h.published.trans hheld.symm
        size := h.size.trans hheld.symm
        shards := by
          intro e he
          refine Nat.lt_of_lt_of_eq ?_ List.length_set.symm
          have hmem : e.fresh ∈ (p.slots.map (Option.map Published.fresh)).filterMap id := by
            rw [← hfresh, List.mem_filterMap]
            exact ⟨_, List.mem_map_of_mem he, rfl⟩
          obtain ⟨o, ho, heq⟩ := List.mem_filterMap.mp hmem
          obtain ⟨o', ho', rfl⟩ := List.mem_map.mp ho
          obtain ⟨e', rfl, hsame⟩ := Option.map_eq_some_iff.mp heq
          have hshard : e'.shard = e.shard := congrArg (fun entry ↦ entry.shard) hsame
          exact hshard.symm.trans_lt (h.shards e' ho')
        counts := by
          intro s set' hset'
          have hsame : set'.published = (p.sets[s]?.map PublishedSet.published).getD 0 ∧
              set'.strikesPending = (p.sets[s]?.map PublishedSet.strikesPending).getD 0 ∧
                (p.sets[s]?).isSome := by
            change (p.sets.set shard _)[s]? = some set' at hset'
            rw [hnext, List.getElem?_set] at hset'
            split at hset'
            next hs =>
                subst hs
                rw [Option.ite_none_right_eq_some, Option.some.injEq] at hset'
                rw [← hset'.2, hset]
                exact ⟨rfl, rfl, rfl⟩
            next =>
                rw [hset']
                exact ⟨rfl, rfl, rfl⟩
          obtain ⟨hpublished, hpending, hsome⟩ := hsame
          obtain ⟨old, hold⟩ := Option.isSome_iff_exists.mp hsome
          rw [hold] at hpublished hpending
          have hcounts := h.counts s old hold
          constructor
          · exact (hpublished.trans hcounts.published).trans
              (holding_congr (q := fun e ↦ decide (e.shard = s)) hfresh).symm
          · exact (hpending.trans hcounts.pending).trans
              (holding_congr (q := Published.pendingOn s) hfresh).symm }

theorem consistent_strikeChanges (h : p.Consistent) (schedule : CycleSchedule) (shard : ℕ) :
    (p.strikeChanges schedule shard).2.Consistent := by
  rw [strikeChanges]
  split
  next => exact h
  next set hset =>
      exact {
        keys := h.keys
        table := h.table
        key_of_handle := h.key_of_handle
        handle_of_key := h.handle_of_key
        published := h.published
        size := h.size
        shards := fun e he ↦ (h.shards e he).trans_eq (List.length_modify _ _ _).symm
        counts := counts_modify h.counts (fun set hset ↦ ⟨hset.published, hset.pending⟩)
          fun s set _ hset ↦ hset }

theorem consistent_endPoll (h : p.Consistent) : p.endPoll.Consistent where
  keys := h.keys
  table := h.table
  key_of_handle := h.key_of_handle
  handle_of_key := h.handle_of_key
  published := h.published
  size := h.size
  shards e he := (h.shards e he).trans_eq (List.length_map _).symm
  counts s set hset := by
    rw [endPoll, List.getElem?_map] at hset
    obtain ⟨old, hold, rfl⟩ := Option.map_eq_some_iff.mp hset
    have hcounts := h.counts s old hold
    split
    · exact ⟨hcounts.published, hcounts.pending⟩
    · exact hcounts

end Publication

end EdgeMulticast.Refdata
