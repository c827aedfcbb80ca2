import EdgeMulticast.MarketByPrice.Publisher

/-!
# When a committed snapshot is complete

The end of a group compares a count of level records with the announced number of levels, while
the shadow is a map.  A repeated level is counted again and changes nothing in the map, so
repetitions can stand in for levels that never arrived (`Shard.repeated_level_commits_short`).

`Shard.commit_complete_iff` says when that happens.  Every delivery of a group is covered: the
shadow after it holds exactly the levels that arrived and counts every arrival (`Filled`), so
the end commits a book with levels missing exactly when the surplus of arrivals makes up for
the missing ones, and no demotion in between refuses the group.
-/

namespace EdgeMulticast.MarketByPrice

open Std (ExtTreeMap)
open EdgeMulticast.Lib

/-! ## The places of the levels of a book -/

namespace Sides

/-- The side and the price of every level. -/
def slots (b : Sides) : Finset (Bool × ℤ) :=
  (keySet b.bids).image (false, ·) ∪ (keySet b.asks).image (true, ·)

theorem mem_slots {b : Sides} {ask : Bool} {price : ℤ} :
    (ask, price) ∈ b.slots ↔ ∃ l, (b.side ask)[price]? = some l := by
  rw [slots, Finset.mem_union, Finset.mem_image, Finset.mem_image]
  cases ask
  · simp [side, mem_keySet]
  · simp [side, mem_keySet]

theorem card_slots (b : Sides) : b.slots.card = b.size := by
  have hdisj : Disjoint ((keySet b.bids).image (false, ·)) ((keySet b.asks).image (true, ·)) := by
    rw [Finset.disjoint_left]
    rintro slot hbid hask
    obtain ⟨p, -, rfl⟩ := Finset.mem_image.mp hbid
    obtain ⟨q, -, hq⟩ := Finset.mem_image.mp hask
    exact absurd hq (by simp)
  rw [slots, Finset.card_union_of_disjoint hdisj,
    Finset.card_image_of_injective _ (Prod.mk_right_injective false),
    Finset.card_image_of_injective _ (Prod.mk_right_injective true), card_keySet, card_keySet, size]

end Sides

/-! ## A group and its delivery -/

/-- A snapshot group: the identity its begin and end carry, and the levels between them.  The
levels are a book, so no two of them share a side and a price. -/
structure LevelGroup where
  snapshotID : ℕ
  anchorSeq : ℕ
  lastInstrumentSeq : ℕ
  book : Sides
  size_lt : book.size < 2 ^ 32

namespace LevelGroup

variable (g : LevelGroup) (k : InstKey)

/-- The begin announces the group and the number of its levels. -/
structure Begins (rec : Record) : Prop where
  type : rec.type = .snapshotBegin
  key : rec.key = k
  snapshotID : rec.snapshotGroup.snapshotID = g.snapshotID
  anchorSeq : rec.snapshotGroup.anchorSeq = g.anchorSeq
  lastInstrumentSeq : rec.snapshotGroup.lastInstrumentSeq = g.lastInstrumentSeq
  totalLevels : rec.snapshotGroup.totalLevels = g.book.size

/-- A level record of the group. -/
structure Lists (rec : Record) : Prop where
  snapshotID : toUint32 rec.fields.snapshotId = g.snapshotID
  level : (g.book.side rec.ask)[rec.price]? = some rec.level

/-- The end closes the group. -/
structure Ends (rec : Record) : Prop where
  type : rec.type = .snapshotEnd
  key : rec.key = k
  snapshotID : toUint32 rec.fields.snapshotId = g.snapshotID
  anchorSeq : toUint64 rec.fields.anchorSeq = g.anchorSeq

/-- Records between the begin and the end: levels of the group in any order, with any of them
lost or repeated, and whatever else leaves the group open. -/
def Delivers (as : List Turn) : Prop :=
  ∀ a ∈ as, ∃ rec, a.2 = .record rec ∧ (rec.key = k →
    (rec.type = .snapshotLevel → g.Lists rec) ∧
      rec.type ≠ .snapshotBegin ∧ rec.type ≠ .snapshotEnd ∧ rec.type ≠ .instrumentReset)

/-- The places of the levels that arrived, one for each arrival. -/
def arrived (as : List Turn) : List (Bool × ℤ) := (Publisher.levels k as).map Prod.snd

/-- How many levels of the group never arrived. -/
def missing (as : List Turn) : ℕ := g.book.size - (arrived k as).toFinset.card

/-- How many arrivals repeat an earlier one. -/
def surplus (as : List Turn) : ℕ := (arrived k as).length - (arrived k as).toFinset.card

/-- What a commit should mean: every level of the group arrived, and the committed book is
the group's. -/
def CompleteAt (as : List Turn) (i : Instrument) (rec : Record) : Prop :=
  (i.snapshotEnd rec).2 = none →
    (∀ slot ∈ g.book.slots, slot ∈ arrived k as) ∧
      (i.snapshotEnd rec).1.sides = g.book

end LevelGroup

/-! ## The shadow while the group is delivered -/

/-- The shadow after some arrivals: the levels that arrived, and a count of all arrivals. -/
structure LevelGroup.Filled (g : LevelGroup) (k : InstKey) (pre : List Turn)
    (p : PendingSnapshot) : Prop where
  snapshotID : p.snapshotID = g.snapshotID
  anchorSeq : p.anchorSeq = g.anchorSeq
  lastInstrumentSeq : p.lastInstrumentSeq = g.lastInstrumentSeq
  totalLevels : p.totalLevels = g.book.size
  count : p.receivedLevels = (arrived k pre).length % 2 ^ 32
  levels : ∀ ask price, (p.sides.side ask)[price]? =
    if (ask, price) ∈ arrived k pre then (g.book.side ask)[price]? else none

/-- The instrument's shadow is the group's. -/
def LevelGroup.Filling (g : LevelGroup) (k : InstKey) (pre : List Turn) (v : View) : Prop :=
  ∃ i p, v.inst = some i ∧ i.openSnapshot = some p ∧ g.Filled k pre p

namespace LevelGroup

variable {g : LevelGroup} {k : InstKey} {pre : List Turn}

theorem arrived_snoc (k : InstKey) (pre : List Turn) (a : Turn) :
    arrived k (pre ++ [a]) = arrived k pre ++ ((Publisher.levelOf k a).map Prod.snd).toList := by
  rw [arrived, arrived, Publisher.levels_snoc, List.map_append]
  cases Publisher.levelOf k a <;> rfl

/-- A message that delivers no level leaves the shadow as it was. -/
theorem Filled.snoc_none {p : PendingSnapshot} (h : g.Filled k pre p) {a : Turn}
    (ha : Publisher.levelOf k a = none) : g.Filled k (pre ++ [a]) p := by
  have heq : arrived k (pre ++ [a]) = arrived k pre := by
    rw [arrived_snoc, ha, Option.map_none, Option.toList_none, List.append_nil]
  exact { h with count := heq ▸ h.count, levels := heq ▸ h.levels }

/-- A level of the group joins the shadow. -/
theorem Filled.snoc_level {p : PendingSnapshot} (h : g.Filled k pre p) {rec : Record}
    (hlists : g.Lists rec) {a : Turn} (ha : Publisher.levelOf k a =
      some (toUint32 rec.fields.snapshotId, rec.ask, rec.price)) :
    g.Filled k (pre ++ [a]) (Instrument.shadowAfter rec p) := by
  have heq : arrived k (pre ++ [a]) = arrived k pre ++ [(rec.ask, rec.price)] := by
    rw [arrived_snoc, ha, Option.map_some, Option.toList_some]
  have hid : ¬p.snapshotID ≠ toUint32 rec.fields.snapshotId := by
    rw [h.snapshotID, hlists.snapshotID]
    exact not_not.mpr rfl
  rw [Instrument.shadowAfter, if_neg hid]
  change g.Filled k _ (p.addLevel (sideFromString rec.fields.side) rec.price rec.level)
  have hsides := Instrument.addLevel_sides p rec
  rw [Instrument.addLevel_frame]
  refine { h with count := ?_, levels := fun ask price ↦ ?_ }
  · change (p.receivedLevels + 1) % 2 ^ 32 = _
    rw [heq, List.length_append, List.length_singleton, h.count, Nat.mod_add_mod]
  · change ((p.addLevel (sideFromString rec.fields.side) rec.price
      rec.level).sides.side ask)[price]? = _
    rw [hsides, heq, Sides.side_onSide]
    by_cases hslot : (ask, price) = (rec.ask, rec.price)
    · obtain ⟨rfl, rfl⟩ := Prod.mk.inj hslot
      rw [if_pos rfl, getElem?_insert_eq, if_pos rfl, if_pos (by simp), hlists.level]
    · have hold : (ask, price) ∈ arrived k pre ++ [(rec.ask, rec.price)] ↔
          (ask, price) ∈ arrived k pre := by
        rw [List.mem_append, List.mem_singleton, or_iff_left hslot]
      simp only [hold]
      rw [← h.levels ask price]
      split
      next hask =>
          subst hask
          have hprice : rec.price ≠ price := fun hprice ↦ hslot (by rw [hprice])
          rw [getElem?_insert_ne hprice]
      next => rfl

/-- The moves of an instrument leave its shadow alone. -/
theorem Filling.move {Q : Record → Prop} {v v' : View} {id : ℕ} (h : g.Filling k pre v)
    (hmove : View.Move Q id v v') (hv : v.Holds Q) : g.Filling k pre v' := by
  obtain ⟨i, p, hi, hp, hfilled⟩ := h
  cases hmove with
  | turn here transition =>
      obtain rfl : i = _ := Option.some.inj (hi.symm.trans here)
      refine ⟨_, p, rfl, ?_, hfilled⟩
      rw [transition.openSnapshot (hv.pending i here), hp]
  | buffer => exact ⟨i, p, hi, hp, hfilled⟩
  | evict here =>
      refine ⟨_, p, rfl, ?_, hfilled⟩
      rw [Instrument.evictInstrument_openSnapshot, View.instrumentFor, hi, hp]

/-- A record of the delivery fills the shadow. -/
theorem Filling.record {v : View} (h : g.Filling k pre v) {a : Turn} {rec : Record}
    (ha : a.2 = .record rec) (hkey : rec.key = k)
    (hlevel : rec.type = .snapshotLevel → g.Lists rec)
    (hother : rec.type ≠ .snapshotBegin ∧ rec.type ≠ .snapshotEnd ∧
      rec.type ≠ .instrumentReset) : g.Filling k (pre ++ [a]) (v.record k.id rec) := by
  obtain ⟨i, p, hi, hp, hfilled⟩ := h
  have hnone (htype : rec.type ≠ .snapshotLevel) : Publisher.levelOf k a = none := by
    simp [Publisher.levelOf, ha, htype]
  rw [View.record]
  split
  next htype =>
      refine ⟨_, p, rfl, ?_, hfilled.snoc_none (hnone (by simp [htype]))⟩
      rw [hi]
      exact hp
  next htype => exact ⟨i, p, hi, hp, hfilled.snoc_none (hnone (by simp [htype]))⟩
  next htype => exact absurd htype hother.1
  next htype =>
      refine ⟨_, Instrument.shadowAfter rec p, by rw [hi, Option.map_some], ?_, ?_⟩
      · rw [Instrument.snapshotLevel_eq, hp, Option.map_some]
      · exact hfilled.snoc_level (hlevel htype) (by simp [Publisher.levelOf, ha, hkey, htype])
  next htype => exact absurd htype hother.2.1
  next htype => exact absurd htype hother.2.2
  next htype _ => exact ⟨i, p, hi, hp, hfilled.snoc_none (hnone ‹_›)⟩

end LevelGroup

/-! ## The end of the group -/

namespace LevelGroup

variable {g : LevelGroup} {k : InstKey} {as : List Turn}

/-- The levels of a filled shadow are those that arrived. -/
theorem Filled.slots_eq {p : PendingSnapshot} (h : g.Filled k as p)
    (hall : ∀ slot ∈ arrived k as, slot ∈ g.book.slots) :
    p.sides.slots = (arrived k as).toFinset := by
  ext ⟨ask, price⟩
  rw [Sides.mem_slots, List.mem_toFinset, h.levels ask price]
  constructor
  · rintro ⟨l, hl⟩
    by_contra hnot
    rw [if_neg hnot] at hl
    exact absurd hl (by simp)
  · intro harrived
    rw [if_pos harrived]
    exact Sides.mem_slots.mp (hall _ harrived)

theorem Filled.sub {p : PendingSnapshot} (h : g.Filled k as p) : p.sides.Sub g.book := by
  intro ask price l hl
  rw [h.levels ask price] at hl
  split at hl
  next => exact hl
  next => exact absurd hl (by simp)

/-- Every arrival is a level of the group. -/
theorem Delivers.arrived_mem (h : g.Delivers k as) :
    ∀ slot ∈ arrived k as, slot ∈ g.book.slots := by
  rintro slot hslot
  obtain ⟨⟨id, slot⟩, hlevel, rfl⟩ := List.mem_map.mp hslot
  obtain ⟨a, ha, hof⟩ := List.mem_filterMap.mp hlevel
  obtain ⟨rec, hrec, hlists⟩ := h a ha
  rw [Publisher.levelOf, hrec] at hof
  dsimp only at hof
  split at hof
  next hown =>
      obtain ⟨rfl, rfl⟩ := Prod.mk.inj (Option.some.inj hof)
      exact Sides.mem_slots.mpr ⟨_, ((hlists hown.1).1 hown.2).level⟩
  next => exact absurd hof (by simp)

/-- The count agrees with the announced number exactly when the surplus makes up for what is
missing. -/
theorem Filled.count_iff {p : PendingSnapshot} (h : g.Filled k as p)
    (hall : ∀ slot ∈ arrived k as, slot ∈ g.book.slots) :
    p.receivedLevels = p.totalLevels ↔ surplus k as % 2 ^ 32 = g.missing k as := by
  have hcard : (arrived k as).toFinset.card ≤ g.book.size := by
    rw [← Sides.card_slots]
    exact Finset.card_le_card fun slot hslot ↦ hall slot (List.mem_toFinset.mp hslot)
  have hlength := List.toFinset_card_le (arrived k as)
  have hsize := g.size_lt
  rw [h.count, h.totalLevels, surplus, missing]
  omega

/-- No level is missing exactly when the shadow is the book. -/
theorem Filled.missing_eq_zero_iff {p : PendingSnapshot} (h : g.Filled k as p)
    (hall : ∀ slot ∈ arrived k as, slot ∈ g.book.slots) :
    g.missing k as = 0 ↔ (∀ slot ∈ g.book.slots, slot ∈ arrived k as) ∧ p.sides = g.book := by
  have hsub : (arrived k as).toFinset ⊆ g.book.slots :=
    fun slot hslot ↦ hall slot (List.mem_toFinset.mp hslot)
  have hsize : p.sides.size = (arrived k as).toFinset.card := by
    rw [← Sides.card_slots, h.slots_eq hall]
  rw [missing, Nat.sub_eq_zero_iff_le]
  constructor
  · intro hle
    have heq : (arrived k as).toFinset = g.book.slots :=
      Finset.eq_of_subset_of_card_le hsub (by rwa [Sides.card_slots])
    refine ⟨fun slot hslot ↦ List.mem_toFinset.mp (heq ▸ hslot), h.sub.eq_of_size_eq ?_⟩
    rw [hsize, heq, Sides.card_slots]
  · rintro ⟨-, hbook⟩
    rw [← hsize, hbook]

/-- What an end commits.  The commit means what it should, unless a level is missing, the
surplus of arrivals makes up for the missing ones, and no requirement refuses the group. -/
theorem Filling.completeAt_iff {i : Instrument} {v : View} {rec : Record}
    (h : g.Filling k as v) (hi : v.inst = some i) (hends : g.Ends k rec)
    (hall : ∀ slot ∈ arrived k as, slot ∈ g.book.slots) :
    g.CompleteAt k as i rec ↔
      (∃ r, i.requiredInstrumentSeq = some r ∧ g.lastInstrumentSeq < r) ∨
        g.missing k as = 0 ∨ surplus k as % 2 ^ 32 ≠ g.missing k as := by
  obtain ⟨i', p, hi', hp, hfilled⟩ := h
  obtain rfl : i = i' := Option.some.inj (hi.symm.trans hi')
  have hcount := hfilled.count_iff hall
  have hmissing := hfilled.missing_eq_zero_iff hall
  have hcommit : i.Committable p rec ↔ surplus k as % 2 ^ 32 = g.missing k as ∧
      ∀ r, i.requiredInstrumentSeq = some r → r ≤ g.lastInstrumentSeq := by
    rw [← hcount, ← hfilled.lastInstrumentSeq]
    refine ⟨fun hp ↦ ⟨hp.count, hp.covers⟩, fun hp ↦ ⟨?_, ?_, hp.1, hp.2⟩⟩
    · rw [hfilled.snapshotID, hends.snapshotID]
    · rw [hfilled.anchorSeq, hends.anchorSeq]
  have hsides (hp' : i.Committable p rec) : (i.snapshotEnd rec).1.sides = p.sides := by
    rw [Instrument.snapshotEnd_of_commit hp hp']
    rfl
  rw [CompleteAt, Instrument.snapshotEnd_eq_none_iff rec hp]
  constructor
  · intro hcomplete
    by_contra hnot
    push Not at hnot
    obtain ⟨hcovers, hsome, hsurplus⟩ := hnot
    have hp' := hcommit.mpr ⟨hsurplus, hcovers⟩
    have hbook := hcomplete hp'
    rw [hsides hp'] at hbook
    exact hsome (hmissing.mpr hbook)
  · intro hcond hp'
    obtain ⟨hsurplus, hcovers⟩ := hcommit.mp hp'
    rw [hsides hp']
    refine hmissing.mp ?_
    rcases hcond with ⟨r, hr, hlt⟩ | hzero | hne
    · exact absurd (hcovers r hr) (by omega)
    · exact hzero
    · exact absurd hsurplus hne

end LevelGroup

/-- The begin of the group opens an empty shadow for it. -/
theorem LevelGroup.Filling.begin {g : LevelGroup} {k : InstKey} {v : View} {rec : Record}
    (hb : g.Begins k rec) (accepted : (v.instrumentFor k.id).snapshotAcceptable g.anchorSeq
      g.lastInstrumentSeq = (true, none)) : g.Filling k [] (v.record k.id rec) := by
  have hbegin := (v.instrumentFor k.id).snapshotBegin_eq rec
  rw [← hb.anchorSeq, ← hb.lastInstrumentSeq] at accepted
  rw [accepted] at hbegin
  simp only [View.record, hb.type]
  refine ⟨_, _, rfl, by rw [hbegin]; rfl, hb.snapshotID, hb.anchorSeq, hb.lastInstrumentSeq,
    hb.totalLevels, rfl, fun ask price ↦ ?_⟩
  cases ask <;> simp [PendingSnapshot.sides, Sides.side, arrived, Publisher.levels]

namespace Shard

variable {g : LevelGroup} {k : InstKey} {s : Shard} {as : List Turn}

/-- The delivery of a group fills the shadow its begin opened. -/
theorem run_filling (hs : ∀ k, s.Holds (fun _ ↦ True) k) {b : Turn} {rec : Record}
    (hbrec : b.2 = .record rec) (hb : g.Begins k rec)
    (accepted : ((s.view k).instrumentFor k.id).snapshotAcceptable g.anchorSeq
      g.lastInstrumentSeq = (true, none)) (hd : g.Delivers k as) :
    g.Filling k as ((run step s (b :: as)).view k) := by
  rw [run_cons]
  have hview : (s.step b).view k = (s.view k).record k.id rec := by
    simp only [step, hbrec, apply, hb.type]
    rw [view_applySnapshotBegin _ _ hb.type, if_pos hb.key]
  refine run_view (Q := fun _ _ ↦ True) (P := fun pre v ↦ g.Filling k pre v)
    (step_holds hs fun _ _ _ ↦ trivial) (fun _ _ _ _ _ ↦ trivial) ?_ ?_ ?_
  · rw [hview]
    exact LevelGroup.Filling.begin hb accepted
  · intro pre a v hpre hv h
    obtain ⟨rec, hrec, hlists⟩ := hd a (hpre.subset (by simp))
    rw [hrec, View.act]
    split
    next hkey => exact h.record hrec hkey (hlists hkey).1 (hlists hkey).2
    next hkey =>
        obtain ⟨i, p, hi, hp, hfilled⟩ := h
        exact ⟨i, p, hi, hp, hfilled.snoc_none (by simp [Publisher.levelOf, hrec, hkey])⟩
  · rintro pre v v' - hmove hv h
    exact h.move hmove hv

/-- **A committed snapshot is complete, when it is.**  From every reachable state, after every
delivery of a group, the end commits only the whole group and the commit makes the book the
group's, except when the surplus of arrivals makes up for the missing levels. -/
theorem commit_complete_iff {maxBuffered : ℤ} {symbols : Option (List String)}
    {past : List Turn} {σ : Choices} {b e : Record} (hb : g.Begins k b)
    (accepted : (((run step (new maxBuffered symbols) past).view k).instrumentFor
      k.id).snapshotAcceptable g.anchorSeq g.lastInstrumentSeq = (true, none))
    (hd : g.Delivers k as) (he : g.Ends k e) :
    ∃ i, (run step (run step (new maxBuffered symbols) past)
        ((σ, .record b) :: as)).instruments[k]? = some i ∧
      (g.CompleteAt k as i e ↔
        (∃ r, i.requiredInstrumentSeq = some r ∧ g.lastInstrumentSeq < r) ∨
          g.missing k as = 0 ∨ LevelGroup.surplus k as % 2 ^ 32 ≠ g.missing k as) := by
  have hholds : ∀ k, (run step (new maxBuffered symbols) past).Holds (fun _ ↦ True) k :=
    run_holds (fun k ↦ new_holds maxBuffered symbols _ k) fun _ _ _ _ _ ↦ trivial
  have hfill := run_filling hholds (b := (σ, .record b)) rfl hb accepted hd
  obtain ⟨i, p, hi, hp, hfilled⟩ := hfill
  exact ⟨i, hi, LevelGroup.Filling.completeAt_iff ⟨i, p, hi, hp, hfilled⟩ hi he hd.arrived_mem⟩

/-! ## One group, delivered whole and delivered twice over by half -/

/-- A group of one bid and one ask. -/
def twoLevels : LevelGroup where
  snapshotID := 7
  anchorSeq := 50
  lastInstrumentSeq := 5
  book := ⟨(∅ : Book).insert 900 ⟨3, 2, 0⟩, (∅ : Book).insert 901 ⟨4, 2, 0⟩⟩
  size_lt := by decide

/-- The state the group finds. -/
def defined : List Turn := [(default, .record (instDefRec ⟨0, 11⟩ "BTC" 5))]

def theBid : Turn := (default, .record (snapLevelRec ⟨0, 11⟩ 7 .bid 900 3))

def theAsk : Turn := (default, .record (snapLevelRec ⟨0, 11⟩ 7 .ask 901 4))

theorem twoLevels_begins : twoLevels.Begins ⟨0, 11⟩ (snapBeginRec ⟨0, 11⟩ 7 2 5 50) := by
  constructor <;> decide

theorem twoLevels_ends : twoLevels.Ends ⟨0, 11⟩ (snapEndRec ⟨0, 11⟩ 7 50) := by
  constructor <;> decide

/-- Any delivery of the two levels is a delivery of the group. -/
theorem twoLevels_delivers {as : List Turn} (h : ∀ a ∈ as, a = theBid ∨ a = theAsk) :
    twoLevels.Delivers ⟨0, 11⟩ as := by
  intro a ha
  rcases h a ha with rfl | rfl
  · exact ⟨_, rfl, fun _ ↦ ⟨fun _ ↦ by constructor <;> decide, by decide⟩⟩
  · exact ⟨_, rfl, fun _ ↦ ⟨fun _ ↦ by constructor <;> decide, by decide⟩⟩

theorem commit_complete_iff_twoLevels :
    ∃ i, (run step (run step (new 10 none) defined)
        ((default, .record (snapBeginRec ⟨0, 11⟩ 7 2 5 50)) ::
          [theAsk, theBid])).instruments[(⟨0, 11⟩ : InstKey)]? = some i ∧
      (twoLevels.CompleteAt ⟨0, 11⟩ [theAsk, theBid] i (snapEndRec ⟨0, 11⟩ 7 50) ↔
        (∃ r, i.requiredInstrumentSeq = some r ∧ twoLevels.lastInstrumentSeq < r) ∨
          twoLevels.missing ⟨0, 11⟩ [theAsk, theBid] = 0 ∨
            LevelGroup.surplus ⟨0, 11⟩ [theAsk, theBid] % 2 ^ 32 ≠
              twoLevels.missing ⟨0, 11⟩ [theAsk, theBid]) :=
  commit_complete_iff twoLevels_begins (by decide) (twoLevels_delivers (by simp)) twoLevels_ends

/-- The bid arrives twice and the ask never: the end commits a book without the ask. -/
theorem repeated_level_commits_short :
    twoLevels.Begins ⟨0, 11⟩ (snapBeginRec ⟨0, 11⟩ 7 2 5 50) ∧
      twoLevels.Delivers ⟨0, 11⟩ [theBid, theBid] ∧
      twoLevels.Ends ⟨0, 11⟩ (snapEndRec ⟨0, 11⟩ 7 50) ∧
      ∃ i, (run step (run step (new 10 none) defined)
          ((default, .record (snapBeginRec ⟨0, 11⟩ 7 2 5 50)) ::
            [theBid, theBid])).instruments[(⟨0, 11⟩ : InstKey)]? = some i ∧
        (i.snapshotEnd (snapEndRec ⟨0, 11⟩ 7 50)).2 = none ∧
        (i.snapshotEnd (snapEndRec ⟨0, 11⟩ 7 50)).1.asks.size = 0 ∧
        ¬twoLevels.CompleteAt ⟨0, 11⟩ [theBid, theBid] i (snapEndRec ⟨0, 11⟩ 7 50) := by
  refine ⟨twoLevels_begins, twoLevels_delivers (by simp), twoLevels_ends, ?_⟩
  have hend : ((run step (run step (new 10 none) defined)
      ((default, .record (snapBeginRec ⟨0, 11⟩ 7 2 5 50)) ::
        [theBid, theBid])).instruments[(⟨0, 11⟩ : InstKey)]?).any (fun i ↦
          decide ((i.snapshotEnd (snapEndRec ⟨0, 11⟩ 7 50)).2 = none ∧
            (i.snapshotEnd (snapEndRec ⟨0, 11⟩ 7 50)).1.asks.size = 0)) = true := by
    decide
  rw [Option.any_eq_true] at hend
  obtain ⟨i, hi, hcommit⟩ := hend
  rw [decide_eq_true_iff] at hcommit
  refine ⟨i, hi, hcommit.1, hcommit.2, fun hcomplete ↦ ?_⟩
  have hmem := (hcomplete hcommit.1).1 (true, 901) (by decide)
  exact absurd hmem (by decide)

end Shard

end EdgeMulticast.MarketByPrice
