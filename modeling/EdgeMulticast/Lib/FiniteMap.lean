import Mathlib.Algebra.Order.BigOperators.Group.Finset
import Mathlib.Data.List.MinMax
import Mathlib.Data.List.Sort
import Mathlib.Tactic.Common
import Std.Data.ExtTreeMap

/-!
# Finite maps: tallies, erasure loops and submaps

Three things a program does with a finite map that the map's own interface does not name:

* it keeps a running total of a measure of the values (`tally`), so the total has to be
  followed through an insertion and a removal;
* it removes a list of keys in a loop (`getElem?_foldl_erase`);
* it fills one map with entries of another and concludes from the count alone that nothing is
  missing (`Submap.eq_of_size_le`).
-/

namespace EdgeMulticast.Lib

open Std

variable {K V : Type*} [DecidableEq K] [Ord K] [TransOrd K] [LawfulEqOrd K]

/-! ## Lookups -/

theorem getElem?_insert_eq (m : ExtTreeMap K V) (k x : K) (v : V) :
    (m.insert k v)[x]? = if k = x then some v else m[x]? := by
  simp [ExtTreeMap.getElem?_insert]

theorem getElem?_erase_eq (m : ExtTreeMap K V) (k x : K) :
    (m.erase k)[x]? = if k = x then none else m[x]? := by
  simp [ExtTreeMap.getElem?_erase]

/-- An entry that is there stays. -/
theorem getElem?_insertIfNew_eq (m : ExtTreeMap K V) (k x : K) (v : V) :
    (m.insertIfNew k v)[x]? = m[x]?.or (if k = x then some v else none) := by
  simp only [ExtTreeMap.getElem?_insertIfNew, LawfulEqCmp.compare_eq_iff_eq,
    ExtTreeMap.mem_iff_isSome_getElem?]
  by_cases h : k = x
  · subst h
    cases m[k]? <;> simp
  · simp [h]

theorem getElem?_insert_ne {m : ExtTreeMap K V} {k x : K} {v : V} (h : k ≠ x) :
    (m.insert k v)[x]? = m[x]? := by
  rw [getElem?_insert_eq, if_neg h]

theorem getElem?_erase_ne {m : ExtTreeMap K V} {k x : K} (h : k ≠ x) :
    (m.erase k)[x]? = m[x]? := by
  rw [getElem?_erase_eq, if_neg h]

/-! ## The set of keys -/

/-- The keys of a map, as a finite set. -/
def keySet (m : ExtTreeMap K V) : Finset K := m.keys.toFinset

theorem mem_keySet {m : ExtTreeMap K V} {k : K} : k ∈ keySet m ↔ ∃ v, m[k]? = some v := by
  rw [keySet, List.mem_toFinset, ExtTreeMap.mem_keys, ExtTreeMap.mem_iff_isSome_getElem?,
    Option.isSome_iff_exists]

omit [LawfulEqOrd K] in
theorem card_keySet (m : ExtTreeMap K V) : (keySet m).card = m.size := by
  rw [keySet, List.toFinset_card_of_nodup ExtTreeMap.nodup_keys, ExtTreeMap.length_keys]

theorem keySet_erase (m : ExtTreeMap K V) (k : K) : keySet (m.erase k) = (keySet m).erase k := by
  ext x
  simp only [mem_keySet, Finset.mem_erase, getElem?_erase_eq]
  by_cases h : k = x
  · simp [h]
  · simp [h, Ne.symm h]

theorem size_erase_add_one {m : ExtTreeMap K V} {k : K} {v : V} (h : m[k]? = some v) :
    (m.erase k).size + 1 = m.size := by
  rw [← card_keySet, ← card_keySet, keySet_erase]
  exact Finset.card_erase_add_one (mem_keySet.mpr ⟨v, h⟩)

/-- A test splits a map into two. -/
theorem size_filter_add_size_filter (m : ExtTreeMap K V) (p : V → Bool) :
    (m.filter fun _ v ↦ p v).size + (m.filter fun _ v ↦ !p v).size = m.size := by
  have hkeys (q : V → Bool) :
      keySet (m.filter fun _ v ↦ q v) = (keySet m).filter fun k ↦ (m[k]?).any q := by
    ext k
    simp only [mem_keySet, Finset.mem_filter, ExtTreeMap.getElem?_filter']
    cases m[k]? <;> simp
  rw [← card_keySet, ← card_keySet, ← card_keySet, hkeys, hkeys,
    ← Finset.card_filter_add_card_filter_not (s := keySet m) (fun k ↦ (m[k]?).any p = true)]
  congr 2
  refine Finset.filter_congr fun k hk ↦ ?_
  obtain ⟨v, hv⟩ := mem_keySet.mp hk
  simp [hv]

/-! ## Tallies -/

/-- The sum of a measure of the values of a map. -/
def tally (f : V → ℕ) (m : ExtTreeMap K V) : ℕ := ∑ k ∈ keySet m, (m[k]?).elim 0 f

variable {f : V → ℕ} {m : ExtTreeMap K V}

@[simp] theorem tally_empty : tally f (∅ : ExtTreeMap K V) = 0 := by
  have : keySet (∅ : ExtTreeMap K V) = ∅ := by
    ext k; simp [mem_keySet]
  simp [tally, this]

/-- Removing an entry takes its measure out of the tally. -/
theorem tally_erase (f : V → ℕ) (m : ExtTreeMap K V) (k : K) :
    tally f (m.erase k) + (m[k]?).elim 0 f = tally f m := by
  have herase : tally f (m.erase k) = ∑ x ∈ (keySet m).erase k, (m[x]?).elim 0 f := by
    rw [tally, keySet_erase]
    refine Finset.sum_congr rfl fun x hx ↦ ?_
    rw [getElem?_erase_ne (Finset.ne_of_mem_erase hx).symm]
  rw [herase]
  by_cases hk : k ∈ keySet m
  · exact Finset.sum_erase_add _ _ hk
  · have hnone : m[k]? = none := by
      rw [mem_keySet] at hk
      exact Option.eq_none_iff_forall_ne_some.mpr fun v hv ↦ hk ⟨v, hv⟩
    rw [Finset.erase_eq_of_notMem hk, hnone]
    rfl

/-- Writing an entry replaces the measure of the old value by that of the new one. -/
theorem tally_insert (f : V → ℕ) (m : ExtTreeMap K V) (k : K) (v : V) :
    tally f (m.insert k v) + (m[k]?).elim 0 f = tally f m + f v := by
  have herase : (m.insert k v).erase k = m.erase k := by
    refine ExtTreeMap.ext_getElem? fun x ↦ ?_
    simp only [getElem?_erase_eq, getElem?_insert_eq]
    split <;> rfl
  have h₁ := tally_erase f (m.insert k v) k
  have h₂ := tally_erase f m k
  rw [herase, ExtTreeMap.getElem?_insert_self, Option.elim_some] at h₁
  omega

/-! ## Counts -/

/-- How many entries of a map have a property. -/
def countOf (p : K → V → Bool) (m : ExtTreeMap K V) : ℕ := m.toList.countP fun x ↦ p x.1 x.2

section

variable (p : K → V → Bool)

omit [DecidableEq K] in
@[simp] theorem countOf_empty : countOf p (∅ : ExtTreeMap K V) = 0 := by
  simp [countOf]

omit [DecidableEq K] in
theorem nodup_toList (m : ExtTreeMap K V) : m.toList.Nodup :=
  ExtTreeMap.distinct_keys_toList.imp fun hne heq ↦ hne (by rw [heq]; exact ReflOrd.compare_self)

/-- An entry and what is left without it are the whole map. -/
theorem perm_erase {k : K} {v : V} (h : m[k]? = some v) :
    m.toList.Perm ((k, v) :: (m.erase k).toList) := by
  have hout : (k, v) ∉ (m.erase k).toList := by
    rw [ExtTreeMap.mem_toList_iff_getElem?_eq_some, getElem?_erase_eq, if_pos rfl]
    exact nofun
  refine (List.perm_ext_iff_of_nodup (nodup_toList m)
    (List.nodup_cons.mpr ⟨hout, nodup_toList _⟩)).mpr ?_
  rintro ⟨x, w⟩
  rw [List.mem_cons, ExtTreeMap.mem_toList_iff_getElem?_eq_some,
    ExtTreeMap.mem_toList_iff_getElem?_eq_some, getElem?_erase_eq]
  by_cases hx : k = x
  · subst hx
    rw [if_pos rfl, h, Option.some_inj, Prod.mk.injEq]
    exact ⟨fun h ↦ Or.inl ⟨rfl, h.symm⟩, fun h ↦ h.elim (fun h ↦ h.2.symm) nofun⟩
  · rw [if_neg hx, Prod.mk.injEq]
    exact ⟨Or.inr, fun h ↦ h.elim (fun h ↦ absurd h.1.symm hx) id⟩

/-- Removing an entry counts it off if it had the property. -/
theorem countOf_erase (m : ExtTreeMap K V) (k : K) :
    countOf p (m.erase k) + (m[k]?).elim 0 (fun v ↦ (p k v).toNat) = countOf p m := by
  cases hk : m[k]? with
  | none =>
      have hsame : m.erase k = m := by
        refine ExtTreeMap.ext_getElem? fun x ↦ ?_
        rw [getElem?_erase_eq]
        split
        next h => rw [← h, hk]
        next => rfl
      rw [hsame]
      rfl
  | some v =>
      rw [countOf, countOf, (perm_erase hk).countP_eq, List.countP_cons]
      rw [Option.elim_some]
      cases p k v <;> rfl

theorem countOf_insert (m : ExtTreeMap K V) (k : K) (v : V) :
    countOf p (m.insert k v) = countOf p (m.erase k) + (p k v).toNat := by
  have herase : (m.insert k v).erase k = m.erase k := by
    refine ExtTreeMap.ext_getElem? fun x ↦ ?_
    simp only [getElem?_erase_eq, getElem?_insert_eq]
    split <;> rfl
  have h := countOf_erase p (m.insert k v) k
  rw [herase, ExtTreeMap.getElem?_insert_self, Option.elim_some] at h
  exact h.symm

/-- Replacing a value by one that has the property if it did. -/
theorem countOf_insert_of_eq {k : K} {v w : V} (h : m[k]? = some v) (hp : p k w = p k v) :
    countOf p (m.insert k w) = countOf p m := by
  rw [countOf_insert, hp, ← countOf_erase p m k, h, Option.elim_some]

omit [DecidableEq K] in
theorem countOf_pos : 0 < countOf p m ↔ ∃ k v, m[k]? = some v ∧ p k v = true := by
  rw [countOf, List.countP_pos_iff]
  constructor
  · rintro ⟨x, hx, hp⟩
    exact ⟨x.1, x.2, ExtTreeMap.mem_toList_iff_getElem?_eq_some.mp hx, hp⟩
  · rintro ⟨k, v, hv, hp⟩
    exact ⟨(k, v), ExtTreeMap.mem_toList_iff_getElem?_eq_some.mpr hv, hp⟩

/-- A set that holds the keys of the entries with a property counts them. -/
theorem countOf_eq_card {s : Finset K} (h : ∀ k, k ∈ s ↔ ∃ v, m[k]? = some v ∧ p k v = true) :
    countOf p m = s.card := by
  have hnodup : ((m.toList.filter fun x ↦ p x.1 x.2).map Prod.fst).Nodup := by
    have hpair : m.toList.Pairwise fun x y ↦ x.1 ≠ y.1 :=
      ExtTreeMap.distinct_keys_toList.imp fun hne heq ↦
        hne (by rw [heq]; exact ReflOrd.compare_self)
    exact List.pairwise_map.mpr (hpair.filter _)
  have hset : s = ((m.toList.filter fun x ↦ p x.1 x.2).map Prod.fst).toFinset := by
    ext k
    rw [h, List.mem_toFinset, List.mem_map]
    constructor
    · rintro ⟨v, hv, hp⟩
      exact ⟨(k, v), List.mem_filter.mpr
        ⟨ExtTreeMap.mem_toList_iff_getElem?_eq_some.mpr hv, hp⟩, rfl⟩
    · rintro ⟨x, hx, rfl⟩
      obtain ⟨hmem, hp⟩ := List.mem_filter.mp hx
      exact ⟨x.2, ExtTreeMap.mem_toList_iff_getElem?_eq_some.mp hmem, hp⟩
  rw [hset, List.toFinset_card_of_nodup hnodup, List.length_map, countOf,
    List.countP_eq_length_filter]

omit [DecidableEq K] [LawfulEqOrd K] in
theorem countOf_le_size : countOf p m ≤ m.size :=
  List.countP_le_length.trans_eq ExtTreeMap.length_toList

end

/-! ## The largest entry -/

/-- A loop that keeps the first key of largest measure ends at its start or at a key of the
list, and no key measures more. -/
theorem foldl_argmax {K : Type*} (f : K → ℤ) (ks : List K) (init : K × ℤ) :
    let r := ks.foldl (fun best k ↦ if best.2 < f k then (k, f k) else best) init
    (r = init ∨ r.1 ∈ ks ∧ r.2 = f r.1) ∧ init.2 ≤ r.2 ∧ ∀ k ∈ ks, f k ≤ r.2 := by
  induction ks generalizing init with
  | nil => exact ⟨Or.inl rfl, Int.le_refl _, by simp⟩
  | cons x ks ih =>
      rw [List.foldl_cons]
      obtain ⟨hfrom, hle, hmax⟩ := ih (if init.2 < f x then (x, f x) else init)
      by_cases hx : init.2 < f x
      · rw [if_pos hx] at hfrom hle hmax ⊢
        refine ⟨Or.inr ?_, by omega, ?_⟩
        · rcases hfrom with hr | ⟨hmem, hr⟩
          · rw [hr]
            exact ⟨List.mem_cons_self, rfl⟩
          · exact ⟨List.mem_cons_of_mem x hmem, hr⟩
        · rintro k hk
          rcases List.mem_cons.mp hk with rfl | hk
          · exact hle
          · exact hmax k hk
      · rw [if_neg hx] at hfrom hle hmax ⊢
        refine ⟨?_, hle, ?_⟩
        · rcases hfrom with hr | ⟨hmem, hr⟩
          · exact Or.inl hr
          · exact Or.inr ⟨List.mem_cons_of_mem x hmem, hr⟩
        · rintro k hk
          rcases List.mem_cons.mp hk with rfl | hk
          · omega
          · exact hmax k hk

/-! ## Visiting orders -/

/-- The order in which one loop over a map visits its keys.  A language may leave it
unspecified, so a model takes it as an argument. -/
structure RangeOrder (K : Type*) where
  visit : List K → List K
  perm : ∀ ks, (visit ks).Perm ks

instance : Inhabited (RangeOrder K) := ⟨⟨id, fun _ ↦ List.Perm.refl _⟩⟩

@[simp] theorem RangeOrder.mem_visit {K : Type*} (σ : RangeOrder K) {ks : List K} {k : K} :
    k ∈ σ.visit ks ↔ k ∈ ks := (σ.perm ks).mem_iff

/-! ## Submaps -/

/-- Every entry of `m` is an entry of `m'`. -/
def Submap (m m' : ExtTreeMap K V) : Prop :=
  ∀ (k : K) (v : V), m[k]? = some v → m'[k]? = some v

theorem Submap.keySet_subset {m m' : ExtTreeMap K V} (h : Submap m m') :
    keySet m ⊆ keySet m' := fun k hk ↦ by
  obtain ⟨v, hv⟩ := mem_keySet.mp hk
  exact mem_keySet.mpr ⟨v, h k v hv⟩

theorem Submap.size_le {m m' : ExtTreeMap K V} (h : Submap m m') : m.size ≤ m'.size := by
  rw [← card_keySet, ← card_keySet]
  exact Finset.card_le_card h.keySet_subset

theorem Submap.tally_le {m m' : ExtTreeMap K V} (h : Submap m m') (f : V → ℕ) :
    tally f m ≤ tally f m' := by
  have hsame : tally f m = ∑ k ∈ keySet m, (m'[k]?).elim 0 f := by
    refine Finset.sum_congr rfl fun k hk ↦ ?_
    obtain ⟨v, hv⟩ := mem_keySet.mp hk
    rw [hv, h k v hv]
  rw [hsame]
  exact Finset.sum_le_sum_of_subset h.keySet_subset

/-- A submap with as many entries as the whole is the whole. -/
theorem Submap.eq_of_size_le {m m' : ExtTreeMap K V} (h : Submap m m')
    (hsize : m'.size ≤ m.size) : m = m' := by
  rw [← card_keySet, ← card_keySet] at hsize
  have hkeys := Finset.eq_of_subset_of_card_le h.keySet_subset hsize
  refine ExtTreeMap.ext_getElem? fun k ↦ ?_
  cases hv : m[k]? with
  | some v => exact (h k v hv).symm
  | none =>
      have hk : k ∉ keySet m' := fun hk ↦ by
        rw [← hkeys, mem_keySet, hv] at hk
        exact absurd hk (by simp)
      exact (Option.eq_none_iff_forall_ne_some.mpr fun v hv' ↦
        hk (mem_keySet.mpr ⟨v, hv'⟩)).symm

end EdgeMulticast.Lib

/-!
## Keys ordered by their fields

An ordered map keyed by a record compares keys field by field.  `TransCmp` of such a comparison
is in the library; that it tells different records apart is `lawfulEqCmp_compareLex`.

`Scoped` is the commonest such key: a number that names something within a scope.
-/

namespace EdgeMulticast.Lib

open Std

/-- Comparing by two fields that determine a record tells different records apart. -/
theorem lawfulEqCmp_compareLex {K A : Type*} [Ord A] [TransOrd A] [LawfulEqOrd A] {f : K → A}
    {c : K → K → Ordering} [TransCmp c]
    (h : ∀ a b, f a = f b → c a b = .eq → a = b) : LawfulEqCmp (compareLex (compareOn f) c) where
  compare_self := ReflCmp.compare_self
  eq_of_compare {a b} hab := by
    obtain ⟨hf, hcmp⟩ := compareLex_eq_eq.mp hab
    exact h a b (LawfulEqOrd.eq_of_compare hf) hcmp

/-- A number within a scope. -/
@[ext] structure Scoped (S : Type*) where
  scope : S
  id : ℕ
deriving DecidableEq, Repr

namespace Scoped

variable {S : Type*} [Ord S] [TransOrd S]

instance : Ord (Scoped S) := ⟨compareLex (compareOn scope) (compareOn id)⟩

instance : TransOrd (Scoped S) :=
  inferInstanceAs (TransCmp (compareLex (compareOn scope) (compareOn id)))

instance [LawfulEqOrd S] : LawfulEqOrd (Scoped S) :=
  lawfulEqCmp_compareLex (c := compareOn (id (S := S))) fun a b hscope hid ↦ by
    have hid' : a.id = b.id := LawfulEqOrd.eq_of_compare hid
    cases a; cases b
    simp_all

end Scoped

end EdgeMulticast.Lib

/-!
## Groups of a list, and the best of a set

`grouped` folds a list into one value a key; what stands under a key is the fold of the elements
that have it (`getElem?_grouped`).  `IsTop` says that a list is the best few elements of a set in
order, which a sorted list cut off is (`isTop_take`).
-/

namespace EdgeMulticast.Lib

open Std (ExtTreeMap TransOrd LawfulEqOrd)

/-! ## Groups -/

section

variable {α K V : Type*} [DecidableEq K] [Ord K] [TransOrd K] [LawfulEqOrd K]

/-- One value a key: the start of the key, with every element of the key added. -/
def grouped (key : α → K) (start : K → V) (add : V → α → V) (l : List α) : ExtTreeMap K V :=
  l.foldl (fun m a ↦ m.insert (key a) (add ((m[key a]?).getD (start (key a))) a)) ∅

variable (key : α → K) (start : K → V) (add : V → α → V)

theorem getElem?_grouped (l : List α) (k : K) :
    (grouped key start add l)[k]? =
      if k ∈ l.map key then
        some ((l.filter fun a ↦ decide (key a = k)).foldl add (start k))
      else none := by
  induction l using List.reverseRecOn with
  | nil => simp [grouped]
  | append_singleton l a ih =>
      rw [grouped, List.foldl_concat, ← grouped, getElem?_insert_eq]
      by_cases hk : key a = k
      · subst hk
        have hfilter : (l ++ [a]).filter (fun b ↦ decide (key b = key a)) =
            l.filter (fun b ↦ decide (key b = key a)) ++ [a] := by
          simp
        rw [if_pos rfl, if_pos (by simp), hfilter, List.foldl_concat, ih]
        split
        next => rfl
        next hnone =>
          have hempty : l.filter (fun b ↦ decide (key b = key a)) = [] := by
            rw [List.filter_eq_nil_iff]
            intro b hb heq
            exact hnone (of_decide_eq_true heq ▸ List.mem_map_of_mem hb)
          rw [hempty]
          rfl
      · have hfilter : (l ++ [a]).filter (fun b ↦ decide (key b = k)) =
            l.filter (fun b ↦ decide (key b = k)) := by
          simp [hk]
        rw [if_neg hk, ih, hfilter]
        congr 1
        simp [Ne.symm hk]

theorem mem_keys_grouped {l : List α} {k : K} :
    k ∈ (grouped key start add l).keys ↔ k ∈ l.map key := by
  rw [ExtTreeMap.mem_keys, ExtTreeMap.mem_iff_isSome_getElem?, getElem?_grouped]
  split
  next h => simp [h]
  next h => simp [h]

end

/-! ## Visited values -/

section

variable {K V : Type*} [Ord K] [TransOrd K] [LawfulEqOrd K]

/-- The values of a map, in the order a loop over it meets them. -/
def visited (σ : RangeOrder K) (m : ExtTreeMap K V) : List V :=
  (σ.visit m.keys).filterMap fun k ↦ m[k]?

theorem perm_visited (σ : RangeOrder K) (m : ExtTreeMap K V) :
    (visited σ m).Perm (m.toList.map Prod.snd) := by
  have hvalues : m.keys.filterMap (fun k ↦ m[k]?) = m.toList.map Prod.snd := by
    rw [← ExtTreeMap.map_fst_toList_eq_keys, List.filterMap_map, ← List.filterMap_eq_map]
    refine List.filterMap_congr fun e he ↦ ?_
    exact ExtTreeMap.mem_toList_iff_getElem?_eq_some.mp he
  rw [← hvalues]
  exact (σ.perm m.keys).filterMap _

end

/-! ## The best of a set -/

variable {α : Type*}

/-- The best `n` elements of `s`, or all of them, in order. -/
structure IsTop (better : α → α → Prop) (s : Finset α) (n : ℕ) (l : List α) : Prop where
  length : l.length = min n s.card
  mem : ∀ a ∈ l, a ∈ s
  ordered : l.Pairwise better
  best : ∀ a ∈ l, ∀ b ∈ s, b ∉ l → better a b

theorem isTop_take [DecidableEq α] {better : α → α → Prop} {l : List α} (hnodup : l.Nodup)
    (hordered : l.Pairwise better) (n : ℕ) : IsTop better l.toFinset n (l.take n) where
  length := by rw [List.length_take, List.toFinset_card_of_nodup hnodup]
  mem := fun a ha ↦ List.mem_toFinset.mpr (List.mem_of_mem_take ha)
  ordered := hordered.sublist (List.take_sublist n l)
  best := by
    intro a ha b hb hout
    rw [List.mem_toFinset, ← List.take_append_drop n l, List.mem_append] at hb
    have hdrop : b ∈ l.drop n := hb.resolve_left hout
    rw [← List.take_append_drop n l, List.pairwise_append] at hordered
    exact hordered.2.2 a ha b hdrop

/-- A sorted list without repetition is strictly sorted. -/
theorem pairwise_strict_insertionSort {r : α → α → Prop} [DecidableRel r] [Std.Total r]
    [IsTrans α r] {l : List α} (hnodup : l.Nodup) :
    (l.insertionSort r).Pairwise fun a b ↦ r a b ∧ a ≠ b :=
  (List.pairwise_insertionSort r l).and ((List.perm_insertionSort r l).nodup_iff.mpr hnodup)

end EdgeMulticast.Lib

/-!
## The oldest entry of a map

A map visited in an unspecified order, the entry of the least age among those that a test keeps, and
the least age itself.
-/

namespace EdgeMulticast.Lib

open Std

variable {K V : Type*} [DecidableEq K] [Ord K] [TransOrd K] [LawfulEqOrd K]

/-- The entries of a map that a test keeps, in the order they are visited in. -/
def kept (σ : RangeOrder K) (keep : V → Bool) (m : ExtTreeMap K V) : List (K × V) :=
  (σ.visit m.keys).filterMap fun k ↦ (m[k]?.filter keep).map (k, ·)

/-- The key of the entry of the least age, the first one visited if there are several. -/
def oldest (σ : RangeOrder K) (age : V → ℕ) (keep : V → Bool) (m : ExtTreeMap K V) : Option K :=
  ((kept σ keep m).argmin fun e ↦ age e.2).map Prod.fst

/-- The least age. -/
def earliest (σ : RangeOrder K) (age : V → ℕ) (keep : V → Bool) (m : ExtTreeMap K V) : Option ℕ :=
  ((kept σ keep m).argmin fun e ↦ age e.2).map fun e ↦ age e.2

variable {σ : RangeOrder K} {age : V → ℕ} {keep : V → Bool} {m : ExtTreeMap K V} {k : K} {v : V}

theorem mem_kept : (k, v) ∈ kept σ keep m ↔ m[k]? = some v ∧ keep v = true := by
  rw [kept, List.mem_filterMap]
  constructor
  · rintro ⟨k', -, h⟩
    obtain ⟨v', hv', heq⟩ := Option.map_eq_some_iff.mp h
    obtain ⟨rfl, rfl⟩ := Prod.mk.inj heq
    exact Option.filter_eq_some_iff.mp hv'
  · rintro ⟨hv, hkeep⟩
    refine ⟨k, ?_, by rw [hv, Option.filter_some_pos hkeep, Option.map_some]⟩
    rw [RangeOrder.mem_visit, ← List.mem_toFinset]
    exact mem_keySet.mpr ⟨v, hv⟩

/-- There is none exactly when the test keeps nothing. -/
theorem oldest_eq_none :
    oldest σ age keep m = none ↔ ∀ (k : K) (v : V), m[k]? = some v → keep v = false := by
  rw [oldest, Option.map_eq_none_iff, List.argmin_eq_none, List.eq_nil_iff_forall_not_mem]
  constructor
  · intro h k v hv
    by_contra hkeep
    exact h (k, v) (mem_kept.mpr ⟨hv, Bool.not_eq_false _ ▸ hkeep⟩)
  · rintro h ⟨k, v⟩ hmem
    obtain ⟨hv, hkeep⟩ := mem_kept.mp hmem
    rw [h k v hv] at hkeep
    cases hkeep

/-- It is an entry that the test keeps, and none of those is older. -/
theorem of_oldest (h : oldest σ age keep m = some k) :
    ∃ v, m[k]? = some v ∧ keep v = true ∧
      ∀ (k' : K) (v' : V), m[k']? = some v' → keep v' = true → age v ≤ age v' := by
  obtain ⟨⟨k', v⟩, hmin, rfl⟩ := Option.map_eq_some_iff.mp h
  obtain ⟨hv, hkeep⟩ := mem_kept.mp (List.argmin_mem hmin)
  refine ⟨v, hv, hkeep, fun k'' v' hv' hkeep' ↦ ?_⟩
  have hmem : (k'', v') ∈ kept σ keep m := mem_kept.mpr ⟨hv', hkeep'⟩
  exact List.le_of_mem_argmin (f := fun e : K × V ↦ age e.2) hmem hmin

/-- No entry that the test keeps is older than the least age. -/
theorem earliest_getD_le {a : ℕ} (hv : m[k]? = some v) (hkeep : keep v = true) :
    (earliest σ age keep m).getD a ≤ age v := by
  cases hmin : (kept σ keep m).argmin fun e ↦ age e.2 with
  | none =>
      rw [List.argmin_eq_none] at hmin
      exact absurd (mem_kept (σ := σ).mpr ⟨hv, hkeep⟩) (hmin ▸ List.not_mem_nil)
  | some e =>
      rw [earliest, hmin, Option.map_some, Option.getD_some]
      have hmem : (k, v) ∈ kept σ keep m := mem_kept.mpr ⟨hv, hkeep⟩
      exact List.le_of_mem_argmin (f := fun e : K × V ↦ age e.2) hmem hmin

end EdgeMulticast.Lib
