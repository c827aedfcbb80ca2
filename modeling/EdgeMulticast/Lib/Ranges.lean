import Mathlib.Algebra.BigOperators.Group.List.Basic
import Mathlib.Algebra.GroupWithZero.Nat
import Mathlib.Data.Finset.Max
import Mathlib.Data.Finset.Union
import Mathlib.Order.Interval.Finset.Nat
import Mathlib.Tactic.Common

/-!
# Sets of numbers kept as lists of ranges

A set of numbers is kept as the list of its maximal ranges, ends included: ascending, disjoint,
and no two of them adjacent (`Separated`).  `covered` is the set a list stands for.

* Adding a number extends a range, joins two, or inserts a range of its own: `add_inside` to
  `add_new`, which all say that the list stays separated and covers one number more.
* The spaces between neighbouring ranges are the maximal runs of missing numbers
  (`mem_gaps_iff`), and the numbers covered and the numbers missing are those of the span
  (`sum_width_gaps`).
-/

namespace EdgeMulticast.Lib.Ranges

/-- The set a list of ranges stands for. -/
def covered : List (ℕ × ℕ) → Finset ℕ
  | [] => ∅
  | r :: rs => Finset.Icc r.1 r.2 ∪ covered rs

/-- Ascending, disjoint, and no two ranges adjacent. -/
structure Separated (rs : List (ℕ × ℕ)) : Prop where
  le : ∀ r ∈ rs, r.1 ≤ r.2
  apart : rs.Pairwise fun r s ↦ r.2 + 1 < s.1

/-- How many numbers a range has. -/
def width (r : ℕ × ℕ) : ℕ := r.2 - r.1 + 1

variable {rs pre post : List (ℕ × ℕ)} {r s : ℕ × ℕ} {m n : ℕ}

/-! ## What a list covers -/

theorem mem_covered : m ∈ covered rs ↔ ∃ r ∈ rs, r.1 ≤ m ∧ m ≤ r.2 := by
  induction rs with
  | nil => simp [covered]
  | cons r rs ih => simp [covered, ih]

@[simp] theorem covered_cons : covered (r :: rs) = Finset.Icc r.1 r.2 ∪ covered rs := rfl

@[simp] theorem covered_append : covered (pre ++ post) = covered pre ∪ covered post := by
  ext m
  simp only [mem_covered, Finset.mem_union, List.mem_append, or_and_right, exists_or]

theorem separated_cons : Separated (r :: rs) ↔
    r.1 ≤ r.2 ∧ (∀ s ∈ rs, r.2 + 1 < s.1) ∧ Separated rs := by
  constructor
  · rintro ⟨hle, hapart⟩
    obtain ⟨hr, hrs⟩ := List.pairwise_cons.mp hapart
    exact ⟨hle r List.mem_cons_self, hr, fun s hs ↦ hle s (List.mem_cons_of_mem _ hs), hrs⟩
  · rintro ⟨hle, hr, hrs⟩
    exact ⟨List.forall_mem_cons.mpr ⟨hle, hrs.le⟩, List.pairwise_cons.mpr ⟨hr, hrs.apart⟩⟩

theorem separated_append : Separated (pre ++ post) ↔
    Separated pre ∧ Separated post ∧ ∀ r ∈ pre, ∀ s ∈ post, r.2 + 1 < s.1 := by
  constructor
  · rintro ⟨hle, hapart⟩
    obtain ⟨hpre, hpost, hacross⟩ := List.pairwise_append.mp hapart
    exact ⟨⟨fun r hr ↦ hle r (List.mem_append_left _ hr), hpre⟩,
      ⟨fun r hr ↦ hle r (List.mem_append_right _ hr), hpost⟩, hacross⟩
  · rintro ⟨hpre, hpost, hacross⟩
    exact ⟨fun r hr ↦ (List.mem_append.mp hr).elim (hpre.le r) (hpost.le r),
      List.pairwise_append.mpr ⟨hpre.apart, hpost.apart, hacross⟩⟩

/-- A range in the middle of a list stands between the others. -/
theorem separated_middle : Separated (pre ++ r :: post) ↔
    Separated pre ∧ Separated post ∧ r.1 ≤ r.2 ∧ (∀ s ∈ pre, s.2 + 1 < r.1) ∧
      ∀ s ∈ post, r.2 + 1 < s.1 := by
  rw [separated_append, separated_cons]
  constructor
  · rintro ⟨hpre, ⟨hle, hafter, hpost⟩, hacross⟩
    exact ⟨hpre, hpost, hle, fun s hs ↦ hacross s hs r List.mem_cons_self, hafter⟩
  · rintro ⟨hpre, hpost, hle, hbefore, hafter⟩
    refine ⟨hpre, ⟨hle, hafter, hpost⟩, fun s hs t ht ↦ ?_⟩
    rcases List.mem_cons.mp ht with rfl | ht
    · exact hbefore s hs
    · have := hbefore s hs
      have := hafter t ht
      omega

/-! ## Adding a number -/

/-- The number extends a range to the right, and the next range is further away. -/
theorem add_right (h : Separated (pre ++ r :: post)) (hnext : n = r.2 + 1)
    (hpost : ∀ s ∈ post, s.1 ≠ n + 1) :
    Separated (pre ++ (r.1, n) :: post) ∧
      covered (pre ++ (r.1, n) :: post) = insert n (covered (pre ++ r :: post)) := by
  obtain ⟨hpre, hsep, hle, hbefore, hafter⟩ := separated_middle.mp h
  constructor
  · refine separated_middle.mpr ⟨hpre, hsep, ?_, hbefore, fun s hs ↦ ?_⟩
    · show r.1 ≤ n
      omega
    · have := hafter s hs
      have := hpost s hs
      show n + 1 < s.1
      omega
  · ext m
    simp only [covered_append, covered_cons, Finset.mem_insert, Finset.mem_union, Finset.mem_Icc]
    have hm : r.1 ≤ m ∧ m ≤ n ↔ m = n ∨ (r.1 ≤ m ∧ m ≤ r.2) := by omega
    rw [hm]
    tauto

/-- The number is all that is missing between two ranges. -/
theorem add_bridge (h : Separated (pre ++ r :: s :: post)) (hleft : n = r.2 + 1)
    (hright : s.1 = n + 1) :
    Separated (pre ++ (r.1, s.2) :: post) ∧
      covered (pre ++ (r.1, s.2) :: post) = insert n (covered (pre ++ r :: s :: post)) := by
  obtain ⟨hpre, hsep, hle, hbefore, -⟩ := separated_middle.mp h
  obtain ⟨hle', hafter, hsep⟩ := separated_cons.mp hsep
  constructor
  · refine separated_middle.mpr ⟨hpre, hsep, ?_, hbefore, hafter⟩
    show r.1 ≤ s.2
    omega
  · ext m
    simp only [covered_append, covered_cons, Finset.mem_insert, Finset.mem_union, Finset.mem_Icc]
    have hm : r.1 ≤ m ∧ m ≤ s.2 ↔ m = n ∨ (r.1 ≤ m ∧ m ≤ r.2) ∨ (s.1 ≤ m ∧ m ≤ s.2) := by omega
    rw [hm]
    tauto

/-- The number extends a range to the left, and the range before is further away. -/
theorem add_left (h : Separated (pre ++ r :: post)) (hnext : r.1 = n + 1)
    (hpre' : ∀ s ∈ pre, s.2 + 1 < n) :
    Separated (pre ++ (n, r.2) :: post) ∧
      covered (pre ++ (n, r.2) :: post) = insert n (covered (pre ++ r :: post)) := by
  obtain ⟨hpre, hsep, hle, -, hafter⟩ := separated_middle.mp h
  constructor
  · refine separated_middle.mpr ⟨hpre, hsep, ?_, hpre', hafter⟩
    show n ≤ r.2
    omega
  · ext m
    simp only [covered_append, covered_cons, Finset.mem_insert, Finset.mem_union, Finset.mem_Icc]
    have hm : n ≤ m ∧ m ≤ r.2 ↔ m = n ∨ (r.1 ≤ m ∧ m ≤ r.2) := by omega
    rw [hm]
    tauto

/-- The number is adjacent to no range. -/
theorem add_new (h : Separated (pre ++ post)) (hpre' : ∀ s ∈ pre, s.2 + 1 < n)
    (hpost' : ∀ s ∈ post, n + 1 < s.1) :
    Separated (pre ++ (n, n) :: post) ∧
      covered (pre ++ (n, n) :: post) = insert n (covered (pre ++ post)) := by
  obtain ⟨hpre, hpost, -⟩ := separated_append.mp h
  constructor
  · exact separated_middle.mpr ⟨hpre, hpost, Nat.le_refl n, hpre', hpost'⟩
  · ext m
    simp only [covered_append, covered_cons, Finset.mem_insert, Finset.mem_union,
      Finset.Icc_self, Finset.mem_singleton]
    tauto

/-! ## What is missing -/

/-- The spaces between neighbouring ranges. -/
def gaps : List (ℕ × ℕ) → List (ℕ × ℕ)
  | r :: s :: rs => (r.2 + 1, s.1 - 1) :: gaps (s :: rs)
  | _ => []

/-- A maximal run of numbers that are not in the set, between two that are. -/
structure IsGap (S : Finset ℕ) (g : ℕ × ℕ) : Prop where
  le : g.1 ≤ g.2
  before : ∃ m ∈ S, g.1 = m + 1
  missing : ∀ m, g.1 ≤ m → m ≤ g.2 → m ∉ S
  after : g.2 + 1 ∈ S

/-- A gap ends right before a number of the set whose predecessor is missing, above another. -/
theorem exists_isGap_iff {S : Finset ℕ} {n : ℕ} :
    (∃ g, IsGap S g ∧ g.2 + 1 = n) ↔ n ∈ S ∧ n - 1 ∉ S ∧ ∃ m ∈ S, m < n := by
  constructor
  · rintro ⟨g, hg, rfl⟩
    obtain ⟨m, hm, hbefore⟩ := hg.before
    have hle := hg.le
    refine ⟨hg.after, ?_, m, hm, by omega⟩
    rw [Nat.add_sub_cancel]
    exact hg.missing _ hle (Nat.le_refl _)
  · rintro ⟨hn, hbefore, m, hm, hlt⟩
    have hne : (S.filter (· < n)).Nonempty := ⟨m, Finset.mem_filter.mpr ⟨hm, hlt⟩⟩
    obtain ⟨hmax, hmaxlt⟩ := Finset.mem_filter.mp (Finset.max'_mem _ hne)
    have hgreatest (x : ℕ) (hx : x ∈ S) (hxn : x < n) : x ≤ (S.filter (· < n)).max' hne :=
      Finset.le_max' _ x (Finset.mem_filter.mpr ⟨hx, hxn⟩)
    generalize (S.filter (· < n)).max' hne = top at hmax hmaxlt hgreatest
    have htop : top ≠ n - 1 := fun heq ↦ hbefore (heq ▸ hmax)
    refine ⟨(top + 1, n - 1), ⟨by dsimp only; omega, ⟨top, hmax, rfl⟩, fun x hlow hhigh hx ↦ ?_, ?_⟩, ?_⟩
    · have := hgreatest x hx (by dsimp only at hhigh; omega)
      dsimp only at hlow
      omega
    · rwa [Nat.sub_add_cancel (by omega)]
    · exact Nat.sub_add_cancel (by omega)

/-- A missing number between two of the set lies in a gap. -/
theorem exists_isGap_of_notMem {S : Finset ℕ} {m n m' : ℕ} (hn : n ∉ S) (hm : m ∈ S) (hlt : m < n)
    (hm' : m' ∈ S) (hlt' : n < m') : ∃ g, IsGap S g ∧ g.1 ≤ n ∧ n ≤ g.2 := by
  have hne : (S.filter (n < ·)).Nonempty := ⟨m', Finset.mem_filter.mpr ⟨hm', hlt'⟩⟩
  obtain ⟨hmin, hminlt⟩ := Finset.mem_filter.mp (Finset.min'_mem _ hne)
  have hleast (x : ℕ) (hx : x ∈ S) (hnx : n < x) : (S.filter (n < ·)).min' hne ≤ x :=
    Finset.min'_le _ x (Finset.mem_filter.mpr ⟨hx, hnx⟩)
  generalize (S.filter (n < ·)).min' hne = next at hmin hminlt hleast
  have hbefore : next - 1 ∉ S := by
    intro hmem
    rcases Nat.lt_or_ge n (next - 1) with hbeyond | hbeyond
    · have := hleast _ hmem hbeyond
      omega
    · obtain rfl : n = next - 1 := by omega
      exact hn hmem
  obtain ⟨g, hg, rfl⟩ := exists_isGap_iff.mpr ⟨hmin, hbefore, m, hm, hlt.trans hminlt⟩
  refine ⟨g, hg, ?_, Nat.le_of_lt_succ hminlt⟩
  obtain ⟨x, hx, hstart⟩ := hg.before
  have hle := hg.le
  by_contra hafter
  have hnx : n ≠ x := fun heq ↦ hn (heq ▸ hx)
  have := hleast x hx (by omega)
  omega

/-- An interval is in the set when it lies between two ends of the set and meets no gap. -/
theorem interval_subset_iff {S : Finset ℕ} {first last a b : ℕ} (hfirst : first ∈ S)
    (hlast : last ∈ S) (hends : ∀ m ∈ S, first ≤ m ∧ m ≤ last) (hle : a ≤ b) :
    (∀ n, a ≤ n → n ≤ b → n ∈ S) ↔
      first ≤ a ∧ b ≤ last ∧ ∀ g, IsGap S g → ¬(g.1 ≤ b ∧ a ≤ g.2) := by
  constructor
  · intro h
    refine ⟨(hends a (h a (Nat.le_refl a) hle)).1, (hends b (h b hle (Nat.le_refl b))).2, ?_⟩
    rintro g hg ⟨hlow, hhigh⟩
    refine hg.missing (max g.1 a) (Nat.le_max_left ..) (Nat.max_le.mpr ⟨hg.le, hhigh⟩) ?_
    exact h _ (Nat.le_max_right ..) (Nat.max_le.mpr ⟨hlow, hle⟩)
  · rintro ⟨hlow, hhigh, hmeets⟩ n han hnb
    by_contra hn
    have hnfirst : first ≠ n := fun heq ↦ hn (heq ▸ hfirst)
    have hnlast : last ≠ n := fun heq ↦ hn (heq ▸ hlast)
    obtain ⟨g, hg, hstart, hend⟩ :=
      exists_isGap_of_notMem hn hfirst (by omega) hlast (by omega)
    exact hmeets g hg ⟨hstart.trans hnb, han.trans hend⟩

/-- Nothing of a separated list lies below its first range. -/
theorem le_of_mem_covered (h : Separated (r :: rs)) (hm : m ∈ covered (r :: rs)) : r.1 ≤ m := by
  obtain ⟨-, hafter, -⟩ := separated_cons.mp h
  obtain ⟨s, hs, hle, -⟩ := mem_covered.mp hm
  rcases List.mem_cons.mp hs with rfl | hs
  · exact hle
  · have := hafter s hs
    have := (separated_cons.mp h).1
    omega

/-- Between the first range and the rest of the list there is one run of missing numbers. -/
theorem isGap_cons (h : Separated (r :: s :: rs)) {g : ℕ × ℕ} :
    IsGap (covered (r :: s :: rs)) g ↔
      g = (r.2 + 1, s.1 - 1) ∨ IsGap (covered (s :: rs)) g := by
  obtain ⟨hle, hafter, hsep⟩ := separated_cons.mp h
  have hspace := hafter s List.mem_cons_self
  have hle' := (separated_cons.mp hsep).1
  have hrest : ∀ m, m ∈ covered (s :: rs) → s.1 ≤ m := fun m ↦ le_of_mem_covered hsep
  have hmem : ∀ m, m ∈ covered (r :: s :: rs) ↔ (r.1 ≤ m ∧ m ≤ r.2) ∨ m ∈ covered (s :: rs) := by
    intro m
    rw [covered_cons, Finset.mem_union, Finset.mem_Icc]
  have hs : s.1 ∈ covered (s :: rs) :=
    mem_covered.mpr ⟨s, List.mem_cons_self, Nat.le_refl _, hle'⟩
  constructor
  · rintro ⟨hg, ⟨b, hb, hbefore⟩, hmissing, hend⟩
    rcases (hmem b).mp hb with ⟨hb', hb⟩ | hb
    · -- the run starts at the end of the first range, so it ends where the next one starts
      left
      have hstart : g.1 = r.2 + 1 := by
        by_contra hne
        exact hmissing g.1 (Nat.le_refl _) hg ((hmem _).mpr (.inl (by omega)))
      have hstop : s.1 ≤ g.2 + 1 := by
        rcases (hmem _).mp hend with hin | hin
        · omega
        · exact hrest _ hin
      have hbelow : ¬s.1 ≤ g.2 := fun hge ↦ hmissing s.1 (by omega) hge ((hmem _).mpr (.inr hs))
      exact Prod.ext hstart (by show g.2 = s.1 - 1; omega)
    · right
      have hgeb := hrest b hb
      refine ⟨hg, ⟨b, hb, hbefore⟩, fun m hm hm' hin ↦ hmissing m hm hm' ((hmem m).mpr (.inr hin)), ?_⟩
      rcases (hmem _).mp hend with hin | hin
      · omega
      · exact hin
  · rintro (rfl | ⟨hg, ⟨b, hb, hbefore⟩, hmissing, hend⟩)
    · refine ⟨by dsimp only; omega, ⟨r.2, (hmem _).mpr (.inl ⟨hle, Nat.le_refl _⟩), rfl⟩, ?_, ?_⟩
      · intro m hm hm' hin
        rcases (hmem m).mp hin with hin | hin
        · dsimp only at hm
          omega
        · have := hrest m hin
          dsimp only at hm'
          omega
      · show s.1 - 1 + 1 ∈ _
        rw [show s.1 - 1 + 1 = s.1 by omega]
        exact (hmem _).mpr (.inr hs)
    · refine ⟨hg, ⟨b, (hmem b).mpr (.inr hb), hbefore⟩, fun m hm hm' hin ↦ ?_,
        (hmem _).mpr (.inr hend)⟩
      have := hrest b hb
      rcases (hmem m).mp hin with hin | hin
      · omega
      · exact hmissing m hm hm' hin

/-- A single range has no number missing. -/
theorem not_isGap_singleton {g : ℕ × ℕ} : ¬IsGap (covered [r]) g := by
  rintro ⟨hle, ⟨b, hb, hbefore⟩, hmissing, hend⟩
  simp only [covered, Finset.union_empty, Finset.mem_Icc] at hb hmissing hend
  exact hmissing g.1 (Nat.le_refl _) hle (by omega)

/-- **The spaces between neighbouring ranges are the maximal runs of missing numbers.** -/
theorem mem_gaps_iff (h : Separated rs) {g : ℕ × ℕ} : g ∈ gaps rs ↔ IsGap (covered rs) g := by
  induction rs with
  | nil => exact ⟨fun hg ↦ absurd hg List.not_mem_nil, fun hg ↦ absurd hg.after (by simp [covered])⟩
  | cons r rs ih =>
      cases rs with
      | nil => exact ⟨fun hg ↦ absurd hg List.not_mem_nil, fun hg ↦ absurd hg not_isGap_singleton⟩
      | cons s rs => rw [gaps, List.mem_cons, isGap_cons h, ih (separated_cons.mp h).2.2]

/-- The runs of missing numbers are themselves ascending and disjoint. -/
theorem pairwise_gaps (h : Separated rs) : (gaps rs).Pairwise fun g g' ↦ g.2 < g'.1 := by
  induction rs with
  | nil => exact .nil
  | cons r rs ih =>
      cases rs with
      | nil => exact .nil
      | cons s rs =>
          have hsep := (separated_cons.mp h).2.2
          refine List.pairwise_cons.mpr ⟨fun g hg ↦ ?_, ih hsep⟩
          obtain ⟨b, hb, hbefore⟩ := ((mem_gaps_iff hsep).mp hg).before
          have := le_of_mem_covered hsep hb
          show s.1 - 1 < g.1
          omega

/-- A list covers as many numbers as its ranges have. -/
theorem card_covered (h : Separated rs) : (covered rs).card = (rs.map width).sum := by
  induction rs with
  | nil => rfl
  | cons r rs ih =>
      obtain ⟨hle, hafter, hsep⟩ := separated_cons.mp h
      have hdisjoint : Disjoint (Finset.Icc r.1 r.2) (covered rs) := by
        rw [Finset.disjoint_left]
        intro m hm hin
        obtain ⟨s, hs, hge, -⟩ := mem_covered.mp hin
        have := hafter s hs
        have := (Finset.mem_Icc.mp hm).2
        omega
      rw [covered_cons, Finset.card_union_of_disjoint hdisjoint, ih hsep, Nat.card_Icc,
        List.map_cons, List.sum_cons, width]
      omega

/-- Nothing of a separated list lies above its last range. -/
theorem le_last_of_mem_covered (h : Separated rs) (hne : rs ≠ []) (hm : m ∈ covered rs) :
    m ≤ (rs.getLast hne).2 := by
  obtain ⟨s, hs, -, hle⟩ := mem_covered.mp hm
  have hcut := List.dropLast_append_getLast hne
  rw [← hcut] at h hs
  obtain ⟨-, -, hlast, hbefore, -⟩ := separated_middle.mp h
  rcases List.mem_append.mp hs with hs | hs
  · have := hbefore s hs
    omega
  · rwa [List.mem_singleton.mp hs] at hle

/-- **What is covered and what is missing make up the span.** -/
theorem sum_width_gaps (h : Separated rs) (hfirst : rs.head? = some r)
    (hlast : rs.getLast? = some s) :
    ((gaps rs).map width).sum + (rs.map width).sum = width (r.1, s.2) := by
  induction rs generalizing r with
  | nil => simp at hfirst
  | cons r' rs ih =>
      obtain rfl : r' = r := by simpa using hfirst
      cases rs with
      | nil =>
          obtain rfl : r' = s := by simpa using hlast
          simp [gaps, width]
      | cons t rs =>
          obtain ⟨hle, hafter, hsep⟩ := separated_cons.mp h
          have hspace := hafter t List.mem_cons_self
          rw [List.getLast?_cons_cons] at hlast
          have hrest := ih hsep rfl hlast
          have hmem := List.mem_of_getLast? hlast
          have hend := le_of_mem_covered hsep
            (mem_covered.mpr ⟨s, hmem, hsep.le s hmem, Nat.le_refl _⟩)
          rw [gaps, List.map_cons, List.sum_cons, List.map_cons, List.sum_cons]
          simp only [width] at hrest ⊢
          omega

end EdgeMulticast.Lib.Ranges
