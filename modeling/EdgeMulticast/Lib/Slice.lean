import EdgeMulticast.Lib.SortedInsert
import Mathlib.Data.List.Sort

/-!
# Slices of a shared backing array

A slice is a window on a backing array.  Appending to it writes into the array while there are
spare cells and moves to a new array when there are none, and sorting it permutes the array in
place.  A loop that ranges over a slice keeps reading the array it started on, so it sees an
append and a sort made inside it for as long as the array is the same (`gen`).

The order in which an unstable sort leaves elements of equal key is open, and so is the capacity
of a new array: a model takes both as arguments.
-/

namespace EdgeMulticast.Lib

variable {α : Type*}

/-- A sort by a key.  What it does with ties is left open. -/
structure SortBy (key : α → ℕ) where
  sort : List α → List α
  perm : ∀ l, (sort l).Perm l
  sorted : ∀ l, SortedBy key (sort l)

instance (key : α → ℕ) : Inhabited (SortBy key) where
  default :=
    { sort := List.insertionSort fun a b ↦ key a ≤ key b
      perm := List.perm_insertionSort _
      sorted := by
        have : Std.Total fun a b : α ↦ key a ≤ key b := ⟨fun a b ↦ Nat.le_total _ _⟩
        have : IsTrans α fun a b ↦ key a ≤ key b := ⟨fun a b c ↦ le_trans⟩
        exact fun l ↦ List.pairwise_insertionSort _ l }

/-- In a sorted list, the elements behind as many as are small are large. -/
theorem SortedBy.le_of_mem_drop {key : α → ℕ} {l : List α} (h : SortedBy key l) {bound c : ℕ}
    (hc : l.countP (key · < bound) ≤ c) : ∀ x ∈ l.drop c, bound ≤ key x := by
  intro x hx
  by_contra hlt
  rw [not_le] at hlt
  obtain ⟨i, hi⟩ := List.mem_iff_getElem?.mp hx
  rw [List.getElem?_drop] at hi
  have hlen := (List.getElem?_eq_some_iff.mp hi).1
  have hsmall : (l.take (c + i + 1)).countP (key · < bound) = (l.take (c + i + 1)).length := by
    rw [List.countP_eq_length]
    intro y hy
    obtain ⟨j, hj⟩ := List.mem_iff_getElem?.mp hy
    have hjlt : j < c + i + 1 := by
      have := (List.getElem?_eq_some_iff.mp hj).1
      rw [List.length_take] at this
      omega
    rw [List.getElem?_take_of_lt hjlt] at hj
    have := h.key_mono (Nat.le_of_lt_succ hjlt) hj hi
    simpa using lt_of_le_of_lt this hlt
  have hle := (List.take_sublist (c + i + 1) l).countP_le (p := (key · < bound))
  rw [hsmall, List.length_take] at hle
  omega

/-- A window on a backing array.  `array` is the part of it in use, up to the end of the
window. -/
structure Slice (α : Type*) where
  array : List α
  off : ℕ
  /-- Free cells behind the window. -/
  spare : ℕ
  /-- Which allocation the array is. -/
  gen : ℕ
  off_le : off ≤ array.length

namespace Slice

/-- The slice without an array. -/
def nil : Slice α := ⟨[], 0, 0, 0, Nat.zero_le _⟩

instance : Inhabited (Slice α) := ⟨nil⟩

def toList (s : Slice α) : List α := s.array.drop s.off

/-- The slice without its first element, on the same array. -/
def tail (s : Slice α) : Slice α :=
  if h : s.off < s.array.length then { s with off := s.off + 1, off_le := h } else s

/-- Append: in place while there are spare cells, and otherwise on a new array with `grown`
of them. -/
def append (s : Slice α) (grown : ℕ) (a : α) : Slice α :=
  if s.spare = 0 then ⟨s.toList ++ [a], 0, grown, s.gen + 1, Nat.zero_le _⟩
  else { s with
    array := s.array ++ [a]
    spare := s.spare - 1
    off_le := by rw [List.length_append]; exact Nat.le_add_right_of_le s.off_le }

/-- Sort the window in place. -/
def sort {key : α → ℕ} (σ : SortBy key) (s : Slice α) : Slice α :=
  { s with
    array := s.array.take s.off ++ σ.sort s.toList
    off_le := by
      rw [List.length_append, List.length_take, Nat.min_eq_left s.off_le]
      exact Nat.le_add_right _ _ }

/-- A new array that holds a list, with `spare` cells behind it. -/
def ofList (l : List α) (spare gen : ℕ) : Slice α := ⟨l, 0, spare, gen, Nat.zero_le _⟩

variable {key : α → ℕ} (σ : SortBy key) (s : Slice α) (grown : ℕ) (a : α)

@[simp] theorem toList_nil : (nil : Slice α).toList = [] := rfl

@[simp] theorem toList_ofList (l : List α) (spare gen : ℕ) : (ofList l spare gen).toList = l := rfl

@[simp] theorem toList_append : (s.append grown a).toList = s.toList ++ [a] := by
  rw [append]
  split
  · rfl
  · exact List.drop_append_of_le_length s.off_le

@[simp] theorem toList_tail : s.tail.toList = s.toList.tail := by
  rw [tail]
  split
  · rw [toList, toList, List.tail_drop]
  next h =>
      have hnil : s.toList = [] := List.drop_eq_nil_of_le (Nat.le_of_not_lt h)
      rw [hnil]
      rfl

@[simp] theorem toList_sort : (s.sort σ).toList = σ.sort s.toList := by
  rw [toList, sort]
  exact List.drop_left' (by rw [List.length_take, Nat.min_eq_left s.off_le])

/-! ## A bounded sorted buffer -/

/-- Push into a sorted buffer of at most `limit` elements: the first element makes room, the
new one is appended, and the window is sorted. -/
def push (σ : SortBy key) (limit grown : ℕ) (s : Slice α) (a : α) : Slice α :=
  ((if limit ≤ s.toList.length then s.tail else s).append grown a).sort σ

variable (limit : ℕ)

theorem mem_push {x : α} (h : x ∈ (s.push σ limit grown a).toList) : x ∈ s.toList ∨ x = a := by
  rw [push, toList_sort, (σ.perm _).mem_iff, toList_append, List.mem_append,
    List.mem_singleton] at h
  refine h.imp_left fun hx ↦ ?_
  split at hx
  · rw [toList_tail] at hx
    exact List.mem_of_mem_tail hx
  · exact hx

theorem push_sorted : SortedBy key (s.push σ limit grown a).toList := by
  rw [push, toList_sort]
  exact σ.sorted _

theorem tail_frame : s.off ≤ s.tail.off ∧ s.tail.off ≤ s.off + 1 ∧ s.tail.array = s.array ∧
    s.tail.gen = s.gen := by
  rw [tail]
  split <;> simp

theorem append_gen : (s.append grown a).gen = s.gen ∨ (s.append grown a).gen = s.gen + 1 := by
  rw [append]
  split <;> simp

theorem append_in_place (h : (s.append grown a).gen = s.gen) :
    (s.append grown a).off = s.off ∧ (s.append grown a).array = s.array ++ [a] := by
  by_cases hspare : s.spare = 0
  · rw [append, if_pos hspare] at h
    exact absurd h (Nat.succ_ne_self _)
  · rw [append, if_neg hspare]
    exact ⟨rfl, rfl⟩

theorem push_gen : (s.push σ limit grown a).gen = s.gen ∨
    (s.push σ limit grown a).gen = s.gen + 1 := by
  change (Slice.append _ grown a).gen = _ ∨ (Slice.append _ grown a).gen = _
  split
  · rw [← s.tail_frame.2.2.2]
    exact append_gen ..
  · exact append_gen ..

/-- A push that stays on its array moves the window by at most one and sorts it with the new
element. -/
theorem push_in_place (h : (s.push σ limit grown a).gen = s.gen) :
    ∃ o, s.off ≤ o ∧ o ≤ s.off + 1 ∧ o ≤ s.array.length ∧ (s.push σ limit grown a).off = o ∧
      (s.push σ limit grown a).array = s.array.take o ++ σ.sort (s.array.drop o ++ [a]) := by
  generalize hs' : (if limit ≤ s.toList.length then s.tail else s) = s'
  have hframe : s.off ≤ s'.off ∧ s'.off ≤ s.off + 1 ∧ s'.array = s.array ∧ s'.gen = s.gen := by
    rw [← hs']
    split
    · exact s.tail_frame
    · exact ⟨le_refl _, Nat.le_succ _, rfl, rfl⟩
  obtain ⟨hlo, hhi, harray, hgen⟩ := hframe
  have hpush : s.push σ limit grown a = (s'.append grown a).sort σ := by rw [push, hs']
  rw [hpush] at h ⊢
  obtain ⟨hoff, harr⟩ := append_in_place s' grown a ((show (s'.append grown a).gen = s.gen from h).trans
    hgen.symm)
  refine ⟨s'.off, hlo, hhi, harray ▸ s'.off_le, hoff, ?_⟩
  change (s'.append grown a).array.take (s'.append grown a).off ++
    σ.sort (s'.append grown a).toList = _
  rw [toList_append, harr, hoff, List.take_append_of_le_length s'.off_le, toList, harray]

/-! ## Loops over a slice that is pushed to -/

/-- The array a loop over the slice `h` is on: that of the current slice, for as long as it has
not moved to a new one, and otherwise `arr`, the array as it was when it moved. -/
def ranged (h cur : Slice α) (arr : List α) : List α := if cur.gen = h.gen then cur.array else arr

/-- The state of such a loop at index `t`: what it ranges over satisfies `Good`, and what lies
before it is sorted and has keys from `bound` on. -/
structure Ranging (key : α → ℕ) (Good : α → Prop) (bound : ℕ) (h cur : Slice α) (arr : List α)
    (t : ℕ) : Prop where
  gen_le : h.gen ≤ cur.gen
  start_le : h.off ≤ t
  off_le : cur.gen = h.gen → h.off ≤ cur.off ∧ cur.off ≤ t
  good : ∀ x ∈ (ranged h cur arr).drop h.off, Good x
  bound : ∀ x ∈ (ranged h cur arr).drop t, bound ≤ key x
  sorted : SortedBy key ((ranged h cur arr).drop t)

theorem ranged_ranged (h cur : Slice α) (arr : List α) :
    ranged h cur (ranged h cur arr) = ranged h cur arr := by
  simp only [ranged]
  split <;> rfl

theorem mem_drop_of_le {l : List α} {m n : ℕ} (hmn : m ≤ n) {x : α} (h : x ∈ l.drop n) :
    x ∈ l.drop m := by
  obtain ⟨d, rfl⟩ := Nat.exists_eq_add_of_le hmn
  rw [← List.drop_drop] at h
  exact List.mem_of_mem_drop h

namespace Ranging

variable {Good : α → Prop} {bound t : ℕ} {h cur : Slice α} {arr : List α} {b : α}

theorem start {h : Slice α} (hgood : ∀ x ∈ h.toList, Good x) (hsorted : SortedBy key h.toList) :
    Ranging key Good 0 h h h.array h.off where
  gen_le := le_refl _
  start_le := le_refl _
  off_le := fun _ ↦ ⟨le_refl _, le_refl _⟩
  good := by
    rw [ranged, if_pos rfl]
    exact hgood
  bound := fun x _ ↦ Nat.zero_le _
  sorted := by
    rw [ranged, if_pos rfl]
    exact hsorted

theorem here (hr : Ranging key Good bound h cur arr t) (hb : (ranged h cur arr)[t]? = some b) :
    Good b ∧ bound ≤ key b := by
  have hmem : b ∈ (ranged h cur arr).drop t := by
    rw [List.mem_iff_getElem?]
    exact ⟨0, by rw [List.getElem?_drop]; exact hb⟩
  exact ⟨hr.good b (mem_drop_of_le hr.start_le hmem), hr.bound b hmem⟩

/-- Behind a visited element the keys are not smaller. -/
theorem le_of_mem (hr : Ranging key Good bound h cur arr t)
    (hb : (ranged h cur arr)[t]? = some b) : ∀ x ∈ (ranged h cur arr).drop t, key b ≤ key x := by
  intro x hx
  obtain ⟨i, hi⟩ := List.mem_iff_getElem?.mp hx
  refine hr.sorted.key_mono (Nat.zero_le i) ?_ hi
  rw [List.getElem?_drop]
  exact hb

/-- The loop goes on, whether the slice is left alone or has moved to another array. -/
theorem visit (hr : Ranging key Good bound h cur arr t) (hb : (ranged h cur arr)[t]? = some b)
    {cur' : Slice α} (hcur : cur' = cur ∨ h.gen < cur'.gen) :
    Ranging key Good (key b) h cur' (ranged h cur arr) (t + 1) := by
  have hsame : ranged h cur' (ranged h cur arr) = ranged h cur arr := by
    rcases hcur with rfl | hgen
    · exact ranged_ranged ..
    · exact if_neg (Nat.ne_of_gt hgen)
  have hdrop {x : α} (hx : x ∈ (ranged h cur arr).drop (t + 1)) : x ∈ (ranged h cur arr).drop t :=
    mem_drop_of_le (Nat.le_succ t) hx
  refine ⟨?_, Nat.le_succ_of_le hr.start_le, fun hgen ↦ ?_, ?_, ?_, ?_⟩
  · rcases hcur with rfl | hgen
    · exact hr.gen_le
    · exact hgen.le
  · rcases hcur with rfl | hlt
    · exact ⟨(hr.off_le hgen).1, Nat.le_succ_of_le (hr.off_le hgen).2⟩
    · exact absurd hgen (Nat.ne_of_gt hlt)
  · rw [hsame]
    exact hr.good
  · rw [hsame]
    exact fun x hx ↦ hr.le_of_mem hb x (hdrop hx)
  · rw [hsame, ← List.drop_drop]
    exact hr.sorted.sublist (List.drop_sublist _ _)

/-- In a window that starts at `o`, at most `t - o` keys are smaller than that of the element at
`t`. -/
theorem countP_le {l : List α} (o : ℕ) {t bound : ℕ} (hl : ∀ x ∈ l.drop t, bound ≤ key x) :
    (l.drop o).countP (key · < bound) ≤ t - o := by
  have hrest : ((l.drop o).drop (t - o)).countP (key · < bound) = 0 := by
    rw [List.countP_eq_zero]
    intro x hx
    rw [List.drop_drop] at hx
    simpa using hl x (mem_drop_of_le (by omega) hx)
  have hsplit := congrArg (List.countP (key · < bound)) (List.take_append_drop (t - o) (l.drop o))
  rw [List.countP_append, hrest, Nat.add_zero] at hsplit
  rw [← hsplit]
  exact (List.countP_le_length).trans (List.length_take_le _ _)

/-- The loop goes on after an element of the visited one's key was pushed. -/
theorem push (hr : Ranging key Good bound h cur arr t) (hb : (ranged h cur arr)[t]? = some b)
    (ha : Good a) (hkey : key a = key b) :
    Ranging key Good (key b) h (cur.push σ limit grown a) (ranged h cur arr) (t + 1) := by
  have hle := hr.gen_le
  have hpush := push_gen σ cur grown a limit
  by_cases hgen : (cur.push σ limit grown a).gen = h.gen
  · -- still on the array: the window is sorted with the new element in it
    have hcur : cur.gen = h.gen := by omega
    obtain ⟨o, hlo, hhi, hlen, hoff, harray⟩ :=
      push_in_place σ cur grown a limit (hgen.trans hcur.symm)
    obtain ⟨hstart, hoff_le⟩ := hr.off_le hcur
    have hnow : ranged h (cur.push σ limit grown a) (ranged h cur arr) =
        (ranged h cur arr).take o ++ σ.sort ((ranged h cur arr).drop o ++ [a]) := by
      rw [ranged, if_pos hgen, harray, ranged, if_pos hcur]
    have hkeys := hr.le_of_mem hb
    have hgood := hr.good
    have hlen' : o ≤ (ranged h cur arr).length := by
      rwa [ranged, if_pos hcur]
    generalize ranged h cur arr = l at hnow hkeys hgood hlen'
    have hdrop : (l.take o ++ σ.sort (l.drop o ++ [a])).drop (t + 1) =
        (σ.sort (l.drop o ++ [a])).drop (t + 1 - o) := by
      rw [List.drop_append, List.length_take, Nat.min_eq_left hlen',
        List.drop_eq_nil_of_le (by rw [List.length_take]; omega), List.nil_append]
    have hsmall : (σ.sort (l.drop o ++ [a])).countP (key · < key b) ≤ t + 1 - o := by
      have hnone : [a].countP (key · < key b) = 0 := by simp [hkey]
      have hcount := countP_le o hkeys
      rw [(σ.perm _).countP_eq, List.countP_append, hnone]
      omega
    refine ⟨by omega, Nat.le_succ_of_le hr.start_le, fun _ ↦ by omega, ?_, ?_, ?_⟩
    · rw [hnow]
      intro x hx
      rw [List.drop_append, List.mem_append] at hx
      rcases hx with hx | hx
      · rw [List.drop_take] at hx
        exact hgood x (List.mem_of_mem_take hx)
      · have hx' := (σ.perm _).mem_iff.mp (List.mem_of_mem_drop hx)
        rw [List.mem_append, List.mem_singleton] at hx'
        rcases hx' with hx' | rfl
        · exact hgood x (mem_drop_of_le (hstart.trans hlo) hx')
        · exact ha
    · rw [hnow, hdrop]
      exact (σ.sorted _).le_of_mem_drop hsmall
    · rw [hnow, hdrop]
      exact (σ.sorted _).sublist (List.drop_sublist _ _)
  · exact hr.visit hb (Or.inr (by omega))

end Ranging

end Slice

end EdgeMulticast.Lib
