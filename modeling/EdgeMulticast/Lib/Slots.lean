import Mathlib.Algebra.BigOperators.Fin
import Mathlib.Data.List.Basic
import Mathlib.Tactic.Common

/-!
# Slots

A list of slots that are held or empty.  A slot keeps its place: admitting appends one, and
withdrawing empties one.  `held` counts the slots that are held.
-/

namespace EdgeMulticast.Lib

variable {α : Type*} {slots : List (Option α)} {i j : ℕ} {a b : α}

/-- What a slot holds. -/
def slotAt (slots : List (Option α)) (i : ℕ) : Option α := slots[i]?.join

/-- How many slots are held. -/
def held (slots : List (Option α)) : ℕ := slots.countP Option.isSome

theorem slotAt_eq_some_iff : slotAt slots i = some a ↔ slots[i]? = some (some a) := by
  rw [slotAt, Option.join_eq_some_iff]

theorem lt_of_slotAt (h : slotAt slots i = some a) : i < slots.length :=
  (List.getElem?_eq_some_iff.mp (slotAt_eq_some_iff.mp h)).1

theorem getElem_of_slotAt (h : slotAt slots i = some a) (hi : i < slots.length) :
    slots[i] = some a :=
  (List.getElem?_eq_some_iff.mp (slotAt_eq_some_iff.mp h)).2

theorem slotAt_of_length_le (h : slots.length ≤ i) : slotAt slots i = none := by
  rw [slotAt, List.getElem?_eq_none h]
  rfl

/-! ## Admitting, withdrawing, restating -/

theorem slotAt_append (slots : List (Option α)) (a : α) (i : ℕ) :
    slotAt (slots ++ [some a]) i = if i = slots.length then some a else slotAt slots i := by
  rcases Nat.lt_trichotomy i slots.length with h | rfl | h
  · rw [if_neg (Nat.ne_of_lt h), slotAt, List.getElem?_append_left h]
    rfl
  · rw [if_pos rfl, slotAt, List.getElem?_concat_length]
    rfl
  · rw [if_neg (Nat.ne_of_gt h), slotAt_of_length_le (Nat.le_of_lt h), slotAt_of_length_le]
    rw [List.length_append]
    exact h

theorem held_append (slots : List (Option α)) (a : α) :
    held (slots ++ [some a]) = held slots + 1 := by
  rw [held, List.countP_append]
  rfl

theorem slotAt_set (slots : List (Option α)) (i j : ℕ) (v : Option α) (h : i < slots.length) :
    slotAt (slots.set i v) j = if j = i then v else slotAt slots j := by
  by_cases hij : j = i
  · subst hij
    rw [if_pos rfl, slotAt, List.getElem?_set_self h]
    rfl
  · rw [if_neg hij, slotAt, List.getElem?_set_ne (Ne.symm hij)]
    rfl

theorem held_set (h : slotAt slots i = some a) (v : Option α) :
    held (slots.set i v) + 1 = held slots + if v.isSome then 1 else 0 := by
  have hcount := List.boole_getElem_le_countP (p := Option.isSome) (lt_of_slotAt h)
  rw [getElem_of_slotAt h, Option.isSome_some, if_pos rfl] at hcount
  rw [held, List.countP_set (lt_of_slotAt h), getElem_of_slotAt h, Option.isSome_some, if_pos rfl,
    held]
  omega

theorem held_set_none (h : slotAt slots i = some a) : held (slots.set i none) + 1 = held slots :=
  held_set h none

theorem held_set_some (h : slotAt slots i = some a) (b : α) :
    held (slots.set i (some b)) = held slots :=
  Nat.add_right_cancel (held_set h (some b))

/-! ## Counting the slots of a kind -/

variable {p : α → Bool}

/-- How many slots hold something of a kind. -/
def holding (p : α → Bool) (slots : List (Option α)) : ℕ := slots.countP (·.any p)

theorem holding_append (p : α → Bool) (slots : List (Option α)) (a : α) :
    holding p (slots ++ [some a]) = holding p slots + if p a then 1 else 0 := by
  rw [holding, List.countP_append, List.countP_singleton]
  rfl

theorem le_holding (p : α → Bool) (h : slotAt slots i = some a) :
    (if p a then 1 else 0) ≤ holding p slots := by
  have hcount := List.boole_getElem_le_countP (p := fun o : Option α ↦ o.any p) (lt_of_slotAt h)
  rwa [getElem_of_slotAt h, Option.any_some] at hcount

theorem holding_set (p : α → Bool) (h : slotAt slots i = some a) (v : Option α) :
    holding p (slots.set i v) + (if p a then 1 else 0) =
      holding p slots + if v.any p then 1 else 0 := by
  have hcount := le_holding p h
  rw [holding] at hcount
  rw [holding, List.countP_set (lt_of_slotAt h), getElem_of_slotAt h, Option.any_some, holding]
  omega

/-- How many slots are held does not depend on what they hold. -/
theorem held_eq_count (slots : List (Option α)) : held slots = (slots.map Option.isSome).count true := by
  rw [held, List.count, List.countP_map]
  refine List.countP_congr fun o _ ↦ ?_
  rw [Function.comp_apply, beq_true]

/-- Restating what a slot holds leaves the held slots as they are. -/
theorem map_isSome_set (h : slotAt slots i = some a) (b : α) :
    (slots.set i (some b)).map Option.isSome = slots.map Option.isSome := by
  refine List.ext_getElem? fun j ↦ ?_
  rw [List.getElem?_map, List.getElem?_map, List.getElem?_set]
  split
  next hij =>
      subst hij
      rw [if_pos (lt_of_slotAt h), slotAt_eq_some_iff.mp h]
      rfl
  next => rfl

theorem isSome_slotAt (slots : List (Option α)) (i : ℕ) :
    (slotAt slots i).isSome = ((slots.map Option.isSome)[i]?).getD false := by
  rw [slotAt, List.getElem?_map]
  cases slots[i]? with
  | none => rfl
  | some o => rfl

/-- Lists of slots that hold the same, as far as `f` sees it. -/
theorem map_eq_of_slotAt {β : Type*} {slots' : List (Option α)} {f : α → β}
    (hlength : slots'.length = slots.length)
    (h : ∀ i, (slotAt slots' i).map f = (slotAt slots i).map f) :
    slots'.map (Option.map f) = slots.map (Option.map f) := by
  refine List.ext_getElem? fun i ↦ ?_
  rw [List.getElem?_map, List.getElem?_map]
  rcases Nat.lt_or_ge i slots.length with hlt | hge
  · have hsame := h i
    rw [slotAt, slotAt, List.getElem?_eq_getElem hlt,
      List.getElem?_eq_getElem (hlt.trans_eq hlength.symm)] at hsame
    rw [List.getElem?_eq_getElem hlt, List.getElem?_eq_getElem (hlt.trans_eq hlength.symm)]
    exact congrArg some hsame
  · rw [List.getElem?_eq_none hge, List.getElem?_eq_none (hlength.trans_le hge)]

theorem map_isSome_congr {β : Type*} {slots' : List (Option α)} {f : α → β}
    (h : slots'.map (Option.map f) = slots.map (Option.map f)) :
    slots'.map Option.isSome = slots.map Option.isSome := by
  have hsplit (slots : List (Option α)) :
      slots.map Option.isSome = (slots.map (Option.map f)).map Option.isSome := by
    rw [List.map_map]
    exact List.map_congr_left fun o _ ↦ Option.isSome_map.symm
  rw [hsplit, hsplit slots, h]

theorem holding_congr {β : Type*} {slots' : List (Option α)} {f : α → β} {q : β → Bool}
    (h : slots'.map (Option.map f) = slots.map (Option.map f)) :
    holding (fun a ↦ q (f a)) slots' = holding (fun a ↦ q (f a)) slots := by
  have hcount (slots : List (Option α)) :
      holding (fun a ↦ q (f a)) slots = holding q (slots.map (Option.map f)) := by
    rw [holding, holding, List.countP_map]
    refine List.countP_congr fun o _ ↦ ?_
    rw [Function.comp_apply, Option.any_map]
  rw [hcount, hcount, h]

/-- Every held slot is of one of `n` kinds. -/
theorem sum_holding {f : α → ℕ} {n : ℕ} (h : ∀ a, some a ∈ slots → f a < n) :
    ∑ k ∈ Finset.range n, holding (fun a ↦ f a = k) slots = held slots := by
  induction slots with
  | nil => exact Finset.sum_const_zero
  | cons o slots ih =>
      have hrest := ih fun a ha ↦ h a (List.mem_cons_of_mem o ha)
      have hsplit (k : ℕ) : holding (fun a ↦ decide (f a = k)) (o :: slots) =
          holding (fun a ↦ decide (f a = k)) slots + if o.any fun a ↦ decide (f a = k) then 1 else 0 :=
        List.countP_cons
      rw [Finset.sum_congr rfl fun k _ ↦ hsplit k, Finset.sum_add_distrib, hrest, held, held,
        List.countP_cons]
      congr 1
      cases o with
      | none => exact Finset.sum_const_zero
      | some a =>
          have ha := Finset.mem_range.mpr (h a List.mem_cons_self)
          simp only [Option.any_some, decide_eq_true_eq, Option.isSome_some, if_true]
          rw [Finset.sum_ite_eq, if_pos ha]

end EdgeMulticast.Lib
