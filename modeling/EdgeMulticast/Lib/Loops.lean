import EdgeMulticast.Lib.Run
import Mathlib.Algebra.GroupWithZero.Nat
import Mathlib.Algebra.Order.BigOperators.Group.List
import Mathlib.Order.Nat

/-!
# Loops that go on while there is something to take

Such a loop asks a state for the next item, takes it, and goes on from the state this leaves;
it stops when there is none.  `exhaust` runs it with a budget of rounds.

* `exhaust_trace` is the invariant rule: what a round preserves, as a property of the state and
  the items taken so far, holds at the end.
* `exhaust_stops`: when every round makes the state smaller, a budget as large as the state is
  enough for the loop to stop by itself.
-/

namespace EdgeMulticast.Lib

variable {S A : Type*}

/-- At most `n` rounds of the loop, and the items taken. -/
def exhaust (next : S → Option A) (take : S → A → S) : ℕ → S → S × List A
  | 0, s => (s, [])
  | n + 1, s =>
      match next s with
      | none => (s, [])
      | some a => ((exhaust next take n (take s a)).1, a :: (exhaust next take n (take s a)).2)

variable {next : S → Option A} {take : S → A → S}

theorem exhaust_of_none {s : S} (n : ℕ) (h : next s = none) :
    exhaust next take n s = (s, []) := by
  cases n with
  | zero => rfl
  | succ n => simp only [exhaust, h]

theorem exhaust_succ {s : S} {a : A} (n : ℕ) (h : next s = some a) :
    exhaust next take (n + 1) s =
      ((exhaust next take n (take s a)).1, a :: (exhaust next take n (take s a)).2) := by
  simp only [exhaust, h]

/-- What a round and its item preserve, the loop preserves. -/
theorem exhaust_trace {P : S → List A → Prop}
    (round : ∀ s a as, P s as → next s = some a → P (take s a) (as ++ [a])) (n : ℕ) {s : S}
    (as : List A) (h : P s as) :
    P (exhaust next take n s).1 (as ++ (exhaust next take n s).2) := by
  induction n generalizing s as with
  | zero =>
      rw [exhaust, List.append_nil]
      exact h
  | succ n ih =>
      cases hnext : next s with
      | none =>
          rw [exhaust_of_none _ hnext, List.append_nil]
          exact h
      | some a =>
          rw [exhaust_succ n hnext, List.append_cons]
          exact ih _ (round s a as h hnext)

/-- What a round preserves, the loop preserves. -/
theorem exhaust_induction {P : S → Prop} (round : ∀ s a, P s → next s = some a → P (take s a))
    (n : ℕ) {s : S} (h : P s) : P (exhaust next take n s).1 :=
  exhaust_trace (P := fun s _ ↦ P s) (fun s a _ ↦ round s a) n [] h

/-- With a budget as large as the state the loop stops by itself. -/
theorem exhaust_stops (size : S → ℕ)
    (shrinks : ∀ s a, next s = some a → size (take s a) < size s) (n : ℕ) {s : S}
    (h : size s ≤ n) : next (exhaust next take n s).1 = none := by
  induction n generalizing s with
  | zero =>
      cases hnext : next s with
      | none => exact hnext
      | some a => exact absurd (shrinks s a hnext) (by omega)
  | succ n ih =>
      cases hnext : next s with
      | none => rwa [exhaust_of_none _ hnext]
      | some a =>
          rw [exhaust_succ n hnext]
          have := shrinks s a hnext
          exact ih (by omega)

end EdgeMulticast.Lib

/-!
## Sweeping candidates under a limit

A loop over candidates that stops in front of the first one it finds itself within its limit at.  It
takes the candidates up to there, and where its steps account for what they free, its account is what
is left: the candidates it could not free and those it did not come to.
-/

namespace EdgeMulticast.Lib

variable {S α : Type*}

/-- Take candidates in order for as long as the state is over its limit.  What is returned beside the
state are the candidates that were taken. -/
def sweep (step : S → α → S) (exceeds : S → Bool) : S → List α → S × List α
  | s, [] => (s, [])
  | s, c :: cs =>
      if exceeds s then
        ((sweep step exceeds (step s c) cs).1, c :: (sweep step exceeds (step s c) cs).2)
      else (s, [])

variable {step : S → α → S} {exceeds : S → Bool} {s : S} {cs : List α}

/-- A sweep takes a beginning of the candidates: it was over its limit in front of each, and it is
within its limit if it left some. -/
theorem exists_sweep (step : S → α → S) (exceeds : S → Bool) (s : S) (cs : List α) :
    ∃ rest, cs = (sweep step exceeds s cs).2 ++ rest ∧
      (sweep step exceeds s cs).1 = run step s (sweep step exceeds s cs).2 ∧
      (∀ before c behind, (sweep step exceeds s cs).2 = before ++ c :: behind →
        exceeds (run step s before) = true) ∧
      (rest ≠ [] → exceeds (sweep step exceeds s cs).1 = false) := by
  induction cs generalizing s with
  | nil =>
      refine ⟨[], rfl, rfl, fun before c behind h ↦ ?_, fun h ↦ absurd rfl h⟩
      exact absurd h.symm (List.append_ne_nil_of_right_ne_nil _ (List.cons_ne_nil _ _))
  | cons c cs ih =>
      rw [sweep]
      cases hover : exceeds s with
      | false =>
          refine ⟨c :: cs, rfl, rfl, fun before c' behind h ↦ ?_, fun _ ↦ hover⟩
          exact absurd h.symm (List.append_ne_nil_of_right_ne_nil _ (List.cons_ne_nil _ _))
      | true =>
          rw [if_pos rfl]
          obtain ⟨rest, hrest, hstate, hbefore, hend⟩ := ih (step s c)
          refine ⟨rest, congrArg (c :: ·) hrest, hstate, ?_, hend⟩
          intro before c' behind h
          cases before with
          | nil => exact hover
          | cons b before =>
              obtain ⟨rfl, hbehind⟩ := List.cons.inj h
              exact hbefore before c' behind hbehind

/-- A state within its limit takes nothing. -/
theorem sweep_within (h : exceeds s = false) (cs : List α) : sweep step exceeds s cs = (s, []) := by
  cases cs with
  | nil => rfl
  | cons c cs => rw [sweep, h, if_neg Bool.false_ne_true]

/-- Two sweeps one behind the other are one. -/
theorem sweep_append (s : S) (as bs : List α) : sweep step exceeds s (as ++ bs) =
    ((sweep step exceeds (sweep step exceeds s as).1 bs).1,
      (sweep step exceeds s as).2 ++ (sweep step exceeds (sweep step exceeds s as).1 bs).2) := by
  induction as generalizing s with
  | nil => rfl
  | cons a as ih =>
      rw [List.cons_append, sweep, sweep]
      cases hover : exceeds s with
      | false =>
          rw [if_neg Bool.false_ne_true, if_neg Bool.false_ne_true, sweep_within hover]
          rfl
      | true =>
          rw [if_pos rfl, if_pos rfl, ih]
          rfl

/-- A sweep of candidates of another kind. -/
theorem sweep_map {β : Type*} (f : β → α) (s : S) (bs : List β) : sweep step exceeds s (bs.map f) =
    ((sweep (fun s b ↦ step s (f b)) exceeds s bs).1,
      (sweep (fun s b ↦ step s (f b)) exceeds s bs).2.map f) := by
  induction bs generalizing s with
  | nil => rfl
  | cons b bs ih =>
      rw [List.map_cons, sweep, sweep, ih]
      cases exceeds s with
      | false => rfl
      | true => rfl

/-- What neither the steps nor the limit looks at can be changed before a sweep or behind it. -/
theorem sweep_comm {f : S → S} (hstep : ∀ s c, step (f s) c = f (step s c))
    (hover : ∀ s, exceeds (f s) = exceeds s) (s : S) (cs : List α) :
    sweep step exceeds (f s) cs = (f (sweep step exceeds s cs).1, (sweep step exceeds s cs).2) := by
  induction cs generalizing s with
  | nil => rfl
  | cons c cs ih =>
      rw [sweep, sweep, hover, hstep, ih]
      cases exceeds s with
      | false => rfl
      | true => rfl

/-! ## What is left -/

section

variable (bytes : α → ℕ) (freed : α → Bool)

/-- What some candidates amount to. -/
def weight (cs : List α) : ℕ := (cs.map bytes).sum

/-- What is left of some candidates that were taken and some that were not. -/
def leftOver (taken rest : List α) : ℕ :=
  weight bytes (taken.filter fun c ↦ !freed c) + weight bytes rest

theorem weight_append (as bs : List α) : weight bytes (as ++ bs) = weight bytes as + weight bytes bs := by
  rw [weight, List.map_append, List.sum_append]
  rfl

theorem weight_cons (c : α) (cs : List α) : weight bytes (c :: cs) = bytes c + weight bytes cs := by
  rw [weight, List.map_cons, List.sum_cons]
  rfl

theorem leftOver_nil (rest : List α) : leftOver bytes freed [] rest = weight bytes rest :=
  Nat.zero_add _

/-- Taking a candidate frees what it amounts to, or leaves it. -/
theorem leftOver_cons (taken rest : List α) (c : α) : leftOver bytes freed taken (c :: rest) =
    leftOver bytes freed (taken ++ [c]) rest + if freed c then bytes c else 0 := by
  rw [leftOver, leftOver, List.filter_append, weight_append, weight_cons]
  cases h : freed c with
  | false =>
      rw [List.filter_cons_of_pos (by rw [h]; rfl), List.filter_nil, weight_cons]
      change _ = _ + (bytes c + 0) + weight bytes rest + 0
      omega
  | true =>
      rw [List.filter_cons_of_neg (by rw [h]; exact Bool.false_ne_true), List.filter_nil]
      change _ = _ + 0 + weight bytes rest + bytes c
      omega

/-- A state that accounts for what its steps free accounts for what is left, and never for less than
nothing. -/
theorem account_run {total : S → ℕ}
    (hstep : ∀ s c, total (step s c) = total s - if freed c then bytes c else 0)
    {s : S} {taken rest : List α} (h : total s = weight bytes (taken ++ rest)) :
    total (run step s taken) = leftOver bytes freed taken rest := by
  induction taken using List.reverseRecOn generalizing rest with
  | nil =>
      rw [leftOver_nil]
      exact h
  | append_singleton taken c ih =>
      have h' : total s = weight bytes (taken ++ c :: rest) := by rw [h, List.append_assoc]; rfl
      rw [run_snoc, hstep, ih h', leftOver_cons, Nat.add_sub_cancel]

end

end EdgeMulticast.Lib
