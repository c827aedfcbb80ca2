import Mathlib.Data.List.Basic
import Mathlib.Data.List.Induction
import Mathlib.Tactic.Common

/-!
# Runs of a deterministic step function

A component is a state type and a step function; a *run* folds the step over a list of
actions.  This file collects the induction rules the development reasons with:

* `run_induction`: a property preserved by every step of the run holds at its end;
* `run_history`: the same, where the property may mention the actions taken so far;
* `run_ghost`: the same, where the property may mention a value that follows the run;
* `run_step_iff`, `run_ghost_iff`: which actions keep a property, when these are known exactly;
* `Along`: what is asked of every action of a run, taken apart along it;
* `run_unwind`: the two-run rule.  A relation that survives the observed actions taken on
  both sides and the hidden actions taken on one side relates a run to the run of its
  observed actions alone.

Nothing here knows what the states are.
-/

namespace EdgeMulticast.Lib

variable {S T A : Type*}

/-- The state reached from `s` by taking the actions of a list in order. -/
def run (step : S → A → S) (s : S) (as : List A) : S := as.foldl step s

section

variable (step : S → A → S)

@[simp] theorem run_nil (s : S) : run step s [] = s := rfl

@[simp] theorem run_cons (s : S) (a : A) (as : List A) :
    run step s (a :: as) = run step (step s a) as := rfl

theorem run_append (s : S) (as bs : List A) :
    run step s (as ++ bs) = run step (run step s as) bs := List.foldl_append ..

theorem run_snoc (s : S) (as : List A) (a : A) :
    run step s (as ++ [a]) = step (run step s as) a := by
  rw [run_append, run_cons, run_nil]

end

variable {step : S → A → S}

/-- A property that may mention the history holds at the end of a run if it holds before the
first action and every action of the run carries it from its own history to the longer one. -/
theorem run_history {P : List A → S → Prop} {s : S} (as : List A) (init : P [] s)
    (next : ∀ (pre : List A) (a : A), pre ++ [a] <+: as → P pre (run step s pre) →
      P (pre ++ [a]) (step (run step s pre) a)) :
    P as (run step s as) := by
  suffices h : ∀ pre, pre <+: as → P pre (run step s pre) from h as (List.prefix_refl as)
  intro pre
  induction pre using List.reverseRecOn with
  | nil => exact fun _ ↦ init
  | append_singleton pre a ih =>
      intro hpre
      rw [run_snoc]
      exact next pre a hpre (ih ((List.prefix_append pre [a]).trans hpre))

/-- What is asked at every action of a run is asked at the first and at the rest. -/
theorem forall_prefix_cons {P : List A → A → Prop} {b : A} {as : List A} :
    (∀ pre a, pre ++ [a] <+: b :: as → P pre a) ↔
      P [] b ∧ ∀ pre a, pre ++ [a] <+: as → P (b :: pre) a := by
  constructor
  · intro h
    exact ⟨h [] b ⟨as, rfl⟩, fun pre a hpre ↦ h (b :: pre) a (List.cons_prefix_cons.mpr ⟨rfl, hpre⟩)⟩
  · rintro ⟨hhead, htail⟩ pre a hpre
    cases pre with
    | nil =>
        obtain ⟨rfl, -⟩ := List.cons_prefix_cons.mp hpre
        exact hhead
    | cons c pre =>
        obtain ⟨rfl, hrest⟩ := List.cons_prefix_cons.mp hpre
        exact htail pre a hrest

theorem forall_prefix_nil {P : List A → A → Prop} : ∀ pre a, pre ++ [a] <+: [] → P pre a :=
  fun pre a hpre ↦ absurd (List.prefix_nil.mp hpre) (by simp)

/-- An invariant: a property of the first state that every action of the run preserves. -/
theorem run_induction {P : S → Prop} {s : S} (as : List A) (init : P s)
    (next : ∀ s a, a ∈ as → P s → P (step s a)) : P (run step s as) :=
  run_history (P := fun _ s ↦ P s) as init
    fun pre a hpre h ↦ next _ a (hpre.subset (by simp)) h

/-- An invariant that holds as long as something that grows stays within a bound. -/
theorem run_bounded {P : S → Prop} {size : S → ℕ} {bound : ℕ} {s : S} (as : List A) (init : P s)
    (grows : ∀ s a, size s ≤ size (step s a))
    (next : ∀ s a, P s → size (step s a) ≤ bound → P (step s a))
    (h : size (run step s as) ≤ bound) : P (run step s as) := by
  induction as using List.reverseRecOn with
  | nil => exact init
  | append_singleton as a ih =>
      rw [run_snoc] at h ⊢
      exact next _ a (ih (Nat.le_trans (grows _ a) h)) h

/-! ## Ghosts -/

variable {G : Type*}

/-- A value that follows a run: it reads every state and every action, and is read by none. -/
def ghost (step : S → A → S) (note : S → G → A → G) : S → G → List A → G
  | _, g, [] => g
  | s, g, a :: as => ghost step note (step s a) (note s g a) as

theorem ghost_snoc (step : S → A → S) (note : S → G → A → G) (s : S) (g : G) (as : List A)
    (a : A) : ghost step note s g (as ++ [a]) =
      note (run step s as) (ghost step note s g as) a := by
  induction as generalizing s g with
  | nil => rfl
  | cons b as ih => exact ih (step s b) (note s g b)

section

variable {note : S → G → A → G} {P : S → G → Prop} {s : S} {g : G}

/-- An invariant of state and ghost. -/
theorem run_ghost (as : List A) (init : P s g)
    (next : ∀ pre a, pre ++ [a] <+: as → P (run step s pre) (ghost step note s g pre) →
      P (step (run step s pre) a) (note (run step s pre) (ghost step note s g pre) a)) :
    P (run step s as) (ghost step note s g as) := by
  refine run_history (P := fun pre s' ↦ P s' (ghost step note s g pre)) as init fun pre a hpre h ↦ ?_
  rw [ghost_snoc]
  exact next pre a hpre h

/-- What is seen at every action of a run is right exactly when every action is sound (`R`),
provided sound actions keep an invariant under which the right and the sound are the same. -/
theorem run_step_iff {Q R : S → G → A → Prop} (as : List A) (init : P s g)
    (need : ∀ s g, ∀ a ∈ as, P s g → Q s g a → R s g a)
    (keep : ∀ s g, ∀ a ∈ as, P s g → R s g a → Q s g a ∧ P (step s a) (note s g a)) :
    (∀ pre a, pre ++ [a] <+: as → Q (run step s pre) (ghost step note s g pre) a) ↔
      ∀ pre a, pre ++ [a] <+: as → R (run step s pre) (ghost step note s g pre) a := by
  have hmem {pre : List A} {a : A} (hpre : pre ++ [a] <+: as) : a ∈ as := hpre.subset (by simp)
  constructor
  · intro h pre a hpre
    refine need _ _ a (hmem hpre) ?_ (h pre a hpre)
    refine run_ghost pre init fun pre' b hpre' hP ↦ ?_
    have hin := hpre'.trans ((List.prefix_append pre [a]).trans hpre)
    exact (keep _ _ b (hmem hin) hP (need _ _ b (hmem hin) hP (h pre' b hin))).2
  · intro h pre a hpre
    refine (keep _ _ a (hmem hpre) ?_ (h pre a hpre)).1
    refine run_ghost pre init fun pre' b hpre' hP ↦ ?_
    have hin := hpre'.trans ((List.prefix_append pre [a]).trans hpre)
    exact (keep _ _ b (hmem hin) hP (h pre' b hin)).2

/-- A property of state and ghost holds throughout a run exactly when every action of the run is
one that keeps it, provided these are told apart at every state that has the property. -/
theorem run_ghost_iff {R : S → G → A → Prop} (as : List A) (init : P s g)
    (next : ∀ s g, ∀ a ∈ as, P s g → (P (step s a) (note s g a) ↔ R s g a)) :
    (∀ pre, pre <+: as → P (run step s pre) (ghost step note s g pre)) ↔
      ∀ pre a, pre ++ [a] <+: as → R (run step s pre) (ghost step note s g pre) a := by
  rw [← run_step_iff (Q := fun s g a ↦ P (step s a) (note s g a)) as init
    (fun s g a ha hP ↦ (next s g a ha hP).mp)
    fun s g a ha hP hsound ↦ ⟨(next s g a ha hP).mpr hsound, (next s g a ha hP).mpr hsound⟩]
  constructor
  · intro h pre a hpre
    have hnext := h (pre ++ [a]) hpre
    rwa [run_snoc, ghost_snoc] at hnext
  · intro h pre
    induction pre using List.reverseRecOn with
    | nil => exact fun _ ↦ init
    | append_singleton pre a =>
        intro hpre
        rw [run_snoc, ghost_snoc]
        exact h pre a hpre

end

section

/-- What is asked of every action of a run, in the state that the action is taken in. -/
def Along (step : S → A → S) (P : S → A → Prop) (s : S) (as : List A) : Prop :=
  ∀ pre a, pre ++ [a] <+: as → P (run step s pre) a

variable {P : S → A → Prop} {s : S} {a : A} {as bs : List A}

@[simp] theorem along_nil : Along step P s [] := forall_prefix_nil

theorem along_cons : Along step P s (a :: as) ↔ P s a ∧ Along step P (step s a) as :=
  forall_prefix_cons

theorem along_append :
    Along step P s (as ++ bs) ↔ Along step P s as ∧ Along step P (run step s as) bs := by
  induction as generalizing s with
  | nil => exact ⟨fun h ↦ ⟨along_nil, h⟩, fun h ↦ h.2⟩
  | cons a as ih => rw [List.cons_append, along_cons, along_cons, ih, run_cons, and_assoc]

theorem along_singleton : Along step P s [a] ↔ P s a := by
  rw [along_cons]
  exact and_iff_left along_nil

instance Along.decidable [∀ s a, Decidable (P s a)] : ∀ s as, Decidable (Along step P s as)
  | _, [] => isTrue along_nil
  | s, a :: as =>
      have := Along.decidable (step s a) as
      decidable_of_iff _ along_cons.symm

end

/-- The two-run rule.  Actions satisfying `own` are taken by both sides, the others by the
left side only; a relation kept by both kinds of step relates the whole run on the left to
the run of its own actions on the right. -/
theorem run_unwind {step' : T → A → T} {R : S → T → Prop} (own : A → Bool) {s : S} {t : T}
    (as : List A) (init : R s t)
    (both : ∀ pre a, pre ++ [a] <+: as → own a = true →
      R (run step s pre) (run step' t (pre.filter own)) →
      R (step (run step s pre) a) (step' (run step' t (pre.filter own)) a))
    (hidden : ∀ pre a, pre ++ [a] <+: as → own a = false →
      R (run step s pre) (run step' t (pre.filter own)) →
      R (step (run step s pre) a) (run step' t (pre.filter own))) :
    R (run step s as) (run step' t (as.filter own)) := by
  refine run_history (P := fun pre s' ↦ R s' (run step' t (pre.filter own))) as init
    fun pre a hpre h ↦ ?_
  rw [List.filter_append]
  cases ha : own a with
  | true =>
      rw [List.filter_cons_of_pos ha, List.filter_nil, run_snoc]
      exact both pre a hpre ha h
  | false =>
      rw [List.filter_cons_of_neg (by simp [ha]), List.filter_nil, List.append_nil]
      exact hidden pre a hpre ha h

/-!
## Programs that leave a trace

A program runs on a state that it cannot see into, and what it does to the outside is its trace.
`May x a t` says that `x` can return `a` having left `t`, from some state.  What a program may do is
taken apart along `do`: a run of `x >>= f` is a run of `x` and then one of `f`.
-/

variable {σ A α β : Type}

/-- A result, the state it leaves and what was done on the way. -/
structure Outcome (σ A α : Type) where
  value : α
  state : σ
  trace : List A

def Traced (σ A α : Type) := σ → Outcome σ A α

namespace Traced

instance instMonad : Monad (Traced σ A) where
  pure a := fun s ↦ ⟨a, s, []⟩
  bind x f := fun s ↦
    let first := x s
    let second := f first.value first.state
    ⟨second.value, second.state, first.trace ++ second.trace⟩

/-- Change the state, and leave in the trace what is noted of the result. -/
def call (step : σ → α × σ) (note : α → List A) : Traced σ A α := fun s ↦
  ⟨(step s).1, (step s).2, note (step s).1⟩

/-- Change the state without a trace. -/
def ask (step : σ → α × σ) : Traced σ A α := call step fun _ ↦ []

def emit (trace : List A) : Traced σ A Unit := fun s ↦ ⟨(), s, trace⟩

/-- `x` can return `a` and leave the trace `t`. -/
def May (x : Traced σ A α) (a : α) (t : List A) : Prop := ∃ s, (x s).value = a ∧ (x s).trace = t

variable {x : Traced σ A α} {f : α → Traced σ A β} {a : α} {b : β} {t : List A}

theorem may_run (x : Traced σ A α) (s : σ) : x.May (x s).value (x s).trace := ⟨s, rfl, rfl⟩

theorem May.of_bind (h : (x >>= f).May b t) :
    ∃ a first second, x.May a first ∧ (f a).May b second ∧ t = first ++ second := by
  obtain ⟨s, rfl, rfl⟩ := h
  exact ⟨_, _, _, may_run x s, may_run (f (x s).value) (x s).state, rfl⟩

theorem May.of_pure {a' : α} (h : (pure a : Traced σ A α).May a' t) : a' = a ∧ t = [] := by
  obtain ⟨s, rfl, rfl⟩ := h
  exact ⟨rfl, rfl⟩

theorem May.of_call {step : σ → α × σ} {note : α → List A} (h : (call step note).May a t) :
    t = note a := by
  obtain ⟨s, rfl, rfl⟩ := h
  rfl

theorem May.of_ask {step : σ → α × σ} (h : (ask step : Traced σ A α).May a t) : t = [] := h.of_call

theorem May.of_emit {trace : List A} {u : Unit} (h : (emit trace : Traced σ A Unit).May u t) :
    t = trace := by
  obtain ⟨s, rfl, rfl⟩ := h
  rfl

end Traced

end EdgeMulticast.Lib
