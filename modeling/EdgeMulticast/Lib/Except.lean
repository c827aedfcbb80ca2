import Mathlib.Tactic.Common

/-!
# Computations that may fail

What is known of the parts of a computation when the whole of it succeeds.
-/

namespace EdgeMulticast.Lib

universe u

variable {ε ε' : Type _} {α β : Type u}

theorem bind_eq_ok {x : Except ε α} {f : α → Except ε β} {b : β} :
    x >>= f = .ok b ↔ ∃ a, x = .ok a ∧ f a = .ok b := by
  cases x with
  | error e =>
      constructor
      · intro h
        cases h
      · rintro ⟨a, h, -⟩
        cases h
  | ok a =>
      constructor
      · intro h
        exact ⟨a, rfl, h⟩
      · rintro ⟨_, ⟨⟩, h⟩
        exact h

theorem map_eq_ok {x : Except ε α} {f : α → β} {b : β} :
    x.map f = .ok b ↔ ∃ a, x = .ok a ∧ b = f a := by
  cases x with
  | error e =>
      constructor
      · intro h
        cases h
      · rintro ⟨_, h, -⟩
        cases h
  | ok a =>
      constructor
      · intro h
        exact ⟨a, rfl, (Except.ok.inj h).symm⟩
      · rintro ⟨_, ⟨⟩, rfl⟩
        rfl

theorem mapError_eq_ok {x : Except ε α} {f : ε → ε'} {a : α} :
    x.mapError f = .ok a ↔ x = .ok a := by
  cases x with
  | error e =>
      constructor
      · intro h
        cases h
      · intro h
        cases h
  | ok a' =>
      constructor
      · intro h
        cases h
        rfl
      · intro h
        cases h
        rfl

/-! ## With a state -/

section

variable {ε σ α β : Type} {s t : σ}

theorem stateT_bind_ok {x : StateT σ (Except ε) α} {f : α → StateT σ (Except ε) β} {b : β} :
    (x >>= f) s = .ok (b, t) ↔ ∃ a mid, x s = .ok (a, mid) ∧ f a mid = .ok (b, t) := by
  constructor
  · intro h
    obtain ⟨⟨a, mid⟩, hx, hf⟩ := bind_eq_ok.mp h
    exact ⟨a, mid, hx, hf⟩
  · rintro ⟨a, mid, hx, hf⟩
    exact bind_eq_ok.mpr ⟨(a, mid), hx, hf⟩

theorem stateT_pure_ok {a b : α} :
    (pure a : StateT σ (Except ε) α) s = .ok (b, t) ↔ b = a ∧ s = t := by
  constructor
  · intro h
    cases h
    exact ⟨rfl, rfl⟩
  · rintro ⟨rfl, rfl⟩
    rfl

theorem stateT_throw_ok {e : ε} {b : α} : ¬(throw e : StateT σ (Except ε) α) s = .ok (b, t) := by
  intro h
  cases h

end

end EdgeMulticast.Lib
