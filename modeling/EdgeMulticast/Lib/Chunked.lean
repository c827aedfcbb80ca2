import Mathlib.Data.List.Basic
import Mathlib.Order.Nat
import Mathlib.Tactic.Common

/-!
# Streams that arrive in chunks

A reader looks at the front of a buffer and says how long the item there is, that nothing whole
is there yet, or that the front is refused.  `drain` takes items until there is none; `read` feeds
a stream chunk by chunk and drains the buffer after each.

`reported_read` is the rule: when what a reader says of the front of a buffer is what it says of
the whole stream, the chunks do not matter.  Refusals are compared by their `kind`, because a
reader may report how much it saw.
-/

namespace EdgeMulticast.Lib

variable {α ε κ : Type*}

/-- A way of reading items off the front of a buffer. -/
structure Reader (α ε : Type*) where
  front : List α → Except ε (Option ℕ)
  inside : ∀ {bs n}, front bs = .ok (some n) → 0 < n ∧ n ≤ bs.length

namespace Reader

variable (R : Reader α ε)

/-- At most `fuel` items off the front, and the refusal or the buffer that is left. -/
def take : ℕ → List α → List (List α) × Except ε (List α)
  | 0, bs => ([], .ok bs)
  | fuel + 1, bs =>
      match R.front bs with
      | .error e => ([], .error e)
      | .ok none => ([], .ok bs)
      | .ok (some n) => (bs.take n :: (take fuel (bs.drop n)).1, (take fuel (bs.drop n)).2)

/-- All items off the front.  An item is not empty, so there are at most as many as elements. -/
def drain (bs : List α) : List (List α) × Except ε (List α) := R.take (bs.length + 1) bs

/-- Feed the chunks of a stream, and drain the buffer after each. -/
def read : List α → List (List α) → List (List α) × Except ε (List α)
  | bs, [] => ([], .ok bs)
  | bs, chunk :: chunks =>
      match R.drain (bs ++ chunk) with
      | (items, .error e) => (items, .error e)
      | (items, .ok rest) => (items ++ (read rest chunks).1, (read rest chunks).2)

variable {R} {bs : List α}

theorem length_drop_lt {n : ℕ} (h : R.front bs = .ok (some n)) :
    (bs.drop n).length < bs.length := by
  have := R.inside h
  rw [List.length_drop]
  omega

/-- More fuel than the buffer is long changes nothing. -/
theorem take_eq_drain {fuel : ℕ} (h : bs.length < fuel) : R.take fuel bs = R.drain bs := by
  suffices hfuel : ∀ m n (bs : List α), bs.length < m → bs.length < n →
      R.take m bs = R.take n bs from hfuel _ _ bs h (Nat.lt_succ_self _)
  intro m
  induction m with
  | zero => exact fun n bs hm ↦ absurd hm (Nat.not_lt_zero _)
  | succ m ih =>
      intro n bs hm hn
      obtain ⟨n, rfl⟩ := Nat.exists_eq_add_one_of_ne_zero (Nat.ne_zero_of_lt hn)
      rw [take, take]
      cases hfront : R.front bs with
      | error e => rfl
      | ok found =>
          cases found with
          | none => rfl
          | some k =>
              have hlt := length_drop_lt hfront
              dsimp only
              rw [ih n (bs.drop k) (by omega) (by omega)]

theorem drain_of_error {e : ε} (h : R.front bs = .error e) : R.drain bs = ([], .error e) := by
  simp only [drain, take, h]

theorem drain_of_none (h : R.front bs = .ok none) : R.drain bs = ([], .ok bs) := by
  simp only [drain, take, h]

theorem drain_of_some {n : ℕ} (h : R.front bs = .ok (some n)) :
    R.drain bs = (bs.take n :: (R.drain (bs.drop n)).1, (R.drain (bs.drop n)).2) := by
  rw [drain, take, h]
  dsimp only
  rw [take_eq_drain (length_drop_lt h)]

/-- Items at the front are taken one by one, whatever follows them. -/
theorem drain_flatten {items : List (List α)}
    (h : ∀ item ∈ items, ∀ more, R.front (item ++ more) = .ok (some item.length)) :
    R.drain (items.flatten ++ bs) = (items ++ (R.drain bs).1, (R.drain bs).2) := by
  induction items with
  | nil => rfl
  | cons item items ih =>
      rw [List.flatten_cons, List.append_assoc,
        drain_of_some (h item List.mem_cons_self _), List.take_left, List.drop_left,
        ih fun item' hitem ↦ h item' (List.mem_cons_of_mem item hitem)]
      rfl

/-! ## Readers that do not mind the chunks -/

/-- What is read, with refusals told apart by their kind alone. -/
def reported (kind : ε → κ) (r : List (List α) × Except ε (List α)) :
    List (List α) × Except κ (List α) := (r.1, r.2.mapError kind)

/-- What the reader says of any part of a stream, as the stream arrives, is what it says of the
whole stream. -/
def Settled (R : Reader α ε) (kind : ε → κ) (stream : List α) : Prop :=
  ∀ bs, bs <+: stream → match R.front bs with
    | .error e => ∃ e', R.front stream = .error e' ∧ kind e' = kind e
    | .ok none => True
    | .ok (some n) => R.front stream = .ok (some n)

variable {kind : ε → κ} {Good : List α → Prop}

/-- Draining a part first, and going on from what it leaves. -/
theorem drain_append (settled : ∀ stream, Good stream → R.Settled kind stream)
    (rest : ∀ stream n, Good stream → R.front stream = .ok (some n) → Good (stream.drop n))
    (bs more : List α) (hgood : Good (bs ++ more)) :
    match R.drain bs with
    | (items, .error e) => ∃ e', R.drain (bs ++ more) = (items, .error e') ∧ kind e' = kind e
    | (items, .ok left) => R.front left = .ok none ∧ Good (left ++ more) ∧
        R.drain (bs ++ more) =
          (items ++ (R.drain (left ++ more)).1, (R.drain (left ++ more)).2) := by
  induction hlen : bs.length using Nat.strongRecOn generalizing bs with
  | _ len ih =>
      subst hlen
      have hsettled := settled _ hgood bs (List.prefix_append ..)
      cases hfront : R.front bs with
      | error e =>
          rw [hfront] at hsettled
          obtain ⟨e', hwhole, hkind⟩ := hsettled
          rw [drain_of_error hfront]
          exact ⟨e', drain_of_error hwhole, hkind⟩
      | ok found =>
          cases found with
          | none =>
              rw [drain_of_none hfront]
              exact ⟨hfront, hgood, rfl⟩
          | some n =>
              rw [hfront] at hsettled
              have hinside := (R.inside hfront).2
              have hdrop : (bs ++ more).drop n = bs.drop n ++ more :=
                List.drop_append_of_le_length hinside
              have hgood' : Good (bs.drop n ++ more) := hdrop ▸ rest _ n hgood hsettled
              have hnext := ih _ (length_drop_lt hfront) (bs.drop n) hgood' rfl
              rw [drain_of_some hfront, drain_of_some hsettled, hdrop,
                List.take_append_of_le_length hinside]
              generalize R.drain (bs.drop n) = drained at hnext ⊢
              obtain ⟨items, e | left⟩ := drained
              · obtain ⟨e', heq, hkind⟩ := hnext
                rw [heq]
                exact ⟨e', rfl, hkind⟩
              · obtain ⟨hleft, hgood'', heq⟩ := hnext
                rw [heq]
                exact ⟨hleft, hgood'', rfl⟩

/-- **The chunks do not matter** to a reader that is settled on the stream and on what is left of
it after every item. -/
theorem reported_read (settled : ∀ stream, Good stream → R.Settled kind stream)
    (rest : ∀ stream n, Good stream → R.front stream = .ok (some n) → Good (stream.drop n))
    (chunks : List (List α)) (hfront : R.front bs = .ok none) (hgood : Good (bs ++ chunks.flatten)) :
    reported kind (R.read bs chunks) = reported kind (R.drain (bs ++ chunks.flatten)) := by
  induction chunks generalizing bs with
  | nil => rw [read, List.flatten_nil, List.append_nil, drain_of_none hfront]
  | cons chunk chunks ih =>
      rw [List.flatten_cons, ← List.append_assoc] at hgood ⊢
      have happend := drain_append settled rest (bs ++ chunk) chunks.flatten hgood
      rw [read]
      generalize R.drain (bs ++ chunk) = drained at happend ⊢
      obtain ⟨items, e | left⟩ := drained
      · obtain ⟨e', heq, hkind⟩ := happend
        rw [heq]
        simp only [reported, Except.mapError, hkind]
      · obtain ⟨hleft, hgood', heq⟩ := happend
        rw [heq]
        have hnext := Prod.mk.inj (ih hleft hgood')
        exact Prod.ext (congrArg (items ++ ·) hnext.1) hnext.2

end Reader

end EdgeMulticast.Lib
