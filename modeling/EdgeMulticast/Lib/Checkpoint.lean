import Mathlib.Data.List.Basic
import Mathlib.Order.Lattice

/-!
# Reading a log from a checkpoint

The entries of a log are numbered in ascending order, and the state after a number is the replay
of the entries up to it.  A reader receives the entries in order, and may replace its state by a
checkpoint, the state after a number, which it has not reached yet or has passed.

The reader `Holds` the log when its state is the one after its checkpoint or after what it has
received, whichever is later.  This is kept by a checkpoint behind which nothing of effect has
been received, by an entry after the checkpoint that is applied, and by an entry at or before
the checkpoint that is skipped.
-/

namespace EdgeMulticast.Lib

variable {M S : Type*}

/-- The state that the entries of a log make of a first one. -/
def replay (apply : S → M → S) (init : S) (log : List (ℕ × M)) : S :=
  log.foldl (fun s e ↦ apply s e.2) init

/-- The entries up to a number, in a log whose numbers ascend. -/
def upTo (n : ℕ) (log : List (ℕ × M)) : List (ℕ × M) := log.takeWhile fun e ↦ decide (e.1 ≤ n)

variable {apply : S → M → S} {init s : S} {log received : List (ℕ × M)} {a n : ℕ} {e : ℕ × M}

theorem replay_snoc : replay apply init (log ++ [e]) = apply (replay apply init log) e.2 := by
  rw [replay, List.foldl_append]
  rfl

theorem upTo_isPrefix : upTo n log <+: log := List.takeWhile_prefix _

theorem upTo_mono (h : a ≤ n) : upTo a log <+: upTo n log := by
  induction log with
  | nil => exact List.prefix_refl _
  | cons e log ih =>
      by_cases he : e.1 ≤ a
      · rw [upTo, upTo, List.takeWhile_cons_of_pos (by simpa using he),
          List.takeWhile_cons_of_pos (by simpa using Nat.le_trans he h)]
        exact List.cons_prefix_cons.mpr ⟨rfl, ih⟩
      · rw [upTo, List.takeWhile_cons_of_neg (by simpa using he)]
        exact List.nil_prefix

/-- What lies beyond a number is numbered beyond it. -/
theorem lt_of_mem_rest (hsorted : log.Pairwise fun e e' ↦ e.1 ≤ e'.1)
    (h : e ∈ log.dropWhile fun e ↦ decide (e.1 ≤ a)) : a < e.1 := by
  induction log with
  | nil => exact absurd h List.not_mem_nil
  | cons e' log ih =>
      obtain ⟨hhead, htail⟩ := List.pairwise_cons.mp hsorted
      by_cases he : e'.1 ≤ a
      · rw [List.dropWhile_cons_of_pos (by simpa using he)] at h
        exact ih htail h
      · rw [List.dropWhile_cons_of_neg (by simpa using he)] at h
        rcases List.mem_cons.mp h with rfl | h
        · exact Nat.lt_of_not_le he
        · exact Nat.lt_of_lt_of_le (Nat.lt_of_not_le he) (hhead e h)

/-- Entries received up to one that is numbered no later lie before the number. -/
theorem prefix_upTo (hsorted : log.Pairwise fun e e' ↦ e.1 ≤ e'.1)
    (h : received ++ [e] <+: log) (he : e.1 ≤ a) : received ++ [e] <+: upTo a log := by
  obtain ⟨rest, rfl⟩ := h
  rw [List.pairwise_append] at hsorted
  have hle : ∀ x ∈ received ++ [e], decide (x.1 ≤ a) = true := by
    intro x hx
    refine decide_eq_true (Nat.le_trans ?_ he)
    rcases List.mem_append.mp hx with hx | hx
    · exact (List.pairwise_append.mp hsorted.1).2.2 x hx e (List.mem_singleton_self e)
    · exact Nat.le_of_eq (congrArg Prod.fst (List.mem_singleton.mp hx))
  rw [upTo, List.takeWhile_append_of_pos hle]
  exact List.prefix_append _ _

/-- The entries up to a number have all been received when a later one is. -/
theorem upTo_isPrefix_received (h : received ++ [e] <+: log) (he : a < e.1) :
    upTo a log <+: received := by
  obtain ⟨rest, rfl⟩ := h
  rw [upTo, List.append_assoc, List.takeWhile_append]
  split
  next hall =>
      have hstop : (e :: rest).takeWhile (fun x ↦ decide (x.1 ≤ a)) = [] :=
        List.takeWhile_cons_of_neg (by simpa using he)
      rw [List.singleton_append, hstop]
      simp
  next => exact List.takeWhile_prefix _

/-- The state is the one after the checkpoint or after what has been received, whichever is
later. -/
def Holds (apply : S → M → S) (init : S) (log received : List (ℕ × M)) (a : ℕ) (s : S) : Prop :=
  ∃ later, (later = received ∨ later = upTo a log) ∧ received <+: later ∧ upTo a log <+: later ∧
    s = replay apply init later

namespace Holds

/-- A checkpoint behind which nothing of effect has been received. -/
theorem checkpoint (hsorted : log.Pairwise fun e e' ↦ e.1 ≤ e'.1) (hreceived : received <+: log)
    (hbehind : ∀ e ∈ received, a < e.1 → ∀ s, apply s e.2 = s) :
    Holds apply init log received a (replay apply init (upTo a log)) := by
  rcases List.prefix_or_prefix_of_prefix hreceived (upTo_isPrefix (n := a)) with h | ⟨extra, rfl⟩
  · exact ⟨upTo a log, Or.inr rfl, h, List.prefix_refl _, rfl⟩
  · refine ⟨_, Or.inl rfl, List.prefix_refl _, List.prefix_append _ _, ?_⟩
    have hextra : ∀ e ∈ extra, ∀ s, apply s e.2 = s := by
      intro e he
      refine hbehind e (List.mem_append_right _ he) (lt_of_mem_rest hsorted ?_)
      obtain ⟨rest, hrest⟩ := hreceived
      have hsplit : upTo a log ++ (log.dropWhile fun e ↦ decide (e.1 ≤ a)) = log :=
        List.takeWhile_append_dropWhile
      rw [List.append_assoc] at hrest
      rw [← List.append_cancel_left (hrest.trans hsplit.symm)]
      exact List.mem_append_left _ he
    rw [replay, replay, List.foldl_append]
    generalize (upTo a log).foldl (fun s e ↦ apply s e.2) init = s
    clear hreceived hbehind
    induction extra with
    | nil => rfl
    | cons e extra ih =>
        rw [List.foldl_cons, hextra e List.mem_cons_self]
        exact ih fun e' he' ↦ hextra e' (List.mem_cons_of_mem e he')

/-- An entry after the checkpoint is applied. -/
theorem apply_after (h : Holds apply init log received a s) (hnext : received ++ [e] <+: log)
    (he : a < e.1) : Holds apply init log (received ++ [e]) a (apply s e.2) := by
  obtain ⟨later, hlater, hreceived, hcheckpoint, rfl⟩ := h
  have hbehind := upTo_isPrefix_received hnext he
  obtain rfl : later = received := by
    rcases hlater with rfl | rfl
    · rfl
    · exact hbehind.eq_of_length (Nat.le_antisymm hbehind.length_le hreceived.length_le)
  exact ⟨later ++ [e], Or.inl rfl, List.prefix_refl _, hbehind.trans (List.prefix_append _ _),
    replay_snoc.symm⟩

/-- An entry at or before the checkpoint is skipped. -/
theorem skip_before (h : Holds apply init log received a s)
    (hsorted : log.Pairwise fun e e' ↦ e.1 ≤ e'.1) (hnext : received ++ [e] <+: log)
    (he : e.1 ≤ a) : Holds apply init log (received ++ [e]) a s := by
  obtain ⟨later, hlater, hreceived, hcheckpoint, rfl⟩ := h
  have hahead := prefix_upTo hsorted hnext he
  obtain rfl : later = upTo a log := by
    rcases hlater with rfl | rfl
    · have hlength := Nat.le_trans hahead.length_le hcheckpoint.length_le
      rw [List.length_append, List.length_singleton] at hlength
      exact absurd hlength (Nat.not_succ_le_self _)
    · rfl
  exact ⟨upTo a log, Or.inr rfl, hahead, List.prefix_refl _, rfl⟩

/-- Once the entries up to a number have been received, the state is the one after the later of
the number and the checkpoint. -/
theorem eq_replay (h : Holds apply init log (upTo n log) a s) :
    s = replay apply init (upTo (max a n) log) := by
  obtain ⟨later, hlater, hreceived, hcheckpoint, rfl⟩ := h
  have heq {l l' : List (ℕ × M)} (h : l <+: l') (h' : l' <+: l) : l = l' :=
    h.eq_of_length (Nat.le_antisymm h.length_le h'.length_le)
  rcases Nat.le_total a n with hle | hle
  · rw [max_eq_right hle]
    rcases hlater with rfl | rfl
    · rfl
    · rw [heq (upTo_mono hle) hreceived]
  · rw [max_eq_left hle]
    rcases hlater with rfl | rfl
    · rw [heq (upTo_mono hle) hcheckpoint]
    · rfl

end Holds

end EdgeMulticast.Lib
