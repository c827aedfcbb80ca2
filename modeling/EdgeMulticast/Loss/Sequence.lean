import EdgeMulticast.Lib.Run
import EdgeMulticast.Lib.Words
import Mathlib.Algebra.Order.Monoid.Unbundled.WithTop
import Mathlib.Data.Finset.Max

/-!
# Sequence continuity of one channel instance

`SequenceTracker.observe` says what the sequence number of a datagram did, relative to all that
its channel instance has seen in the current era.  Which numbers have been seen it keeps in a
bitmap of `REORDER_WINDOW` bits relative to the highest one (`SeenWindow`), and the bitmap slides
as the highest number moves.

The set of the numbers an era has adopted is what the bitmap stands for.  `Tracks` relates the
two, every call keeps it (`Tracks.observe`), and `classifies` reads off it that the outcome of a
call is a statement about the set.
-/

namespace EdgeMulticast.Loss

open EdgeMulticast.Lib

/-! ## The window -/

/-- Sequence numbers the reordering window covers. -/
def REORDER_WINDOW : ℕ := 1024

/-- The largest forward jump that is credible as loss, `1 << 32`. -/
def MAX_FORWARD_JUMP : ℕ := 4294967296

def WINDOW_WORDS : ℕ := REORDER_WINDOW / 64

/-- Bit `n` means that `highest - n` has arrived. -/
structure SeenWindow where
  bits : Words WINDOW_WORDS
deriving DecidableEq

namespace SeenWindow

def new : SeenWindow := ⟨Vector.replicate WINDOW_WORDS 0⟩

def clear (_ : SeenWindow) : SeenWindow := new

def contains (w : SeenWindow) (behind : ℕ) : Bool := w.bits.test behind

def insert (w : SeenWindow) (behind : ℕ) : SeenWindow := ⟨w.bits.setBit behind⟩

/-- What was `highest - n` becomes `highest - n - delta`. -/
def slide (w : SeenWindow) (delta : ℕ) : SeenWindow :=
  if REORDER_WINDOW ≤ delta then w.clear else ⟨w.bits.slide delta⟩

@[simp] theorem contains_clear (w : SeenWindow) (i : ℕ) : w.clear.contains i = false := by
  rw [contains, Words.test_eq_bit]
  exact Words.bit_replicate_zero i

theorem contains_insert {w : SeenWindow} {behind : ℕ} (h : behind < REORDER_WINDOW) (i : ℕ) :
    (w.insert behind).contains i = (decide (i = behind) || w.contains i) := by
  rw [contains, contains, Words.test_eq_bit, Words.test_eq_bit]
  exact Words.bit_setBit h i

/-- Within the window, a slide moves what has arrived by its distance. -/
theorem contains_slide {w : SeenWindow} (delta : ℕ) {i : ℕ} (h : i < REORDER_WINDOW) :
    (w.slide delta).contains i = (decide (delta ≤ i) && w.contains (i - delta)) := by
  unfold slide
  split
  next hfull =>
      rw [contains_clear, decide_eq_false (Nat.not_le.mpr (h.trans_le hfull)), Bool.false_and]
  next =>
      rw [contains, contains, Words.test_eq_bit, Words.test_eq_bit]
      exact Words.bit_slide delta h

end SeenWindow

/-! ## The tracker -/

/-- What the sequence number of one datagram did. -/
inductive SequenceOutcome where
  | opened
  | inOrder
  | gap (missing : ℕ)
  | duplicate
  | reordered (behind : ℕ)
  | reset (eraOrdinal : ℕ)
  | backward (behind : ℕ)
  | forwardJump (ahead : ℕ)
deriving DecidableEq

namespace SequenceOutcome

/-- The outcomes with which an era starts. -/
def opensEra : SequenceOutcome → Bool
  | opened | reset _ => true
  | _ => false

/-- The outcomes that leave the tracker as it was. -/
def refused : SequenceOutcome → Bool
  | duplicate | backward _ | forwardJump _ => true
  | _ => false

end SequenceOutcome

/-- Sequence continuity and era accounting of one channel instance. -/
structure SequenceTracker where
  opened : Bool
  highest : ℕ
  resetCount : ℕ
  eraOrdinal : ℕ
  seen : SeenWindow
deriving DecidableEq

namespace SequenceTracker

def new : SequenceTracker := ⟨false, 0, 0, 0, .new⟩

/-- A tracker whose first era will be numbered `eraOrdinal + 1`. -/
def resumingFromEra (eraOrdinal : ℕ) : SequenceTracker := { new with eraOrdinal }

/-- Start an era, advancing the ordinal. -/
def «open» (t : SequenceTracker) (sequenceNumber resetCount : ℕ) : SequenceTracker where
  opened := true
  highest := sequenceNumber
  resetCount := resetCount
  eraOrdinal := t.eraOrdinal + 1
  seen := t.seen.clear.insert 0

/-- Fold the header fields of one datagram in, and say what they meant. -/
def observe (t : SequenceTracker) (sequenceNumber resetCount : ℕ) :
    SequenceTracker × SequenceOutcome :=
  if t.opened = false then
    (t.open sequenceNumber resetCount, .opened)
  else if resetCount ≠ t.resetCount then
    let t' := t.open sequenceNumber resetCount
    (t', .reset t'.eraOrdinal)
  else if t.highest < sequenceNumber then
    let delta := sequenceNumber - t.highest
    if MAX_FORWARD_JUMP < delta then (t, .forwardJump delta)
    else
      ({ t with highest := sequenceNumber, seen := (t.seen.slide delta).insert 0 },
        if delta = 1 then .inOrder else .gap (delta - 1))
  else
    let behind := t.highest - sequenceNumber
    if REORDER_WINDOW ≤ behind then (t, .backward behind)
    else if t.seen.contains behind then (t, .duplicate)
    else ({ t with seen := t.seen.insert behind }, .reordered behind)

/-! ## What a call does -/

/-- The tracker once it has adopted a higher number. -/
def advance (t : SequenceTracker) (n : ℕ) : SequenceTracker :=
  { t with highest := n, seen := (t.seen.slide (n - t.highest)).insert 0 }

/-- The calls of `observe`, told apart by what they find. -/
inductive Observes (t : SequenceTracker) (n reset : ℕ) :
    SequenceTracker × SequenceOutcome → Prop where
  | opened (h : t.opened = false) : Observes t n reset (t.open n reset, .opened)
  | reset (h : t.opened = true) (hreset : reset ≠ t.resetCount) :
      Observes t n reset (t.open n reset, .reset (t.eraOrdinal + 1))
  | forwardJump (h : t.opened = true) (hreset : reset = t.resetCount)
      (hfar : t.highest + MAX_FORWARD_JUMP < n) :
      Observes t n reset (t, .forwardJump (n - t.highest))
  | inOrder (h : t.opened = true) (hreset : reset = t.resetCount) (hnext : n = t.highest + 1) :
      Observes t n reset (t.advance n, .inOrder)
  | gap (h : t.opened = true) (hreset : reset = t.resetCount) (hlt : t.highest + 1 < n)
      (hnear : n ≤ t.highest + MAX_FORWARD_JUMP) :
      Observes t n reset (t.advance n, .gap (n - t.highest - 1))
  | backward (h : t.opened = true) (hreset : reset = t.resetCount)
      (hfar : n + REORDER_WINDOW ≤ t.highest) :
      Observes t n reset (t, .backward (t.highest - n))
  | duplicate (h : t.opened = true) (hreset : reset = t.resetCount) (hle : n ≤ t.highest)
      (hnear : t.highest - n < REORDER_WINDOW) (hseen : t.seen.contains (t.highest - n) = true) :
      Observes t n reset (t, .duplicate)
  | reordered (h : t.opened = true) (hreset : reset = t.resetCount) (hle : n ≤ t.highest)
      (hnear : t.highest - n < REORDER_WINDOW)
      (hunseen : t.seen.contains (t.highest - n) = false) :
      Observes t n reset
        ({ t with seen := t.seen.insert (t.highest - n) }, .reordered (t.highest - n))

theorem observe_cases (t : SequenceTracker) (n reset : ℕ) :
    t.Observes n reset (t.observe n reset) := by
  unfold observe
  split
  next h => exact .opened h
  next h =>
      rw [Bool.not_eq_false] at h
      split
      next hreset => exact .reset h hreset
      next hreset =>
          rw [not_not] at hreset
          split
          next hlt =>
              dsimp only
              split
              next hfar => exact .forwardJump h hreset (by omega)
              next hfar =>
                  split
                  next hone => exact .inOrder h hreset (by omega)
                  next hone => exact .gap h hreset (by omega) (by omega)
          next hlt =>
              have hle : n ≤ t.highest := Nat.not_lt.mp hlt
              dsimp only
              split
              next hfar => exact .backward h hreset (by omega)
              next hfar =>
                  rw [Nat.not_le] at hfar
                  split
                  next hseen => exact .duplicate h hreset hle hfar hseen
                  next hseen => exact .reordered h hreset hle hfar (by simpa using hseen)

/-- After any call the tracker is open. -/
theorem opened_observe (t : SequenceTracker) (n reset : ℕ) :
    (t.observe n reset).1.opened = true := by
  generalize t.observe n reset = out, t.observe_cases n reset = hobs
  cases hobs <;> first | rfl | assumption

/-! ## What an era has adopted -/

/-- The numbers the current era has adopted, once a call has been answered. -/
def adopt (t : SequenceTracker) (S : Finset ℕ) (n reset : ℕ) : Finset ℕ :=
  match (t.observe n reset).2 with
  | .opened | .reset _ => {n}
  | .inOrder | .gap _ | .reordered _ => insert n S
  | .duplicate | .backward _ | .forwardJump _ => S

/-- A call, as a step of the tracker. -/
def step (t : SequenceTracker) (call : ℕ × ℕ) : SequenceTracker := (t.observe call.1 call.2).1

/-- The set that follows the tracker. -/
def note (t : SequenceTracker) (S : Finset ℕ) (call : ℕ × ℕ) : Finset ℕ := t.adopt S call.1 call.2

/-- The tracker stands for a set: the highest number is its maximum, and the window says which
of the numbers behind it are in it. -/
structure Tracks (t : SequenceTracker) (S : Finset ℕ) : Prop where
  mem : t.opened = true → t.highest ∈ S
  le : t.opened = true → ∀ m ∈ S, m ≤ t.highest
  seen : t.opened = true → ∀ behind < REORDER_WINDOW,
    t.seen.contains behind = true ↔ behind ≤ t.highest ∧ t.highest - behind ∈ S

theorem tracks_resumingFromEra (era : ℕ) : (resumingFromEra era).Tracks ∅ := by
  constructor <;> exact fun h ↦ Bool.noConfusion h

/-- An era that opens has adopted the number it opens with. -/
theorem tracks_open (t : SequenceTracker) (n reset : ℕ) : (t.open n reset).Tracks {n} where
  mem _ := Finset.mem_singleton_self n
  le _ m hm := (Finset.mem_singleton.mp hm).le
  seen _ behind hb := by
    show (t.seen.clear.insert 0).contains behind = true ↔ behind ≤ n ∧ n - behind ∈ {n}
    rw [SeenWindow.contains_insert (by decide), SeenWindow.contains_clear, Bool.or_false,
      decide_eq_true_iff, Finset.mem_singleton]
    omega

/-- Adopting a higher number slides the window under it. -/
theorem Tracks.forward {t : SequenceTracker} {S : Finset ℕ} {n : ℕ} (h : t.Tracks S)
    (hopened : t.opened = true) (hlt : t.highest < n) :
    (t.advance n).Tracks (insert n S) where
  mem _ := Finset.mem_insert_self n S
  le _ m hm := by
    rcases Finset.mem_insert.mp hm with rfl | hm
    · exact Nat.le_refl _
    · exact ((h.le hopened m hm).trans_lt hlt).le
  seen _ behind hb := by
    show ((t.seen.slide (n - t.highest)).insert 0).contains behind = true ↔
      behind ≤ n ∧ n - behind ∈ insert n S
    rw [SeenWindow.contains_insert (by decide), SeenWindow.contains_slide _ hb, Bool.or_eq_true,
      Bool.and_eq_true, decide_eq_true_iff, decide_eq_true_iff, Finset.mem_insert]
    by_cases hdelta : n - t.highest ≤ behind
    · rw [h.seen hopened _ (by omega), show t.highest - (behind - (n - t.highest)) = n - behind by
        omega]
      constructor
      · rintro (rfl | ⟨-, hle, hmem⟩)
        · omega
        · exact ⟨by omega, .inr hmem⟩
      · rintro ⟨hle, heq | hmem⟩
        · omega
        · exact .inr ⟨hdelta, by omega, hmem⟩
    · constructor
      · rintro (rfl | ⟨hle, -⟩)
        · exact ⟨Nat.zero_le n, .inl rfl⟩
        · exact absurd hle hdelta
      · rintro ⟨hle, heq | hmem⟩
        · exact .inl (by omega)
        · -- nothing above the highest number was in the set
          have := h.le hopened _ hmem
          omega

/-- Adopting a number within the window marks it there. -/
theorem Tracks.fill {t : SequenceTracker} {S : Finset ℕ} {n : ℕ} (h : t.Tracks S)
    (hopened : t.opened = true) (hle : n ≤ t.highest) (hnear : t.highest - n < REORDER_WINDOW) :
    { t with seen := t.seen.insert (t.highest - n) }.Tracks (insert n S) where
  mem _ := Finset.mem_insert_of_mem (h.mem hopened)
  le _ m hm := by
    rcases Finset.mem_insert.mp hm with rfl | hm
    · exact hle
    · exact h.le hopened m hm
  seen _ behind hb := by
    show (t.seen.insert (t.highest - n)).contains behind = true ↔
      behind ≤ t.highest ∧ t.highest - behind ∈ insert n S
    rw [SeenWindow.contains_insert hnear, Bool.or_eq_true, decide_eq_true_iff,
      h.seen hopened _ hb, Finset.mem_insert]
    constructor
    · rintro (rfl | ⟨hb, hmem⟩)
      · exact ⟨Nat.sub_le _ _, .inl (Nat.sub_sub_self hle)⟩
      · exact ⟨hb, .inr hmem⟩
    · rintro ⟨hb, heq | hmem⟩
      · exact .inl (by omega)
      · exact .inr ⟨hb, hmem⟩

/-- Every call keeps the relation. -/
theorem Tracks.step {t : SequenceTracker} {S : Finset ℕ} (h : t.Tracks S) (n reset : ℕ) :
    (t.observe n reset).1.Tracks (t.adopt S n reset) := by
  unfold adopt
  generalize t.observe n reset = out, t.observe_cases n reset = hobs
  cases hobs with
  | opened _ | reset _ _ => exact tracks_open t n reset
  | forwardJump _ _ _ | backward _ _ _ | duplicate _ _ _ _ _ => exact h
  | inOrder hopened _ hnext => exact h.forward hopened (by omega)
  | gap hopened _ hlt _ => exact h.forward hopened (by omega)
  | reordered hopened _ hle hnear _ => exact h.fill hopened hle hnear

/-! ## The outcome of a call -/

/-- The outcome of a call, stated of the set an era has adopted. -/
structure Classified (t : SequenceTracker) (S : Finset ℕ) (n reset : ℕ) : Prop where
  /-- The highest number is the maximum of the set. -/
  highest : t.opened = true → S.max = t.highest
  opened : (t.observe n reset).2 = .opened ↔ t.opened = false
  transition : ∀ era, (t.observe n reset).2 = .reset era ↔
    t.opened = true ∧ reset ≠ t.resetCount ∧ era = t.eraOrdinal + 1
  inOrder : t.opened = true → reset = t.resetCount →
    ((t.observe n reset).2 = .inOrder ↔ n = t.highest + 1)
  gap : t.opened = true → reset = t.resetCount → ∀ missing,
    ((t.observe n reset).2 = .gap missing ↔
      missing = n - t.highest - 1 ∧ t.highest + 1 < n ∧ n ≤ t.highest + MAX_FORWARD_JUMP)
  forwardJump : t.opened = true → reset = t.resetCount → ∀ ahead,
    ((t.observe n reset).2 = .forwardJump ahead ↔
      ahead = n - t.highest ∧ t.highest + MAX_FORWARD_JUMP < n)
  duplicate : t.opened = true → reset = t.resetCount →
    ((t.observe n reset).2 = .duplicate ↔ n ∈ S ∧ t.highest - n < REORDER_WINDOW)
  reordered : t.opened = true → reset = t.resetCount → ∀ behind,
    ((t.observe n reset).2 = .reordered behind ↔
      behind = t.highest - n ∧ n ≤ t.highest ∧ n ∉ S ∧ t.highest - n < REORDER_WINDOW)
  backward : t.opened = true → reset = t.resetCount → ∀ behind,
    ((t.observe n reset).2 = .backward behind ↔
      behind = t.highest - n ∧ n + REORDER_WINDOW ≤ t.highest)
  unchanged : (t.observe n reset).2.refused = true → (t.observe n reset).1 = t
  /-- The ordinal grows with an era and with nothing else. -/
  ordinal : (t.observe n reset).1.eraOrdinal =
    t.eraOrdinal + if (t.observe n reset).2.opensEra = true then 1 else 0

theorem Tracks.max_eq {t : SequenceTracker} {S : Finset ℕ} (h : t.Tracks S)
    (hopened : t.opened = true) : S.max = t.highest :=
  le_antisymm (Finset.max_le fun m hm ↦ WithBot.coe_le_coe.mpr (h.le hopened m hm))
    (Finset.le_max (h.mem hopened))

/-- What the window says of a number within it is what the set says. -/
theorem Tracks.contains_iff {t : SequenceTracker} {S : Finset ℕ} {n : ℕ} (h : t.Tracks S)
    (hopened : t.opened = true) (hle : n ≤ t.highest) (hnear : t.highest - n < REORDER_WINDOW) :
    t.seen.contains (t.highest - n) = true ↔ n ∈ S := by
  rw [h.seen hopened _ hnear, Nat.sub_sub_self hle]
  exact and_iff_right (Nat.sub_le _ _)

/-- The outcome of a call in the same era, as a function of the set. -/
def outcomeIn (highest : ℕ) (S : Finset ℕ) (n : ℕ) : SequenceOutcome :=
  if highest < n then
    if MAX_FORWARD_JUMP < n - highest then .forwardJump (n - highest)
    else if n - highest = 1 then .inOrder else .gap (n - highest - 1)
  else if REORDER_WINDOW ≤ highest - n then .backward (highest - n)
  else if n ∈ S then .duplicate else .reordered (highest - n)

theorem Tracks.outcome_eq {t : SequenceTracker} {S : Finset ℕ} (h : t.Tracks S)
    (hopened : t.opened = true) {n reset : ℕ} (hreset : reset = t.resetCount) :
    (t.observe n reset).2 = outcomeIn t.highest S n := by
  rw [observe, if_neg (by simp [hopened]), if_neg (not_not.mpr hreset), outcomeIn]
  by_cases hlt : t.highest < n
  · rw [if_pos hlt, if_pos hlt]
    dsimp only
    split <;> rfl
  · rw [if_neg hlt, if_neg hlt]
    dsimp only
    by_cases hfar : REORDER_WINDOW ≤ t.highest - n
    · rw [if_pos hfar, if_pos hfar]
    · rw [if_neg hfar, if_neg hfar]
      have hiff := h.contains_iff hopened (Nat.not_lt.mp hlt) (Nat.not_le.mp hfar)
      by_cases hmem : n ∈ S
      · rw [if_pos hmem, if_pos (hiff.mpr hmem)]
      · rw [if_neg hmem, if_neg fun hseen ↦ hmem (hiff.mp hseen)]

theorem Tracks.classified {t : SequenceTracker} {S : Finset ℕ} (h : t.Tracks S) (n reset : ℕ) :
    t.Classified S n reset where
  highest := h.max_eq
  opened := by
    generalize t.observe n reset = out, t.observe_cases n reset = hobs
    cases hobs <;> simp_all
  transition era := by
    generalize t.observe n reset = out, t.observe_cases n reset = hobs
    cases hobs <;> simp [*, eq_comm]
  inOrder hopened hreset := by
    have hpos : 0 < MAX_FORWARD_JUMP := by decide
    rw [h.outcome_eq hopened hreset, outcomeIn]
    split_ifs <;> simp <;> omega
  gap hopened hreset missing := by
    rw [h.outcome_eq hopened hreset, outcomeIn]
    split_ifs <;> simp <;> omega
  forwardJump hopened hreset ahead := by
    rw [h.outcome_eq hopened hreset, outcomeIn]
    split_ifs <;> simp <;> omega
  duplicate hopened hreset := by
    rw [h.outcome_eq hopened hreset, outcomeIn]
    have hle := h.le hopened n
    split_ifs <;> simp <;> grind
  reordered hopened hreset behind := by
    rw [h.outcome_eq hopened hreset, outcomeIn]
    split_ifs <;> simp <;> grind
  backward hopened hreset behind := by
    rw [h.outcome_eq hopened hreset, outcomeIn]
    split_ifs <;> simp <;> grind
  unchanged := by
    generalize t.observe n reset = out, t.observe_cases n reset = hobs
    cases hobs <;> simp [SequenceOutcome.refused]
  ordinal := by
    generalize t.observe n reset = out, t.observe_cases n reset = hobs
    cases hobs <;> rfl

/-- **The outcome of a call is exact**, whatever the calls before it were. -/
theorem classifies (era : ℕ) (calls : List (ℕ × ℕ)) (n reset : ℕ) :
    (run step (resumingFromEra era) calls).Classified
      (ghost step note (resumingFromEra era) ∅ calls) n reset :=
  (run_ghost (P := Tracks) calls (tracks_resumingFromEra era)
    fun _ c _ h ↦ h.step c.1 c.2).classified n reset

end SequenceTracker

end EdgeMulticast.Loss
