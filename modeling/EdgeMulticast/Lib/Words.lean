import Mathlib.Order.Basic
import Mathlib.Data.Nat.Basic
import Mathlib.Tactic.Common

/-!
# Bitmaps of several words

A bitmap is an array of words of 64 bits; bit `i` is bit `i % 64` of word `i / 64` (`bit`).

`slide` shifts the whole bitmap towards the high bits, in place and word by word from the last
one down, with a carry from the word below.  `bit_slide` says what the loop comes to.
-/

namespace EdgeMulticast.Lib

/-- An array of `n` words. -/
abbrev Words (n : ℕ) := Vector (BitVec 64) n

namespace Words

variable {n : ℕ} (v : Words n)

/-- The word of an index, zero beyond the last. -/
def word (i : ℕ) : BitVec 64 := v[i]?.getD 0

/-- A bit of the bitmap. -/
def bit (i : ℕ) : Bool := (v.word (i / 64)).getLsbD (i % 64)

/-- Whether the mask of a bit meets its word. -/
def test (i : ℕ) : Bool := v.word (i / 64) &&& (1#64 <<< (i % 64)) ≠ 0

/-- Set a bit. -/
def setBit (i : ℕ) : Words n :=
  v.setIfInBounds (i / 64) (v.word (i / 64) ||| (1#64 <<< (i % 64)))

/-- What a shift by `words` words and `bits` bits makes of a word. -/
def shifted (words bits target : ℕ) : BitVec 64 :=
  if words ≤ target then
    let value := v.word (target - words) <<< bits
    -- a shift by the whole width is not a shift, so the carry is taken only when there is one
    if 0 < bits ∧ 0 < target - words then value ||| v.word (target - words - 1) >>> (64 - bits)
    else value
  else 0

/-- The loop of a shift, over the targets below `t` from the last one down. -/
def slideLoop (words bits : ℕ) : ℕ → Words n → Words n
  | 0, v => v
  | t + 1, v => slideLoop words bits t (v.setIfInBounds t (v.shifted words bits t))

/-- Shift by `delta` bits. -/
def slide (delta : ℕ) : Words n := slideLoop (delta / 64) (delta % 64) n v

variable {v}

theorem word_update (t i : ℕ) (x : BitVec 64) :
    word (v.setIfInBounds t x) i = if i = t ∧ i < n then x else v.word i := by
  rw [word, word, Vector.getElem?_setIfInBounds]
  by_cases heq : t = i
  · subst heq
    by_cases hlt : t < n
    · simp [hlt]
    · simp [hlt]
  · rw [if_neg heq, if_neg fun hand ↦ heq hand.1.symm]

/-- A shifted word reads the words up to its own. -/
theorem shifted_congr {v' : Words n} {words bits target : ℕ}
    (h : ∀ i ≤ target, v'.word i = v.word i) :
    v'.shifted words bits target = v.shifted words bits target := by
  simp only [shifted]
  rw [h _ (Nat.sub_le _ _), h _ ((Nat.sub_le _ _).trans (Nat.sub_le _ _))]

/-- The loop shifts every word of the bitmap as it was. -/
theorem word_slideLoop (words bits t : ℕ) (ht : t ≤ n) (v : Words n) (i : ℕ) :
    (slideLoop words bits t v).word i =
      if i < t then v.shifted words bits i else v.word i := by
  induction t generalizing v with
  | zero => rw [slideLoop, if_neg (Nat.not_lt_zero i)]
  | succ t ih =>
      have hbelow : ∀ j < t, word (v.setIfInBounds t (v.shifted words bits t)) j = v.word j := by
        intro j hj
        rw [word_update, if_neg fun hand ↦ hj.ne hand.1]
      rw [slideLoop, ih (Nat.le_of_succ_le ht)]
      rcases Nat.lt_trichotomy i t with hlt | rfl | hgt
      · rw [if_pos hlt, if_pos (Nat.lt_succ_of_lt hlt),
          shifted_congr fun j hj ↦ hbelow j (hj.trans_lt hlt)]
      · rw [if_neg (lt_irrefl _), if_pos (Nat.lt_succ_self _), word_update, if_pos ⟨rfl, ht⟩]
      · rw [if_neg hgt.not_gt, if_neg (by omega), word_update, if_neg fun hand ↦ hgt.ne' hand.1]

theorem test_eq_bit (i : ℕ) : v.test i = v.bit i := by
  have hlt : i % 64 < 64 := Nat.mod_lt _ (by decide)
  rw [test, bit, ← BitVec.twoPow_eq, BitVec.and_twoPow]
  cases hbit : (v.word (i / 64)).getLsbD (i % 64) with
  | true =>
      rw [if_pos rfl, decide_eq_true_eq]
      intro hzero
      have hget := congrArg (·.getLsbD (i % 64)) hzero
      simp [hlt] at hget
  | false => simp

/-- Setting a bit sets that bit alone. -/
theorem bit_setBit {i : ℕ} (hi : i < 64 * n) (j : ℕ) :
    (v.setBit i).bit j = (decide (j = i) || v.bit j) := by
  have hlt : i % 64 < 64 := Nat.mod_lt _ (by decide)
  rw [bit, bit, setBit, word_update]
  split
  next hand =>
      rw [BitVec.getLsbD_or, ← BitVec.twoPow_eq, BitVec.getLsbD_twoPow, decide_eq_true hlt,
        Bool.true_and, Bool.or_comm, hand.1]
      congr 1
      exact decide_eq_decide.mpr (by omega)
  next hand =>
      have hne : j ≠ i := by
        intro heq
        exact hand ⟨heq ▸ rfl, heq ▸ Nat.div_lt_of_lt_mul hi⟩
      rw [decide_eq_false hne, Bool.false_or]

/-- A bit of a shifted word: the bits of the word `words` below, and above them the carry. -/
theorem getLsbD_shifted {words bits target k : ℕ} (hbits : bits < 64) (hk : k < 64) :
    (v.shifted words bits target).getLsbD k =
      if k < bits then
        decide (words < target) && (v.word (target - words - 1)).getLsbD (64 - bits + k)
      else decide (words ≤ target) && (v.word (target - words)).getLsbD (k - bits) := by
  unfold shifted
  by_cases hle : words ≤ target
  · rw [if_pos hle, decide_eq_true hle, Bool.true_and]
    by_cases hcarry : 0 < bits ∧ 0 < target - words
    · rw [if_pos hcarry, BitVec.getLsbD_or, BitVec.getLsbD_shiftLeft, BitVec.getLsbD_ushiftRight,
        decide_eq_true hk, decide_eq_true (Nat.lt_of_sub_pos hcarry.2), Bool.true_and,
        Bool.true_and]
      by_cases hlow : k < bits
      · simp [hlow]
      · rw [BitVec.getLsbD_of_ge _ (64 - bits + k) (by omega)]
        simp [hlow]
    · rw [if_neg hcarry, BitVec.getLsbD_shiftLeft, decide_eq_true hk, Bool.true_and]
      by_cases hlow : k < bits
      · rw [if_pos hlow, decide_eq_true hlow, decide_eq_false (by omega)]
        rfl
      · simp [hlow]
  · rw [if_neg hle, decide_eq_false hle, decide_eq_false fun hlt ↦ hle (Nat.le_of_lt hlt)]
    simp

/-- **A slide moves every bit by its distance**, and what falls off the end is lost. -/
theorem bit_slide (delta : ℕ) {i : ℕ} (hi : i < 64 * n) :
    (v.slide delta).bit i = (decide (delta ≤ i) && v.bit (i - delta)) := by
  have hmod : ∀ k, k % 64 < 64 := fun k ↦ Nat.mod_lt _ (by decide)
  rw [bit, slide, word_slideLoop _ _ _ (le_refl n), if_pos (Nat.div_lt_of_lt_mul hi),
    getLsbD_shifted (hmod _) (hmod _), bit]
  by_cases hlow : i % 64 < delta % 64
  · -- the bit comes from the word below
    rw [if_pos hlow]
    by_cases hle : delta ≤ i
    · rw [decide_eq_true hle, decide_eq_true (by omega), show i / 64 - delta / 64 - 1 =
        (i - delta) / 64 by omega, show 64 - delta % 64 + i % 64 = (i - delta) % 64 by omega]
    · rw [decide_eq_false hle, decide_eq_false (by omega)]
      rfl
  · rw [if_neg hlow]
    by_cases hle : delta ≤ i
    · rw [decide_eq_true hle, decide_eq_true (by omega), show i / 64 - delta / 64 =
        (i - delta) / 64 by omega, show i % 64 - delta % 64 = (i - delta) % 64 by omega]
    · rw [decide_eq_false hle, decide_eq_false (by omega)]
      rfl

/-- No bit of the empty bitmap is set. -/
theorem bit_replicate_zero (i : ℕ) : bit (Vector.replicate n 0 : Words n) i = false := by
  rw [bit, word, Vector.getElem?_replicate]
  split <;> exact BitVec.getLsbD_zero

end Words

end EdgeMulticast.Lib
