import Mathlib.Data.List.Chain
import Mathlib.Order.Nat
import Mathlib.Tactic.Common

/-!
# Times a fixed gap apart

A list of times is `Spaced gap` when each is at least `gap` after the one before it.  Spaced times
bound how many a window holds (`Spaced.length_mul_le`), and so does what the window's part of them
keeps of their order (`Spaced.filter`).
-/

namespace EdgeMulticast.Lib

/-- Every two times of the list are `gap` apart, in order. -/
def Spaced (gap : ℕ) (times : List ℕ) : Prop := times.Pairwise (· + gap ≤ ·)

/-- The number of times in the half-open window `[start, start + width)`. -/
def inWindow (times : List ℕ) (start width : ℕ) : ℕ :=
  (times.filter fun t ↦ start ≤ t ∧ t < start + width).length

variable {gap start width : ℕ} {times : List ℕ}

theorem Spaced.filter (h : Spaced gap times) (p : ℕ → Bool) : Spaced gap (times.filter p) :=
  List.Pairwise.filter p h

/-- All but the last of the times of a window have their gap inside it. -/
theorem Spaced.length_mul_lt (h : Spaced gap times) (hne : times ≠ [])
    (hmem : ∀ t ∈ times, start ≤ t ∧ t < start + width) :
    (times.length - 1) * gap < width := by
  induction times generalizing start width with
  | nil => exact absurd rfl hne
  | cons t rest ih =>
      obtain ⟨hstart, hend⟩ := hmem t List.mem_cons_self
      cases rest with
      | nil =>
          rw [List.length_singleton, Nat.sub_self, Nat.zero_mul]
          omega
      | cons u rest =>
          obtain ⟨hgap, hrest⟩ := List.pairwise_cons.mp h
          -- The rest lies in the window without the first gap.
          have hroom : gap ≤ width := by
            have := hgap u List.mem_cons_self
            have := (hmem u (List.mem_cons_of_mem t List.mem_cons_self)).2
            omega
          have hinside : ∀ v ∈ u :: rest,
              start + gap ≤ v ∧ v < start + gap + (width - gap) := by
            intro v hv
            have := hgap v hv
            have := (hmem v (List.mem_cons_of_mem t hv)).2
            omega
          have hlt := ih hrest (List.cons_ne_nil u rest) hinside
          have hlen : (t :: u :: rest).length - 1 = (u :: rest).length - 1 + 1 := rfl
          rw [hlen, Nat.succ_mul]
          omega

/-- At most `n` of the times fall in any window of `n` gaps. -/
theorem Spaced.inWindow_le {n : ℕ} (h : Spaced gap times) (hwidth : width ≤ n * gap) :
    inWindow times start width ≤ n := by
  rw [inWindow]
  rcases hpart : times.filter (fun t ↦ start ≤ t ∧ t < start + width) with - | ⟨t, rest⟩
  · exact Nat.zero_le n
  · have hinside : ∀ u ∈ times.filter (fun t ↦ start ≤ t ∧ t < start + width),
        start ≤ u ∧ u < start + width := fun u hu ↦ of_decide_eq_true (List.mem_filter.mp hu).2
    have hlt := (h.filter fun t ↦ start ≤ t ∧ t < start + width).length_mul_lt
      (by rw [hpart]; exact List.cons_ne_nil t rest) hinside
    rw [hpart] at hlt
    have hfew : rest.length < n := Nat.lt_of_mul_lt_mul_right (hlt.trans_le hwidth)
    exact hfew

/-- Every time of a list within a window is in it. -/
theorem inWindow_eq_length (h : ∀ t ∈ times, start ≤ t ∧ t < start + width) :
    inWindow times start width = times.length := by
  rw [inWindow, List.filter_eq_self.mpr fun t ht ↦ decide_eq_true (h t ht)]

/-- The last of an ordered list is its greatest. -/
theorem le_of_getLast?_eq_some {last : ℕ} (h : times.Pairwise (· ≤ ·))
    (hlast : times.getLast? = some last) : ∀ t ∈ times, t ≤ last := by
  obtain ⟨init, rfl⟩ := List.getLast?_eq_some_iff.mp hlast
  intro t ht
  rcases List.mem_append.mp ht with ht | ht
  · exact (List.pairwise_append.mp h).2.2 t ht last (List.mem_singleton_self last)
  · exact (List.mem_singleton.mp ht).le

end EdgeMulticast.Lib
