import Mathlib.Data.List.Basic
import Mathlib.Order.Nat
import Mathlib.Tactic.Common

/-!
# Frames that declare their own size

A stream is cut into frames by reading the size of the next one out of its header.  `cut` takes a
given number of frames off the front and says what is left; it fails where a header is short, a
declared size does not even cover the header, or a frame overruns the stream.

`cut_eq_some_iff` is the whole of it: the frames that were cut off are frames, and a stream that
begins with frames is cut into just these.
-/

namespace EdgeMulticast.Lib

variable {α : Type*}

/-- A way of framing: how long a header is, and what size a header declares. -/
structure Framer (α : Type*) where
  header : ℕ
  size : List α → ℕ
  /-- The size is read in the header. -/
  size_take : ∀ bs, size (bs.take header) = size bs

namespace Framer

variable {F : Framer α} {bs rest f : List α} {fs : List (List α)} {n : ℕ}

/-- A frame: it has a header, and the size that the header declares. -/
def IsFrame (F : Framer α) (f : List α) : Prop := F.header ≤ f.length ∧ F.size f = f.length

/-- Whether a frame stands at the front of a stream. -/
def Fits (F : Framer α) (bs : List α) : Prop :=
  F.header ≤ bs.length ∧ F.header ≤ F.size bs ∧ F.size bs ≤ bs.length

instance : Decidable (F.Fits bs) := inferInstanceAs (Decidable (_ ∧ _))

/-- Take `n` frames off the front. -/
def cut (F : Framer α) : ℕ → List α → Option (List (List α) × List α)
  | 0, bs => some ([], bs)
  | n + 1, bs =>
      if F.Fits bs then
        (F.cut n (bs.drop (F.size bs))).map fun p ↦ (bs.take (F.size bs) :: p.1, p.2)
      else none

theorem size_append (h : F.header ≤ f.length) : F.size (f ++ rest) = F.size f := by
  rw [← F.size_take (f ++ rest), List.take_append_of_le_length h, F.size_take]

theorem IsFrame.fits (h : F.IsFrame f) : F.Fits (f ++ rest) := by
  have hsize : F.size (f ++ rest) = f.length := (size_append h.1).trans h.2
  refine ⟨?_, ?_, ?_⟩
  · rw [List.length_append]
    exact h.1.trans (Nat.le_add_right _ _)
  · rw [hsize]
    exact h.1
  · rw [hsize, List.length_append]
    exact Nat.le_add_right _ _

theorem Fits.isFrame (h : F.Fits bs) : F.IsFrame (bs.take (F.size bs)) := by
  obtain ⟨-, hsize, hle⟩ := h
  have hlen : (bs.take (F.size bs)).length = F.size bs := by rw [List.length_take]; omega
  refine ⟨by rwa [hlen], ?_⟩
  rw [hlen, ← F.size_take (bs.take (F.size bs)), List.take_take, Nat.min_eq_left hsize,
    F.size_take]

/-- One more frame can be cut off where one fits and the rest can be cut. -/
theorem exists_cut_succ_iff : (∃ p, F.cut (n + 1) bs = some p) ↔
    F.Fits bs ∧ ∃ p, F.cut n (bs.drop (F.size bs)) = some p := by
  rw [cut]
  split
  next hfits =>
    constructor
    · rintro ⟨p, hp⟩
      obtain ⟨q, hq, -⟩ := Option.map_eq_some_iff.mp hp
      exact ⟨hfits, q, hq⟩
    · rintro ⟨-, q, hq⟩
      exact ⟨_, by rw [hq]; rfl⟩
  next hfits => simp [hfits]

theorem cut_frame (h : F.IsFrame f) :
    F.cut (n + 1) (f ++ rest) = (F.cut n rest).map fun p ↦ (f :: p.1, p.2) := by
  have hsize : F.size (f ++ rest) = f.length := (size_append h.1).trans h.2
  rw [cut, if_pos h.fits, hsize, List.drop_left, List.take_left]

theorem cut_eq_some_iff : F.cut n bs = some (fs, rest) ↔
    fs.length = n ∧ (∀ f ∈ fs, F.IsFrame f) ∧ fs.flatten ++ rest = bs := by
  induction n generalizing bs fs with
  | zero =>
      rw [cut, Option.some.injEq, Prod.mk.injEq]
      constructor
      · rintro ⟨rfl, rfl⟩
        exact ⟨rfl, by simp, rfl⟩
      · rintro ⟨hlen, -, hflat⟩
        obtain rfl := List.length_eq_zero_iff.mp hlen
        exact ⟨rfl, hflat.symm⟩
  | succ n ih =>
      constructor
      · intro h
        rw [cut] at h
        split at h
        next hfits =>
          obtain ⟨⟨gs, rest'⟩, hcut, heq⟩ := Option.map_eq_some_iff.mp h
          obtain ⟨rfl, rfl⟩ := Prod.mk.inj heq
          obtain ⟨hlen, hframes, hflat⟩ := ih.mp hcut
          refine ⟨by rw [List.length_cons, hlen], ?_, ?_⟩
          · intro g hg
            rcases List.mem_cons.mp hg with rfl | hg
            · exact hfits.isFrame
            · exact hframes g hg
          · rw [List.flatten_cons, List.append_assoc, hflat, List.take_append_drop]
        next => exact absurd h (by simp)
      · rintro ⟨hlen, hframes, rfl⟩
        cases fs with
        | nil => simp at hlen
        | cons f fs =>
            have hcut : F.cut n (fs.flatten ++ rest) = some (fs, rest) :=
              ih.mpr ⟨by simpa using hlen, fun g hg ↦ hframes g (by simp [hg]), rfl⟩
            rw [List.flatten_cons, List.append_assoc, cut_frame (hframes f (by simp)), hcut]
            rfl

/-- A concatenation of frames is cut into them. -/
theorem cut_flatten (h : ∀ f ∈ fs, F.IsFrame f) :
    F.cut fs.length (fs.flatten ++ rest) = some (fs, rest) :=
  cut_eq_some_iff.mpr ⟨rfl, h, rfl⟩

end Framer

end EdgeMulticast.Lib
