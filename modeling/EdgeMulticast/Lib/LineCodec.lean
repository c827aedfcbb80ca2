import EdgeMulticast.Lib.Text

/-!
# Values kept as lines of a text

A file that holds one value a line, appended to line by line and read leniently: a line that is no
value is passed over.  What is behind a text of whole lines leaves the lines before it as they are.
-/

namespace EdgeMulticast.Lib

def RETURN : Byte := 0x0d

/-- A line as a reader of lines gives it: without its newline and the return before that. -/
def lineText (line : List Byte) : List Byte :=
  match stripNewline line with
  | none => line
  | some text => if text.getLast? = some RETURN then text.dropLast else text

def textLines (text : List Byte) : List (List Byte) := (linesOf text).map lineText

/-- Whether a text ends where a line does. -/
def Whole (text : List Byte) : Prop := text = [] ∨ text.getLast? = some NEWLINE

section Texts

variable {text rest : List Byte} {b : Byte}

theorem whole_nil : Whole [] := .inl rfl

theorem whole_line (line : List Byte) : Whole (line ++ [NEWLINE]) := .inr (by simp)

theorem Whole.append (hrest : Whole rest) (h : Whole text) : Whole (text ++ rest) := by
  rcases hrest with rfl | hrest
  · rwa [List.append_nil]
  · exact .inr (by rw [List.getLast?_append, hrest, Option.some_or])

theorem Whole.tail (h : Whole (b :: text)) : Whole text := by
  rcases h with h | h
  · cases h
  · cases text with
    | nil => exact whole_nil
    | cons b' text => exact .inr (by rwa [List.getLast?_cons_cons] at h)

theorem linesOf_ne_nil (h : text ≠ []) : linesOf text ≠ [] := by
  cases text with
  | nil => exact absurd rfl h
  | cons b text =>
      rw [linesOf]
      split
      · exact List.cons_ne_nil _ _
      · split <;> exact List.cons_ne_nil _ _

/-- The lines of a text of whole lines stay as they are when more is behind it. -/
theorem linesOf_append (h : Whole text) (rest : List Byte) :
    linesOf (text ++ rest) = linesOf text ++ linesOf rest := by
  induction text with
  | nil => rfl
  | cons b text ih =>
      have ih := ih h.tail
      by_cases hb : b = NEWLINE
      · rw [List.cons_append, linesOf, if_pos hb, linesOf, if_pos hb, ih, List.cons_append]
      · have htext : text ≠ [] := by
          rintro rfl
          rcases h with h | h
          · cases h
          · exact hb (Option.some.inj h)
        rw [List.cons_append, linesOf, if_neg hb, linesOf, if_neg hb, ih]
        obtain ⟨line, lines, hlines⟩ := List.exists_cons_of_ne_nil (linesOf_ne_nil htext)
        rw [hlines]
        rfl

theorem textLines_append (h : Whole text) (rest : List Byte) :
    textLines (text ++ rest) = textLines text ++ textLines rest := by
  rw [textLines, linesOf_append h, List.map_append, textLines, textLines]

end Texts

/-! ## Values -/

/-- How a value is written as a line, and what a line is read as. -/
structure LineCodec (α : Type) where
  write : α → List Byte
  read : List Byte → Option α
  read_write (a : α) : read (write a) = some a
  isUtf8_write (a : α) : isUtf8 (write a)
  newline_free (a : α) : NEWLINE ∉ write a
  return_free (a : α) : RETURN ∉ write a

namespace LineCodec

variable {α : Type} (c : LineCodec α) {text : List Byte}

def line (a : α) : List Byte := c.write a ++ [NEWLINE]

/-- The values in a text. -/
def values (text : List Byte) : List α := (textLines text).filterMap c.read

/-- A text with nothing but the given values in it. -/
def lines (as : List α) : List Byte := as.flatMap c.line

@[simp] theorem values_nil : c.values [] = [] := rfl

theorem textLines_line (a : α) : textLines (c.line a) = [c.write a] := by
  have hlast : (c.write a).getLast? ≠ some RETURN := fun h ↦
    c.return_free a (List.mem_of_getLast? h)
  rw [line, textLines, linesOf_line (c.newline_free a) [], linesOf, List.map_singleton, lineText,
    stripNewline_line]
  exact congrArg (fun t ↦ [t]) (if_neg hlast)

theorem values_append (h : Whole text) (rest : List Byte) :
    c.values (text ++ rest) = c.values text ++ c.values rest := by
  rw [values, textLines_append h, List.filterMap_append, values, values]

@[simp] theorem values_line (a : α) : c.values (c.line a) = [a] := by
  rw [values, textLines_line, List.filterMap_cons_some (c.read_write a), List.filterMap_nil]

theorem whole_line (a : α) : Whole (c.line a) := Lib.whole_line (c.write a)

theorem isUtf8_line (a : α) : isUtf8 (c.line a) := isUtf8_append (c.isUtf8_write a) rfl

theorem whole_lines (as : List α) : Whole (c.lines as) := by
  induction as with
  | nil => exact whole_nil
  | cons a as ih => exact ih.append (c.whole_line a)

theorem isUtf8_lines (as : List α) : isUtf8 (c.lines as) := by
  induction as with
  | nil => rfl
  | cons a as ih => exact isUtf8_append (c.isUtf8_line a) ih

@[simp] theorem values_lines (as : List α) : c.values (c.lines as) = as := by
  induction as with
  | nil => rfl
  | cons a as ih =>
      rw [lines, List.flatMap_cons, c.values_append (c.whole_line a), values_line]
      exact congrArg (a :: ·) ih

/-! ### Torn lines -/

/-- No value is read before its text is complete. -/
structure Closed (c : LineCodec α) : Prop where
  blank : c.read [] = none
  torn (a : α) (k : ℕ) : k < (c.write a).length → c.read ((c.write a).take k) = none

theorem write_ne_nil {c : LineCodec α} (h : c.Closed) (a : α) : c.write a ≠ [] := by
  intro hnil
  have hread := c.read_write a
  rw [hnil, h.blank] at hread
  cases hread

theorem values_of_notMem {c : LineCodec α} (h : NEWLINE ∉ text) (hne : text ≠ []) :
    c.values text = (c.read text).toList := by
  rw [values, textLines, linesOf_tail h, if_neg hne, List.map_singleton, lineText,
    stripNewline_eq_none h]
  cases hread : c.read text with
  | none => rw [List.filterMap_cons_none hread, List.filterMap_nil, Option.toList_none]
  | some a => rw [List.filterMap_cons_some hread, List.filterMap_nil, Option.toList_some]

/-- What is left of a line holds its value from the last byte of its text on. -/
theorem values_take_line {c : LineCodec α} (h : c.Closed) (a : α) (k : ℕ) :
    c.values ((c.line a).take k) = if k < (c.write a).length then [] else [a] := by
  rcases Nat.lt_trichotomy k (c.write a).length with hshort | hsame | hlong
  · have htake : (c.line a).take k = (c.write a).take k :=
      List.take_append_of_le_length (Nat.le_of_lt hshort)
    rw [htake, if_pos hshort]
    by_cases hnil : (c.write a).take k = []
    · rw [hnil, values_nil]
    · rw [values_of_notMem (fun hmem ↦ c.newline_free a (List.mem_of_mem_take hmem)) hnil,
        h.torn a k hshort, Option.toList_none]
  · have htake : (c.line a).take k = c.write a := by
      rw [hsame]
      exact List.take_left
    rw [htake, if_neg (Nat.not_lt_of_ge hsame.ge),
      values_of_notMem (c.newline_free a) (write_ne_nil h a), c.read_write, Option.toList_some]
  · have hall : (c.line a).length ≤ k := by
      rw [line, List.length_append]
      exact hlong
    rw [List.take_of_length_le hall, values_line, if_neg (Nat.not_lt_of_gt hlong)]

theorem filter_read_write (c : LineCodec α) (a : α) :
    (c.read (c.write a)).filter (fun b ↦ c.write b = c.write a) = some a := by
  rw [c.read_write]
  exact if_pos (decide_eq_true rfl)

/-- A codec that reads nothing but what it writes. -/
def strict (c : LineCodec α) : LineCodec α :=
  { c with
    read := fun text ↦ (c.read text).filter fun a ↦ c.write a = text
    read_write := c.filter_read_write }

/-- If no text begins another one, no value is read before its text is complete. -/
theorem closed_strict (c : LineCodec α) (hne : ∀ a, c.write a ≠ [])
    (h : ∀ a b rest, c.write a = c.write b ++ rest → rest = []) : c.strict.Closed where
  blank := by
    refine Option.filter_eq_none_iff.mpr fun a _ ↦ ?_
    simpa using hne a
  torn a k hk := by
    refine Option.filter_eq_none_iff.mpr fun b _ heq ↦ ?_
    have hrest := h a b ((c.write a).drop k) (by
      rw [of_decide_eq_true heq]
      exact (List.take_append_drop k _).symm)
    exact Nat.not_lt_of_ge (List.drop_eq_nil_iff.mp hrest) hk

end LineCodec

end EdgeMulticast.Lib
