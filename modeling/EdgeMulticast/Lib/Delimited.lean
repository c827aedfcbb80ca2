import EdgeMulticast.Lib.ShortReads
import EdgeMulticast.Lib.Text

/-!
# Parts that a separator ends

Where the first separator of a sequence stands, and that a sequence falls into the part before it
and the rest in one way only.  A number of such a part is spelled by digits; `str::parse` reads
it with a sign `+` before them too (`parseUnsigned_eq_some_iff`).
-/

namespace EdgeMulticast.Lib

section Separator

variable {α : Type*} {sep : α} {xs ys as bs : List α} {i : ℕ}

/-- What is behind a separator. -/
theorem drop_sep (xs ys : List α) (sep : α) : (xs ++ sep :: ys).drop (xs.length + 1) = ys := by
  rw [List.append_cons]
  exact List.drop_left' (by rw [List.length_append]; rfl)

variable [DecidableEq α]

theorem findIdx?_sep (h : sep ∉ xs) (ys : List α) :
    (xs ++ sep :: ys).findIdx? (· = sep) = some xs.length := by
  have hnone : xs.findIdx? (· = sep) = none := by
    rw [List.findIdx?_eq_none_iff]
    intro x hx
    exact decide_eq_false fun heq ↦ h (heq ▸ hx)
  rw [List.findIdx?_append, hnone, List.findIdx?_cons, decide_eq_true rfl, if_pos rfl,
    Option.none_or, Option.map_some, Nat.zero_add]

/-- The first separator cuts the sequence into what is before it and the rest. -/
theorem exists_of_findIdx? (h : bs.findIdx? (· = sep) = some i) :
    ∃ xs ys, bs = xs ++ sep :: ys ∧ sep ∉ xs ∧ xs.length = i := by
  obtain ⟨hi, hat, hbefore⟩ := List.findIdx?_eq_some_iff_getElem.mp h
  refine ⟨bs.take i, bs.drop (i + 1), ?_, fun hmem ↦ ?_, List.length_take_of_le hi.le⟩
  · rw [← of_decide_eq_true hat, List.getElem_cons_drop, List.take_append_drop]
  · obtain ⟨j, hj, heq⟩ := List.getElem_of_mem hmem
    rw [List.length_take] at hj
    rw [List.getElem_take] at heq
    exact absurd (decide_eq_true heq) (hbefore j (by omega))

/-- It does so in one way only. -/
theorem append_sep_inj (hxs : sep ∉ xs) (hys : sep ∉ ys)
    (h : xs ++ sep :: as = ys ++ sep :: bs) : xs = ys ∧ as = bs := by
  have hlen : xs.length = ys.length := by
    have hfind := findIdx?_sep hxs as
    rw [h, findIdx?_sep hys bs] at hfind
    exact (Option.some.inj hfind).symm
  obtain ⟨hparts, hrest⟩ := List.append_inj h hlen
  exact ⟨hparts, (List.cons.inj hrest).2⟩

omit [DecidableEq α] in
/-- A prefix without the separator lies before the first one. -/
theorem prefix_of_prefix_append_sep {front : List α} (hfront : sep ∉ front)
    (h : front <+: xs ++ sep :: ys) : front <+: xs := by
  rcases le_total front.length xs.length with hle | hle
  · exact List.prefix_of_prefix_length_le h (List.prefix_append ..) hle
  · have hxs : xs <+: front := List.prefix_of_prefix_length_le (List.prefix_append ..) h hle
    obtain ⟨more, rfl⟩ := hxs
    rw [List.prefix_append_right_inj] at h
    cases more with
    | nil => exact (List.append_nil xs).symm ▸ List.prefix_rfl
    | cons b more =>
        obtain ⟨rfl, -⟩ := List.cons_prefix_cons.mp h
        exact absurd (List.mem_append_right xs List.mem_cons_self) hfront

end Separator

/-! ## Numbers -/

/-- Digits, at least one, that spell a number. -/
def Digits (text : List Byte) (n : ℕ) : Prop :=
  text ≠ [] ∧ text.all isDigit ∧ ofDigits 0 text = n

/-- What `str::parse` reads as a number: digits, or a sign `+` and digits. -/
def Parses (text : List Byte) (n : ℕ) : Prop :=
  Digits text n ∨ ∃ digits, text = 43 :: digits ∧ Digits digits n

variable {text : List Byte} {n m max : ℕ}

theorem Digits.isDigit_of_mem (h : Digits text n) : ∀ b ∈ text, isDigit b :=
  List.all_eq_true.mp h.2.1

/-- No sign is a digit. -/
theorem Digits.head?_ne (h : Digits text n) : text.head? ≠ some 43 := by
  intro hhead
  have hdigit := h.isDigit_of_mem 43 (List.mem_of_head? hhead)
  exact absurd hdigit (by decide)

theorem Parses.digits_of_head? (h : Parses text n) (hhead : text.head? ≠ some 43) :
    Digits text n := by
  rcases h with h | ⟨digits, rfl, -⟩
  · exact h
  · exact absurd rfl hhead

/-- Every byte of a number is a digit or the sign. -/
theorem Parses.of_mem (h : Parses text n) : ∀ b ∈ text, isDigit b ∨ b = 43 := by
  intro b hb
  rcases h with h | ⟨digits, rfl, h⟩
  · exact .inl (h.isDigit_of_mem b hb)
  · rcases List.mem_cons.mp hb with rfl | hb
    · exact .inr rfl
    · exact .inl (h.isDigit_of_mem b hb)

theorem parseUnsigned_eq_some_iff : parseUnsigned max text = some n ↔ Parses text n ∧ n ≤ max := by
  rw [parseUnsigned]
  by_cases hhead : text.head? = some 43
  · obtain ⟨digits, rfl⟩ : ∃ digits, text = 43 :: digits := by
      cases text with
      | nil => cases hhead
      | cons b digits => exact ⟨digits, by rw [Option.some.inj hhead]⟩
    rw [if_pos hhead, List.tail_cons]
    constructor
    · intro h
      split at h
      next hall =>
          obtain rfl := Option.some.inj h
          exact ⟨.inr ⟨digits, rfl, hall.1, hall.2.1, rfl⟩, hall.2.2⟩
      next => cases h
    · rintro ⟨h | ⟨digits', heq, hne, hall, rfl⟩, hle⟩
      · exact absurd hhead h.head?_ne
      · obtain rfl := (List.cons.inj heq).2
        exact if_pos ⟨hne, hall, hle⟩
  · rw [if_neg hhead]
    constructor
    · intro h
      split at h
      next hall =>
          obtain rfl := Option.some.inj h
          exact ⟨.inl ⟨hall.1, hall.2.1, rfl⟩, hall.2.2⟩
      next => cases h
    · rintro ⟨h, hle⟩
      obtain ⟨hne, hall, rfl⟩ := h.digits_of_head? hhead
      exact if_pos ⟨hne, hall, hle⟩

theorem Parses.unique (h : Parses text n) (h' : Parses text m) : n = m := by
  have hread := parseUnsigned_eq_some_iff.mpr ⟨h, le_max_left n m⟩
  rw [parseUnsigned_eq_some_iff.mpr ⟨h', le_max_right n m⟩] at hread
  exact (Option.some.inj hread).symm

theorem digits_decimal (n : ℕ) : Digits (decimal n) n :=
  ⟨decimal_ne_nil n, isDigit_decimal n, ofDigits_decimal n⟩

/-- A number in decimal digits, with zeros before them up to a width. -/
def padded (width n : ℕ) : List Byte :=
  List.replicate (width - (decimal n).length) 48 ++ decimal n

theorem length_padded {width : ℕ} (hwidth : 0 < width) (h : n < 10 ^ width) :
    (padded width n).length = width := by
  have hle : (decimal n).length ≤ width := by
    rw [decimal, List.length_map]
    exact (Nat.length_toDigits_le_iff (by decide) hwidth).mpr h
  rw [padded, List.length_append, List.length_replicate, Nat.sub_add_cancel hle]

theorem ofDigits_replicate_zero (k : ℕ) (text : List Byte) :
    ofDigits 0 (List.replicate k 48 ++ text) = ofDigits 0 text := by
  induction k with
  | zero => rfl
  | succ k ih =>
      rw [List.replicate_succ, List.cons_append]
      exact ih

theorem digits_padded (width n : ℕ) : Digits (padded width n) n := by
  refine ⟨List.append_ne_nil_of_right_ne_nil _ (decimal_ne_nil n), ?_, ?_⟩
  · rw [padded, List.all_append, isDigit_decimal, Bool.and_true, List.all_eq_true]
    intro b hb
    rw [List.eq_of_mem_replicate hb]
    rfl
  · rw [padded, ofDigits_replicate_zero, ofDigits_decimal]

end EdgeMulticast.Lib

/-!
## Words of a text

`str::split_whitespace`: the words of a text in UTF-8, between the characters of the Unicode property
`White_Space`.
-/

namespace EdgeMulticast.Lib

/-- How many bytes the whitespace character at the front of a text takes, `0` where there is none. -/
def whitespaceLength : List Byte → ℕ
  | [] => 0
  | b :: bs =>
      if b < 0x80 then if 9 ≤ b ∧ b ≤ 13 ∨ b = 0x20 then 1 else 0
      else match b, bs with
        | 0xc2, b :: _ => if b = 0x85 ∨ b = 0xa0 then 2 else 0
        | 0xe1, 0x9a :: 0x80 :: _ => 3
        | 0xe2, 0x80 :: b :: _ =>
            if 0x80 ≤ b ∧ b ≤ 0x8a ∨ b = 0xa8 ∨ b = 0xa9 ∨ b = 0xaf then 3 else 0
        | 0xe2, 0x81 :: 0x9f :: _ => 3
        | 0xe3, 0x80 :: 0x80 :: _ => 3
        | _, _ => 0

/-- The words of a text: those behind what was begun, where `skip` bytes are still whitespace. -/
def wordsFrom (skip : ℕ) (begun : List Byte) : List Byte → List (List Byte)
  | [] => if begun = [] then [] else [begun]
  | b :: bs =>
      if 0 < skip then wordsFrom (skip - 1) begun bs
      else if whitespaceLength (b :: bs) = 0 then wordsFrom 0 (begun ++ [b]) bs
      else
        (if begun = [] then [] else [begun]) ++ wordsFrom (whitespaceLength (b :: bs) - 1) [] bs

def splitWhitespace (text : List Byte) : List (List Byte) := wordsFrom 0 [] text

/-- Printable ASCII. -/
def Visible (text : List Byte) : Prop := ∀ b ∈ text, 0x21 ≤ b ∧ b < 0x80

variable {text rest begun : List Byte} {b : Byte}

theorem whitespaceLength_ascii (h : b < 0x80) (rest : List Byte) :
    whitespaceLength (b :: rest) = if 9 ≤ b ∧ b ≤ 13 ∨ b = 0x20 then 1 else 0 :=
  if_pos h

theorem wordsFrom_visible (h : Visible text) (begun rest : List Byte) :
    wordsFrom 0 begun (text ++ rest) = wordsFrom 0 (begun ++ text) rest := by
  induction text generalizing begun with
  | nil => rw [List.append_nil, List.nil_append]
  | cons b text ih =>
      obtain ⟨hlow, hhigh⟩ := h b List.mem_cons_self
      have hzero : whitespaceLength (b :: (text ++ rest)) = 0 := by
        rw [whitespaceLength_ascii hhigh, if_neg]
        rintro (⟨-, hle⟩ | rfl)
        · exact absurd (UInt8.le_trans hlow hle) (by decide)
        · exact absurd hlow (by decide)
      rw [List.cons_append, wordsFrom, if_neg (Nat.lt_irrefl 0), if_pos hzero,
        ih (fun b hb ↦ h b (List.mem_cons_of_mem _ hb)), List.append_assoc, List.singleton_append]

/-- A word that a space or a newline ends. -/
theorem wordsFrom_end (hbegun : begun ≠ []) (hspace : b = SPACE ∨ b = NEWLINE) (rest : List Byte) :
    wordsFrom 0 begun (b :: rest) = begun :: wordsFrom 0 [] rest := by
  have hone : whitespaceLength (b :: rest) = 1 := by
    rcases hspace with rfl | rfl <;> rw [whitespaceLength_ascii (by decide)] <;> rfl
  rw [wordsFrom, if_neg (Nat.lt_irrefl 0), if_neg (by rw [hone]; exact Nat.one_ne_zero),
    if_neg hbegun, hone]
  rfl

/-- Two words on a line. -/
theorem splitWhitespace_line {first second : List Byte} (hfirst : Visible first)
    (hsecond : Visible second) (hne : first ≠ []) (hne' : second ≠ []) :
    splitWhitespace (first ++ SPACE :: (second ++ [NEWLINE])) = [first, second] := by
  rw [splitWhitespace, wordsFrom_visible hfirst, List.nil_append, wordsFrom_end hne (.inl rfl),
    wordsFrom_visible hsecond, List.nil_append, wordsFrom_end hne' (.inr rfl)]
  rfl

theorem visible_decimal (n : ℕ) : Visible (decimal n) := by
  intro b hb
  have hdigit := List.all_eq_true.mp (isDigit_decimal n) b hb
  rw [isDigit, Bool.and_eq_true, decide_eq_true_eq, decide_eq_true_eq] at hdigit
  exact ⟨UInt8.le_trans (by decide) hdigit.1, UInt8.lt_of_le_of_lt hdigit.2 (by decide)⟩

end EdgeMulticast.Lib

/-!
## Lines of fields

A line states fields, with one space between two of them.  A field of printable ASCII holds neither
the space nor the newline, so a line that was written is read as its fields (`fields_line`), and a
text of such lines as its lines (`linesOf_flatten`).
-/

namespace EdgeMulticast.Lib

/-- A field that a line can state. -/
def PlainField (text : List Byte) : Prop := ∀ b ∈ text, b < 0x80 ∧ b ≠ SPACE ∧ b ≠ NEWLINE

/-- The text of a line, without its newline. -/
def fieldsText (fields : List (List Byte)) : List Byte := [SPACE].intercalate fields

variable {fields : List (List Byte)} {text : List Byte}

theorem PlainField.space (h : PlainField text) : SPACE ∉ text := fun hmem ↦ (h _ hmem).2.1 rfl

theorem plainField_digits {n : ℕ} (h : Digits text n) : PlainField text := by
  intro b hb
  have hdigit := h.isDigit_of_mem b hb
  rw [isDigit, Bool.and_eq_true, decide_eq_true_eq, decide_eq_true_eq] at hdigit
  refine ⟨UInt8.lt_of_le_of_lt hdigit.2 (by decide), ?_, ?_⟩
  · rintro rfl
    exact absurd hdigit.1 (by decide)
  · rintro rfl
    exact absurd hdigit.1 (by decide)

theorem plainField_decimal (n : ℕ) : PlainField (decimal n) := plainField_digits (digits_decimal n)

theorem plainField_hex (bs : List Byte) : PlainField (hex bs) := by
  intro digit hdigit
  have hnibble := nibble_of_mem_hex hdigit
  refine ⟨?_, ?_, ?_⟩
  · rw [nibble] at hnibble
    split at hnibble
    next hbounds =>
        rw [Bool.and_eq_true, decide_eq_true_eq, decide_eq_true_eq] at hbounds
        exact UInt8.lt_of_le_of_lt hbounds.2 (by decide)
    next =>
    split at hnibble
    next hbounds =>
        rw [Bool.and_eq_true, decide_eq_true_eq, decide_eq_true_eq] at hbounds
        exact UInt8.lt_of_le_of_lt hbounds.2 (by decide)
    next => cases hnibble
  · rintro rfl
    exact absurd hnibble (by decide)
  · rintro rfl
    exact absurd hnibble (by decide)

theorem mem_fieldsText {b : Byte} (h : b ∈ fieldsText fields) :
    b = SPACE ∨ ∃ text ∈ fields, b ∈ text := by
  induction fields with
  | nil => cases h
  | cons first rest ih =>
      cases rest with
      | nil =>
          rw [fieldsText, List.intercalate_singleton] at h
          exact .inr ⟨first, List.mem_cons_self, h⟩
      | cons second rest =>
          rw [fieldsText, List.intercalate_cons_cons, List.mem_append, List.mem_append] at h
          rcases h with (h | h) | h
          · exact .inr ⟨first, List.mem_cons_self, h⟩
          · exact .inl (List.mem_singleton.mp h)
          · rcases ih h with hspace | ⟨text, htext, hb⟩
            · exact .inl hspace
            · exact .inr ⟨text, List.mem_cons_of_mem _ htext, hb⟩

/-- A part of a line ends in its first field, or behind it. -/
theorem prefix_field {part field rest : List Byte} (h : part <+: field ++ SPACE :: rest) :
    part <+: field ∨ ∃ more, part = field ++ SPACE :: more ∧ more <+: rest := by
  rcases List.prefix_or_prefix_of_prefix h (List.prefix_append field _) with hpart | ⟨tail, rfl⟩
  · exact .inl hpart
  · have htail := (List.prefix_append_right_inj field).mp h
    cases tail with
    | nil => exact .inl ((List.append_nil field).symm ▸ List.prefix_refl field)
    | cons b more =>
        obtain ⟨rfl, hmore⟩ := List.cons_prefix_cons.mp htail
        exact .inr ⟨more, rfl, hmore⟩

theorem ascii_fieldsText (h : ∀ text ∈ fields, PlainField text) : ∀ b ∈ fieldsText fields, b < 0x80 := by
  intro b hb
  rcases mem_fieldsText hb with rfl | ⟨text, htext, hb⟩
  · decide
  · exact (h text htext b hb).1

theorem NEWLINE_notMem_fieldsText (h : ∀ text ∈ fields, PlainField text) :
    NEWLINE ∉ fieldsText fields := by
  intro hmem
  rcases mem_fieldsText hmem with hspace | ⟨text, htext, hb⟩
  · exact absurd hspace (by decide)
  · exact (h text htext _ hb).2.2 rfl

/-- A line is read as its fields. -/
theorem fields_line (h : ∀ text ∈ fields, PlainField text) (hne : fields ≠ []) :
    (fieldsText fields).splitOn SPACE = fields :=
  List.splitOn_intercalate SPACE (fun text htext ↦ (h text htext).space) hne

/-- Lines behind each other are read as these lines. -/
theorem linesOf_flatten {texts : List (List Byte)} (h : ∀ text ∈ texts, NEWLINE ∉ text)
    (rest : List Byte) :
    linesOf ((texts.map (· ++ [NEWLINE])).flatten ++ rest) =
      texts.map (· ++ [NEWLINE]) ++ linesOf rest := by
  induction texts with
  | nil => rfl
  | cons text texts ih =>
      rw [List.map_cons, List.flatten_cons, List.append_assoc, List.append_assoc,
        List.singleton_append, linesOf_line (h text List.mem_cons_self),
        ih fun text htext ↦ h text (List.mem_cons_of_mem _ htext), List.cons_append]

/-- A text of lines that was cut ends behind one of them, or inside the text of one. -/
theorem Cut.inText {texts : List (List Byte)} {k : ℕ} {tail : List Byte}
    (h : Cut (texts.map (· ++ [NEWLINE])) k tail) :
    tail = [] ∨ tail ≠ [] ∧ ∃ text, texts[k]? = some text ∧ tail <+: text := by
  cases h with
  | between => exact .inl rfl
  | inside hk hcut hnil hne =>
      rw [List.getElem?_map, Option.map_eq_some_iff] at hk
      obtain ⟨text, htext, rfl⟩ := hk
      exact .inr ⟨hnil, text, htext, (List.prefix_concat_iff.mp hcut).resolve_left hne⟩

/-- The lines of a text that was cut: those that are whole, and what is left of one. -/
theorem Cut.lines {texts : List (List Byte)} {k : ℕ} {tail : List Byte}
    (h : Cut (texts.map (· ++ [NEWLINE])) k tail) (hplain : ∀ text ∈ texts, NEWLINE ∉ text) :
    NEWLINE ∉ tail ∧ linesOf (((texts.map (· ++ [NEWLINE])).take k).flatten ++ tail) =
      (texts.take k).map (· ++ [NEWLINE]) ++ if tail = [] then [] else [tail] := by
  have hfree : NEWLINE ∉ tail := by
    rcases h.inText with rfl | ⟨-, text, htext, hcut⟩
    · exact List.not_mem_nil
    · exact fun hmem ↦ hplain text (List.mem_of_getElem? htext) (hcut.subset hmem)
  refine ⟨hfree, ?_⟩
  rw [← List.map_take, linesOf_flatten fun text htext ↦ hplain text (List.mem_of_mem_take htext),
    linesOf_tail hfree]

end EdgeMulticast.Lib
