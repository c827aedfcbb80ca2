import EdgeMulticast.Lib.Bytes

/-!
# Lines, fields and numbers of a text

A text is its bytes.  A file of lines is read by splitting it behind its newlines, a line by
splitting it at its spaces, and a field as a decimal number or as hexadecimal bytes.  Each of the
readers comes with the writer that it reads back.
-/

namespace EdgeMulticast.Lib

def SPACE : Byte := 0x20

def NEWLINE : Byte := 0x0a

/-- The bytes of a text of ASCII characters. -/
def ascii (s : String) : List Byte := s.toList.map fun c ↦ UInt8.ofNat c.toNat

/-! ## UTF-8 -/

/-- The bytes that follow the first one of a character, each between its two bounds. -/
def continuation (b : Byte) : Option (List (Byte × Byte)) :=
  let any : Byte × Byte := (0x80, 0xbf)
  if b < 0x80 then some []
  else if b < 0xc2 then none
  else if b < 0xe0 then some [any]
  else if b = 0xe0 then some [(0xa0, 0xbf), any]
  else if b = 0xed then some [(0x80, 0x9f), any]
  else if b < 0xf0 then some [any, any]
  else if b = 0xf0 then some [(0x90, 0xbf), any, any]
  else if b < 0xf4 then some [any, any, any]
  else if b = 0xf4 then some [(0x80, 0x8f), any, any]
  else none

/-- Whether bytes are UTF-8, where these are expected first. -/
def isUtf8From : List (Byte × Byte) → List Byte → Bool
  | expected, [] => expected.isEmpty
  | (low, high) :: expected, b :: bs => low ≤ b && b ≤ high && isUtf8From expected bs
  | [], b :: bs =>
      match continuation b with
      | none => false
      | some expected => isUtf8From expected bs

/-- Whether bytes are UTF-8, without overlong forms and surrogates. -/
def isUtf8 (bs : List Byte) : Bool := isUtf8From [] bs

theorem isUtf8_of_ascii {bs : List Byte} (h : ∀ b ∈ bs, b < 0x80) : isUtf8 bs := by
  induction bs with
  | nil => rfl
  | cons b bs ih =>
      have hb : continuation b = some [] := if_pos (h b List.mem_cons_self)
      rw [isUtf8, isUtf8From, hb]
      exact ih fun b' hb ↦ h b' (List.mem_cons_of_mem b hb)

theorem isUtf8From_append {expected : List (Byte × Byte)} {text rest : List Byte}
    (h : isUtf8From expected text) (hrest : isUtf8 rest) : isUtf8From expected (text ++ rest) := by
  induction text generalizing expected with
  | nil =>
      cases expected with
      | nil => exact hrest
      | cons e es => exact absurd h Bool.false_ne_true
  | cons b text ih =>
      cases expected with
      | cons e es =>
          rw [isUtf8From, Bool.and_eq_true] at h
          rw [List.cons_append, isUtf8From, Bool.and_eq_true]
          exact ⟨h.1, ih h.2⟩
      | nil =>
          rw [isUtf8From] at h
          rw [List.cons_append, isUtf8From]
          cases hb : continuation b with
          | none => rw [hb] at h; exact absurd h Bool.false_ne_true
          | some es =>
              rw [hb] at h
              exact ih h

theorem isUtf8_append {text rest : List Byte} (h : isUtf8 text) (hrest : isUtf8 rest) :
    isUtf8 (text ++ rest) :=
  isUtf8From_append h hrest

/-! ## Lines -/

/-- The lines of a text, each with its newline.  The last one may have none. -/
def linesOf : List Byte → List (List Byte)
  | [] => []
  | b :: bs =>
      if b = NEWLINE then [b] :: linesOf bs
      else match linesOf bs with
        | [] => [[b]]
        | line :: lines => (b :: line) :: lines

/-- A line without its newline, if it has one. -/
def stripNewline (line : List Byte) : Option (List Byte) :=
  if line.getLast? = some NEWLINE then some line.dropLast else none

/-- A text without the newlines at its end. -/
def trimNewlines (text : List Byte) : List Byte :=
  (text.reverse.dropWhile (· = NEWLINE)).reverse

variable {line text rest : List Byte}

theorem linesOf_line (h : NEWLINE ∉ line) (rest : List Byte) :
    linesOf (line ++ NEWLINE :: rest) = (line ++ [NEWLINE]) :: linesOf rest := by
  induction line with
  | nil => rw [List.nil_append, linesOf, if_pos rfl, List.nil_append]
  | cons b line ih =>
      obtain ⟨hb, hline⟩ := not_or.mp (mt List.mem_cons.mpr h)
      rw [List.cons_append, linesOf, if_neg (Ne.symm hb), ih hline]
      rfl

/-- A text without a newline is one line, unless it is empty. -/
theorem linesOf_tail (h : NEWLINE ∉ text) : linesOf text = if text = [] then [] else [text] := by
  induction text with
  | nil => rfl
  | cons b text ih =>
      obtain ⟨hb, htext⟩ := not_or.mp (mt List.mem_cons.mpr h)
      rw [linesOf, if_neg (Ne.symm hb), ih htext, if_neg (List.cons_ne_nil _ _)]
      split
      next hnil =>
          split at hnil
          next htext => rw [htext]
          next => cases hnil
      next line lines hcons =>
          split at hcons
          next => cases hcons
          next =>
              cases hcons
              rfl

theorem stripNewline_line (line : List Byte) : stripNewline (line ++ [NEWLINE]) = some line := by
  rw [stripNewline, List.getLast?_concat, if_pos rfl, List.dropLast_concat]

theorem stripNewline_eq_none (h : NEWLINE ∉ text) : stripNewline text = none := by
  rw [stripNewline, if_neg]
  intro hlast
  exact h (List.mem_of_getLast? hlast)

theorem trimNewlines_line (h : NEWLINE ∉ line) : trimNewlines (line ++ [NEWLINE]) = line := by
  rw [trimNewlines, List.reverse_append, List.reverse_singleton, List.singleton_append,
    List.dropWhile_cons_of_pos (by rw [decide_eq_true rfl])]
  cases hline : line.reverse with
  | nil => rw [List.dropWhile_nil, ← hline, List.reverse_reverse]
  | cons b bs =>
      have hb : b ≠ NEWLINE := by
        rintro rfl
        exact h (List.mem_reverse.mp (hline ▸ List.mem_cons_self))
      rw [List.dropWhile_cons_of_neg (by rwa [decide_eq_true_eq]), ← hline, List.reverse_reverse]

/-! ## Fields -/

/-- What is before the first space, and what is behind it if there is one. -/
def splitOnce : List Byte → List Byte × Option (List Byte)
  | [] => ([], none)
  | b :: bs => if b = SPACE then ([], some bs) else (b :: (splitOnce bs).1, (splitOnce bs).2)

theorem splitOnce_field {field : List Byte} (h : SPACE ∉ field) (rest : List Byte) :
    splitOnce (field ++ SPACE :: rest) = (field, some rest) := by
  induction field with
  | nil => rw [List.nil_append, splitOnce, if_pos rfl]
  | cons b field ih =>
      obtain ⟨hb, hfield⟩ := not_or.mp (mt List.mem_cons.mpr h)
      rw [List.cons_append, splitOnce, if_neg (Ne.symm hb), ih hfield]

theorem splitOnce_last {field : List Byte} (h : SPACE ∉ field) : splitOnce field = (field, none) := by
  induction field with
  | nil => rfl
  | cons b field ih =>
      obtain ⟨hb, hfield⟩ := not_or.mp (mt List.mem_cons.mpr h)
      rw [splitOnce, if_neg (Ne.symm hb), ih hfield]

/-! ## Decimal numbers -/

/-- A number in decimal digits. -/
def decimal (n : ℕ) : List Byte := (Nat.toDigits 10 n).map fun c ↦ UInt8.ofNat c.toNat

theorem toNat_digit {c : Char} (h : c.isDigit) : (UInt8.ofNat c.toNat).toNat = c.toNat ∧
    48 ≤ c.toNat ∧ c.toNat ≤ 57 := by
  have hbounds : 48 ≤ c.toNat ∧ c.toNat ≤ 57 := by
    rw [Char.isDigit, Bool.and_eq_true, decide_eq_true_eq, decide_eq_true_eq] at h
    exact h
  refine ⟨?_, hbounds⟩
  rw [UInt8.toNat_ofNat']
  omega

theorem isDigit_decimal (n : ℕ) : (decimal n).all isDigit := by
  rw [decimal, List.all_eq_true]
  intro b hb
  obtain ⟨c, hc, rfl⟩ := List.mem_map.mp hb
  obtain ⟨hsame, hlow, hhigh⟩ := toNat_digit (Nat.isDigit_of_mem_toDigits (by decide) (by decide) hc)
  rw [isDigit, Bool.and_eq_true, decide_eq_true_eq, decide_eq_true_eq, UInt8.le_iff_toNat_le,
    UInt8.le_iff_toNat_le, hsame]
  exact ⟨hlow, hhigh⟩

theorem decimal_ne_nil (n : ℕ) : decimal n ≠ [] := by
  rw [decimal]
  exact mt List.map_eq_nil_iff.mp Nat.toDigits_ne_nil

theorem ofDigits_decimal (n : ℕ) : ofDigits 0 (decimal n) = n := by
  have hfold (digits : List Char) (v : ℕ) (h : ∀ c ∈ digits, c.isDigit) :
      ofDigits v (digits.map fun c ↦ UInt8.ofNat c.toNat) = Nat.ofDigitChars 10 digits v := by
    induction digits generalizing v with
    | nil => rfl
    | cons c digits ih =>
        rw [List.map_cons, ofDigits, List.foldl_cons, (toNat_digit (h c List.mem_cons_self)).1,
          Nat.ofDigitChars_cons]
        rw [Nat.mul_comm]
        exact ih _ fun c' hc ↦ h c' (List.mem_cons_of_mem c hc)
  rw [decimal, hfold _ _ fun c hc ↦ Nat.isDigit_of_mem_toDigits (by decide) (by decide) hc]
  exact Nat.ofDigitChars_toDigits (by decide) (by decide)

/-- A number is read back from its digits. -/
theorem parseUnsigned_decimal {n max : ℕ} (h : n ≤ max) : parseUnsigned max (decimal n) = some n := by
  have hdigits := isDigit_decimal n
  have hsign : (decimal n).head? ≠ some 43 := by
    intro hhead
    have hmem := List.mem_of_mem_head? (Option.mem_def.mpr hhead)
    have hdigit := List.all_eq_true.mp hdigits _ hmem
    cases hdigit
  rw [parseUnsigned, if_neg hsign, if_pos ⟨decimal_ne_nil n, hdigits, (ofDigits_decimal n).trans_le h⟩,
    ofDigits_decimal]

/-! ## Hexadecimal bytes -/

/-- One hexadecimal digit, in lower case. -/
def hexDigit (n : ℕ) : Byte := UInt8.ofNat (if n < 10 then 48 + n else 87 + n)

def hexByte (b : Byte) : List Byte := [hexDigit (b.toNat / 16), hexDigit (b.toNat % 16)]

/-- Bytes in hexadecimal digits. -/
def hex (bs : List Byte) : List Byte := bs.flatMap hexByte

/-- The value of one hexadecimal digit, in lower case. -/
def nibble (digit : Byte) : Option ℕ :=
  if 48 ≤ digit && digit ≤ 57 then some (digit.toNat - 48)
  else if 97 ≤ digit && digit ≤ 102 then some (digit.toNat - 87)
  else none

/-- The bytes behind pairs of hexadecimal digits.  A digit without a pair is not read. -/
def unhex : List Byte → Option (List Byte)
  | high :: low :: rest =>
      match nibble high, nibble low, unhex rest with
      | some high, some low, some bytes => some (UInt8.ofNat (high * 16 + low) :: bytes)
      | _, _, _ => none
  | _ => some []

theorem nibble_hexDigit {n : ℕ} (h : n < 16) : nibble (hexDigit n) = some n := by
  have hall : ∀ n < 16, nibble (hexDigit n) = some n := by decide
  exact hall n h

theorem unhex_hex (bs : List Byte) : unhex (hex bs) = some bs := by
  induction bs with
  | nil => rfl
  | cons b bs ih =>
      have hb := b.toNat_lt
      have hhigh : nibble (hexDigit (b.toNat / 16)) = some (b.toNat / 16) :=
        nibble_hexDigit (by omega)
      have hlow : nibble (hexDigit (b.toNat % 16)) = some (b.toNat % 16) :=
        nibble_hexDigit (by omega)
      have hvalue : b.toNat / 16 * 16 + b.toNat % 16 = b.toNat := by omega
      change unhex (hexDigit (b.toNat / 16) :: hexDigit (b.toNat % 16) :: hex bs) = _
      rw [unhex, hhigh, hlow, ih]
      simp only [hvalue, UInt8.ofNat_toNat]

theorem length_hex (bs : List Byte) : (hex bs).length = 2 * bs.length := by
  induction bs with
  | nil => rfl
  | cons b bs ih =>
      change (hex bs).length + 2 = _
      rw [ih, List.length_cons]
      omega

theorem nibble_of_mem_hex {bs : List Byte} {digit : Byte} (h : digit ∈ hex bs) :
    (nibble digit).isSome := by
  obtain ⟨b, -, hb⟩ := List.mem_flatMap.mp h
  have hlt := b.toNat_lt
  rcases List.mem_pair.mp hb with rfl | rfl
  · rw [nibble_hexDigit (by omega), Option.isSome_some]
  · rw [nibble_hexDigit (by omega), Option.isSome_some]

end EdgeMulticast.Lib
