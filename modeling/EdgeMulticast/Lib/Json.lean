import EdgeMulticast.Lib.Text

/-!
# Values written as JSON

Numbers, strings and arrays in the compact form of JSON, with nothing but printable characters of
ASCII: a character of a string that is another one is written as its code.  Each is read off the front
of a text, and what is behind it is left.
-/

namespace EdgeMulticast.Lib.Json

def QUOTE : Byte := 0x22

def BACKSLASH : Byte := 0x5c

def COMMA : Byte := 0x2c

def OPEN : Byte := 0x5b

def CLOSE : Byte := 0x5d

def SEMICOLON : Byte := 0x3b

def COLON : Byte := 0x3a

def BRACE : Byte := 0x7b

def UNBRACE : Byte := 0x7d

/-- The name of a field in front of its value. -/
def field (name : String) : List Byte := QUOTE :: (ascii name ++ [QUOTE, COLON])

/-- A text of printable characters of ASCII. -/
def Printable (text : List Byte) : Prop := ∀ b ∈ text, 0x20 ≤ b ∧ b < 0x7f

section Printable

variable {a b : List Byte}

theorem Printable.append (ha : Printable a) (hb : Printable b) : Printable (a ++ b) := fun x hx ↦
  (List.mem_append.mp hx).elim (ha x) (hb x)

theorem Printable.isUtf8 (h : Printable a) : isUtf8 a :=
  isUtf8_of_ascii fun x hx ↦ UInt8.lt_trans (h x hx).2 (by decide)

theorem Printable.notMem {x : Byte} (hx : x < 0x20) (h : Printable a) : x ∉ a := fun hmem ↦
  absurd (UInt8.lt_of_le_of_lt (h x hmem).1 hx) (by decide)

theorem printable_decimal (n : ℕ) : Printable (decimal n) := by
  intro x hx
  have hdigit := List.all_eq_true.mp (isDigit_decimal n) x hx
  rw [isDigit, Bool.and_eq_true, decide_eq_true_eq, decide_eq_true_eq] at hdigit
  exact ⟨UInt8.le_trans (by decide) hdigit.1, UInt8.lt_of_le_of_lt hdigit.2 (by decide)⟩

end Printable

/-- What reading a value off the front of a text gives, with the text behind it. -/
abbrev Reader (α : Type) := List Byte → Option (α × List Byte)

/-! ## Fixed texts and numbers -/

def skip (text bs : List Byte) : Option (List Byte) :=
  if text <+: bs then some (bs.drop text.length) else none

@[simp] theorem skip_append (text rest : List Byte) : skip text (text ++ rest) = some rest := by
  rw [skip, if_pos (List.prefix_append text rest), List.drop_left]

@[simp] theorem skip_cons (b : Byte) (text rest : List Byte) :
    skip (b :: text) (b :: (text ++ rest)) = some rest := skip_append (b :: text) rest

def number : Reader ℕ := fun bs ↦
  let digits := bs.takeWhile isDigit
  if digits = [] then none else some (ofDigits 0 digits, bs.dropWhile isDigit)

/-- A number is read up to what is no digit. -/
theorem number_decimal (n : ℕ) {b : Byte} (hb : isDigit b = false) (rest : List Byte) :
    number (decimal n ++ b :: rest) = some (n, b :: rest) := by
  have hdigits := List.all_eq_true.mp (isDigit_decimal n)
  have hb : ¬isDigit b = true := by rw [hb]; exact Bool.false_ne_true
  rw [number, List.takeWhile_append_of_pos hdigits, List.takeWhile_cons_of_neg hb, List.append_nil,
    List.dropWhile_append_of_pos hdigits, List.dropWhile_cons_of_neg hb, ofDigits_decimal]
  exact if_neg (decimal_ne_nil n)

/-! ## Strings -/

/-- Whether a character stands for itself in a string. -/
def isPlain (c : Char) : Bool :=
  0x20 ≤ c.toNat && c.toNat < 0x7f && c.toNat ≠ QUOTE.toNat && c.toNat ≠ BACKSLASH.toNat

def charText (c : Char) : List Byte :=
  if isPlain c then [UInt8.ofNat c.toNat]
  else BACKSLASH :: (decimal c.toNat ++ [SEMICOLON])

def stringText (s : String) : List Byte := QUOTE :: (s.toList.flatMap charText ++ [QUOTE])

/-- Read the characters of a string up to its end, of which there are fewer than the first number. -/
def chars : ℕ → Reader (List Char)
  | 0, _ | _ + 1, [] => none
  | n + 1, b :: bs =>
      if b = QUOTE then some ([], bs)
      else if b = BACKSLASH then do
        let (code, bs) ← number bs
        let bs ← skip [SEMICOLON] bs
        let (cs, bs) ← chars n bs
        some (Char.ofNat code :: cs, bs)
      else do
        let (cs, bs) ← chars n bs
        some (Char.ofNat b.toNat :: cs, bs)

def string : Reader String := fun bs ↦ do
  let bs ← skip [QUOTE] bs
  let (cs, bs) ← chars bs.length bs
  some (String.ofList cs, bs)

theorem toNat_plain {c : Char} (h : isPlain c) : (UInt8.ofNat c.toNat).toNat = c.toNat ∧
    0x20 ≤ c.toNat ∧ c.toNat < 0x7f := by
  simp only [isPlain, Bool.and_eq_true, decide_eq_true_eq] at h
  obtain ⟨⟨⟨hlow, hhigh⟩, -⟩, -⟩ := h
  refine ⟨?_, hlow, hhigh⟩
  rw [UInt8.toNat_ofNat']
  omega

theorem ofNat_plain_ne {c : Char} (h : isPlain c) :
    UInt8.ofNat c.toNat ≠ QUOTE ∧ UInt8.ofNat c.toNat ≠ BACKSLASH := by
  have hsame := (toNat_plain h).1
  simp only [isPlain, Bool.and_eq_true, decide_eq_true_eq] at h
  obtain ⟨⟨-, hquote⟩, hbackslash⟩ := h
  constructor
  · exact fun heq ↦ hquote (hsame.symm.trans (congrArg UInt8.toNat heq))
  · exact fun heq ↦ hbackslash (hsame.symm.trans (congrArg UInt8.toNat heq))

theorem printable_charText (c : Char) : Printable (charText c) := by
  rw [charText]
  split
  next h =>
      obtain ⟨hsame, hlow, hhigh⟩ := toNat_plain h
      intro x hx
      cases List.mem_singleton.mp hx
      rw [UInt8.le_iff_toNat_le, UInt8.lt_iff_toNat_lt, hsame]
      exact ⟨hlow, hhigh⟩
  next =>
      have hends : Printable [BACKSLASH] ∧ Printable [SEMICOLON] := by
        constructor <;>
        · intro x hx
          cases List.mem_singleton.mp hx
          decide
      exact hends.1.append ((printable_decimal c.toNat).append hends.2)

theorem printable_stringText (s : String) : Printable (stringText s) := by
  have hquote : Printable [QUOTE] := by
    intro x hx
    cases List.mem_singleton.mp hx
    decide
  refine hquote.append (Printable.append ?_ hquote)
  intro x hx
  obtain ⟨c, -, hx⟩ := List.mem_flatMap.mp hx
  exact printable_charText c x hx

theorem chars_charText (c : Char) (n : ℕ) (rest : List Byte) :
    chars (n + 1) (charText c ++ rest) = (chars n rest).map fun (cs, bs) ↦ (c :: cs, bs) := by
  rw [charText]
  split
  next h =>
      obtain ⟨hquote, hbackslash⟩ := ofNat_plain_ne h
      rw [List.singleton_append, chars, if_neg hquote, if_neg hbackslash, (toNat_plain h).1,
        Char.ofNat_toNat]
      cases chars n rest <;> rfl
  next =>
      rw [List.cons_append, List.append_assoc, chars, if_neg (by decide), if_pos rfl,
        List.singleton_append, number_decimal c.toNat (by decide)]
      have hskip : skip [SEMICOLON] (SEMICOLON :: rest) = some rest := skip_append [SEMICOLON] rest
      simp only [Option.bind_eq_bind, Option.bind_some, hskip, Char.ofNat_toNat]
      cases chars n rest <;> rfl

theorem chars_flatMap (cs : List Char) {n : ℕ} (hn : cs.length < n) (rest : List Byte) :
    chars n (cs.flatMap charText ++ QUOTE :: rest) = some (cs, rest) := by
  induction cs generalizing n with
  | nil =>
      cases n with
      | zero => exact absurd hn (Nat.not_lt_zero _)
      | succ n => exact if_pos rfl
  | cons c cs ih =>
      cases n with
      | zero => exact absurd hn (Nat.not_lt_zero _)
      | succ n =>
          rw [List.flatMap_cons, List.append_assoc, chars_charText, ih (Nat.lt_of_succ_lt_succ hn)]
          rfl

theorem length_le_flatMap (cs : List Char) : cs.length ≤ (cs.flatMap charText).length := by
  induction cs with
  | nil => exact le_rfl
  | cons c cs ih =>
      have hc : 1 ≤ (charText c).length := by
        rw [charText]
        split <;> simp
      rw [List.flatMap_cons, List.length_append, List.length_cons]
      omega

theorem string_stringText (s : String) (rest : List Byte) :
    string (stringText s ++ rest) = some (s, rest) := by
  have hskip : skip [QUOTE] (stringText s ++ rest) =
      some (s.toList.flatMap charText ++ QUOTE :: rest) := by
    rw [stringText, List.cons_append, List.append_assoc]
    exact skip_append [QUOTE] _
  have hlength : s.toList.length < (s.toList.flatMap charText ++ QUOTE :: rest).length := by
    have hle := length_le_flatMap s.toList
    rw [List.length_append, List.length_cons]
    omega
  rw [string, hskip]
  simp only [Option.bind_eq_bind, Option.bind_some, chars_flatMap s.toList hlength,
    String.ofList_toList]

/-! ## Arrays -/

variable {α : Type}

def itemsText (item : α → List Byte) : List α → List Byte
  | [] => [CLOSE]
  | [a] => item a ++ [CLOSE]
  | a :: as => item a ++ COMMA :: itemsText item as

def arrayText (item : α → List Byte) (as : List α) : List Byte := OPEN :: itemsText item as

/-- Read the items of an array up to its end, of which there are no more than the first number. -/
def items (item : Reader α) : ℕ → Reader (List α)
  | 0, _ => none
  | n + 1, bs => do
      let (a, bs) ← item bs
      match bs with
      | [] => none
      | b :: bs =>
          if b = CLOSE then some ([a], bs)
          else if b = COMMA then do
            let (as, bs) ← items item n bs
            some (a :: as, bs)
          else none

def array (item : Reader α) : Reader (List α) := fun bs ↦ do
  let bs ← skip [OPEN] bs
  if bs.head? = some CLOSE then some ([], bs.tail) else items item bs.length bs

variable {text : α → List Byte} {item : Reader α}

theorem printable_itemsText (h : ∀ a, Printable (text a)) (as : List α) :
    Printable (itemsText text as) := by
  have hone {x : Byte} (hx : 0x20 ≤ x ∧ x < 0x7f) : Printable [x] := by
    intro y hy
    cases List.mem_singleton.mp hy
    exact hx
  induction as with
  | nil => exact hone (by decide)
  | cons a as ih =>
      cases as with
      | nil => exact (h a).append (hone (by decide))
      | cons a' as => exact (h a).append (Printable.append (hone (by decide)) ih)

theorem items_itemsText (hitem : ∀ a b rest, b = CLOSE ∨ b = COMMA →
      item (text a ++ b :: rest) = some (a, b :: rest)) (a : α) (as : List α) {n : ℕ}
    (hn : as.length < n) (rest : List Byte) :
    items item n (itemsText text (a :: as) ++ rest) = some (a :: as, rest) := by
  induction as generalizing a n with
  | nil =>
      obtain ⟨n, rfl⟩ := Nat.exists_eq_add_one_of_ne_zero (Nat.ne_zero_of_lt hn)
      rw [itemsText, List.append_assoc, List.singleton_append, items, hitem a CLOSE rest (.inl rfl)]
      rfl
  | cons a' as ih =>
      obtain ⟨n, rfl⟩ := Nat.exists_eq_add_one_of_ne_zero (Nat.ne_zero_of_lt hn)
      have ih := ih a' (Nat.lt_of_succ_lt_succ hn)
      rw [itemsText, List.append_assoc, List.cons_append, items, hitem a COMMA _ (.inr rfl)]
      simp only [Option.bind_eq_bind, Option.bind_some, if_neg (show COMMA ≠ CLOSE by decide),
        if_true, ih]
      exact List.cons_ne_nil a' as

/-- An array is read back whose items are, each of them up to the end of the array or a comma. -/
theorem array_arrayText (hitem : ∀ a b rest, b = CLOSE ∨ b = COMMA →
      item (text a ++ b :: rest) = some (a, b :: rest)) (hopen : ∀ a, (text a).head? ≠ some CLOSE)
    (hne : ∀ a, text a ≠ []) (as : List α) (rest : List Byte) :
    array item (arrayText text as ++ rest) = some (as, rest) := by
  have hskip : skip [OPEN] (arrayText text as ++ rest) = some (itemsText text as ++ rest) :=
    skip_append [OPEN] _
  rw [array, hskip]
  simp only [Option.bind_eq_bind, Option.bind_some]
  cases as with
  | nil => rfl
  | cons a as =>
      have hhead : (itemsText text (a :: as) ++ rest).head? ≠ some CLOSE := by
        have hfirst : (itemsText text (a :: as)).head? = (text a).head? := by
          cases as with
          | nil => exact List.head?_append_of_ne_nil _ (hne a)
          | cons a' as => exact List.head?_append_of_ne_nil _ (hne a)
        have hitems : itemsText text (a :: as) ≠ [] := by
          cases as with
          | nil => exact List.append_ne_nil_of_left_ne_nil (hne a) _
          | cons a' as => exact List.append_ne_nil_of_left_ne_nil (hne a) _
        rw [List.head?_append_of_ne_nil _ hitems, hfirst]
        exact hopen a
      rw [if_neg hhead]
      refine items_itemsText hitem a as ?_ rest
      have hlength (as : List α) : as.length < (itemsText text as).length := by
        induction as with
        | nil => exact Nat.zero_lt_one
        | cons a as ih =>
            have ha := List.length_pos_of_ne_nil (hne a)
            cases as with
            | nil =>
                rw [itemsText, List.length_append, List.length_singleton, List.length_singleton]
                omega
            | cons a' as =>
                have heq : itemsText text (a :: a' :: as) =
                    text a ++ COMMA :: itemsText text (a' :: as) := rfl
                rw [heq]
                simp only [List.length_append, List.length_cons] at ih ⊢
                omega
      have hall := hlength (a :: as)
      rw [List.length_cons] at hall
      rw [List.length_append]
      omega

end EdgeMulticast.Lib.Json
