import Mathlib.Data.List.DropRight
import Mathlib.Tactic.Common

/-!
# Texts of `key=value` parts

A text states its parts one behind the other, with a semicolon between two of them.  `valueOf` is what
the first part with a key states; whitespace around a part and around a value does not count.  Where
two texts are put together the first one is asked first (`valueOf_append`), and parts state nothing for
a key that none of them has (`valueOf_writeParts_eq_none`).
-/

namespace EdgeMulticast.Lib

/-- The characters of the Unicode property `White_Space`. -/
def isWhitespace (c : Char) : Bool :=
  let n := c.toNat
  9 ≤ n && n ≤ 13 || n == 0x20 || n == 0x85 || n == 0xa0 || n == 0x1680 ||
    0x2000 ≤ n && n ≤ 0x200a || n == 0x2028 || n == 0x2029 || n == 0x202f || n == 0x205f ||
    n == 0x3000

/-- A text without the whitespace around it. -/
def trim (s : List Char) : List Char :=
  ((s.dropWhile isWhitespace).reverse.dropWhile isWhitespace).reverse

/-- What is before the first separator and what is behind it, if there is one. -/
def splitFirst (sep : Char) : List Char → Option (List Char × List Char)
  | [] => none
  | c :: cs => if c = sep then some ([], cs) else (splitFirst sep cs).map fun p ↦ (c :: p.1, p.2)

/-- The parts of a text, as keys and values. -/
def keyValues (s : List Char) : List (List Char × List Char) :=
  (s.splitOn ';').filterMap fun part ↦ splitFirst '=' (trim part)

/-- What the first part with this key states. -/
def valueOf (s key : List Char) : Option (List Char) :=
  ((keyValues s).find? fun p ↦ p.1 = key).map fun p ↦ trim p.2

variable {a b key k v : List Char}

theorem keyValues_append (a b : List Char) :
    keyValues (a ++ ';' :: b) = keyValues a ++ keyValues b := by
  rw [keyValues, List.splitOn_append_cons_self, List.filterMap_append]
  rfl

theorem valueOf_append (a b key : List Char) :
    valueOf (a ++ ';' :: b) key = (valueOf a key).or (valueOf b key) := by
  rw [valueOf, keyValues_append, List.find?_append, Option.map_or]
  rfl

theorem splitFirst_append {sep : Char} (h : sep ∉ a) (b : List Char) :
    splitFirst sep (a ++ sep :: b) = some (a, b) := by
  induction a with
  | nil => exact if_pos rfl
  | cons c a ih =>
      obtain ⟨hc, ha⟩ := not_or.mp (mt List.mem_cons.mpr h)
      rw [List.cons_append, splitFirst, if_neg (Ne.symm hc), ih ha]
      rfl

/-- Whitespace in front of a text does not count. -/
theorem trim_cons {c : Char} (h : isWhitespace c = true) (s : List Char) :
    trim (c :: s) = trim s := by
  rw [trim, trim, List.dropWhile_cons_of_pos h]

/-- Trimming stops at characters that are no whitespace, from both sides. -/
theorem trim_append {sep : Char} (hsep : isWhitespace sep = false)
    (hfirst : ∀ c ∈ a.head?, isWhitespace c = false) (b : List Char) :
    trim (a ++ sep :: b) = a ++ sep :: (b.reverse.dropWhile isWhitespace).reverse := by
  have hfront : (a ++ sep :: b).dropWhile isWhitespace = a ++ sep :: b := by
    cases a with
    | nil => exact List.dropWhile_cons_of_neg (Bool.not_eq_true _ ▸ hsep)
    | cons c a => exact List.dropWhile_cons_of_neg (Bool.not_eq_true _ ▸ hfirst c rfl)
  have hback : (sep :: a.reverse).dropWhile isWhitespace = sep :: a.reverse :=
    List.dropWhile_cons_of_neg (Bool.not_eq_true _ ▸ hsep)
  have hreverse : (a ++ sep :: b).reverse = b.reverse ++ sep :: a.reverse := by
    rw [List.reverse_append, List.reverse_cons, List.append_assoc, List.singleton_append]
  rw [trim, hfront, hreverse, List.dropWhile_append]
  split
  next hnil =>
      rw [hback, List.isEmpty_iff.mp hnil, List.reverse_cons, List.reverse_reverse, List.reverse_nil]
  next =>
      rw [List.reverse_append, List.reverse_cons, List.reverse_reverse, List.append_assoc,
        List.singleton_append]

/-- A key that is read as it is written. -/
structure PlainKey (key : List Char) : Prop where
  first : ∀ c ∈ key.head?, isWhitespace c = false
  semicolon : ';' ∉ key
  equals : '=' ∉ key

theorem keyValues_part (hkey : PlainKey key) (hv : ';' ∉ v) :
    keyValues (key ++ '=' :: v) = [(key, (v.reverse.dropWhile isWhitespace).reverse)] := by
  have hsemicolon : ';' ∉ key ++ '=' :: v := by
    rw [List.mem_append, List.mem_cons]
    rintro (h | h | h)
    · exact hkey.semicolon h
    · cases h
    · exact hv h
  rw [keyValues, List.splitOn_eq_singleton hsemicolon, List.filterMap_cons,
    trim_append (by rfl) hkey.first, splitFirst_append hkey.equals]
  rfl

/-- A part states nothing for another key. -/
theorem valueOf_part_of_ne (hkey : PlainKey key) (hv : ';' ∉ v) (hne : key ≠ k) :
    valueOf (key ++ '=' :: v) k = none := by
  rw [valueOf, keyValues_part hkey hv, List.find?_singleton, if_neg (by simpa using hne)]
  rfl

/-- Whitespace in front of a text is no part of a key. -/
theorem valueOf_cons {c : Char} (h : isWhitespace c = true) (s key : List Char) :
    valueOf (c :: s) key = valueOf s key := by
  have hsep : (c == ';') = false := by
    rw [beq_eq_false_iff_ne]
    rintro rfl
    cases h
  obtain ⟨part, parts, hparts⟩ := List.exists_cons_of_ne_nil (List.splitOn_ne_nil ';' s)
  rw [valueOf, valueOf, keyValues, keyValues, List.splitOn_cons_eq_if_modifyHead, hsep,
    if_neg Bool.false_ne_true, hparts, List.modifyHead_cons, List.filterMap_cons, List.filterMap_cons,
    trim_cons h]

/-- Parts that are written one behind the other. -/
def writeParts : List (List Char × List Char) → List Char
  | [] => []
  | [(key, v)] => key ++ '=' :: v
  | (key, v) :: p :: ps => key ++ '=' :: v ++ ';' :: ' ' :: writeParts (p :: ps)

/-- Parts state nothing for a key that none of them has. -/
theorem valueOf_writeParts_eq_none {parts : List (List Char × List Char)}
    (hkeys : ∀ p ∈ parts, PlainKey p.1 ∧ p.1 ≠ k) (hvalues : ∀ p ∈ parts, ';' ∉ p.2) :
    valueOf (writeParts parts) k = none := by
  induction parts with
  | nil => rfl
  | cons p parts ih =>
      obtain ⟨hkey, hne⟩ := hkeys p List.mem_cons_self
      have hp := valueOf_part_of_ne hkey (hvalues p List.mem_cons_self) hne
      cases parts with
      | nil => exact hp
      | cons q parts =>
          have hrest := ih (fun p hp ↦ hkeys p (List.mem_cons_of_mem _ hp))
            fun p hp ↦ hvalues p (List.mem_cons_of_mem _ hp)
          rw [writeParts, valueOf_append, hp, Option.none_or, valueOf_cons rfl]
          exact hrest

/-! ## What is read as it is written -/

/-- A value without a semicolon and without whitespace around it. -/
structure Bare (v : List Char) : Prop where
  semicolon : ';' ∉ v
  first : ∀ c ∈ v.head?, isWhitespace c = false
  last : ∀ c ∈ v.getLast?, isWhitespace c = false

theorem rdropWhile_bare (h : Bare v) : v.rdropWhile isWhitespace = v := by
  refine List.rdropWhile_eq_self_iff.mpr fun hne ↦ ?_
  rw [h.last _ (List.getLast?_eq_some_getLast hne)]
  exact Bool.false_ne_true

theorem trim_eq (s : List Char) :
    trim s = (s.dropWhile isWhitespace).rdropWhile isWhitespace := rfl

theorem trim_bare (h : Bare v) : trim v = v := by
  have hfirst : v.dropWhile isWhitespace = v := by
    cases v with
    | nil => rfl
    | cons c v => exact List.dropWhile_cons_of_neg (Bool.not_eq_true _ ▸ h.first c rfl)
  rw [trim_eq, hfirst, rdropWhile_bare h]

theorem trim_sublist (s : List Char) : List.Sublist (trim s) s :=
  (List.rdropWhile_prefix isWhitespace _).sublist.trans (List.dropWhile_sublist _)

theorem bare_trim {s : List Char} (h : ';' ∉ s) : Bare (trim s) where
  semicolon hmem := h ((trim_sublist s).subset hmem)
  first := by
    intro c hc
    rw [trim_eq] at hc
    obtain ⟨rest, hrest⟩ := List.rdropWhile_prefix isWhitespace (s.dropWhile isWhitespace)
    have hfirst := List.head?_dropWhile_not isWhitespace s
    rw [← hrest, List.head?_append, hc, Option.some_or] at hfirst
    exact hfirst
  last := by
    intro c hc
    obtain ⟨hne, rfl⟩ := List.mem_getLast?_eq_getLast hc
    exact Bool.eq_false_iff.mpr (List.rdropWhile_last_not isWhitespace _ hne)

theorem notMem_of_mem_splitOn {sep : Char} {part s : List Char} (h : part ∈ s.splitOn sep) :
    sep ∉ part := by
  induction s generalizing part with
  | nil =>
      rw [List.splitOn_nil, List.mem_singleton] at h
      rw [h]
      exact List.not_mem_nil
  | cons c s ih =>
      rw [List.splitOn_cons_eq_if_modifyHead] at h
      split at h
      next =>
          rcases List.mem_cons.mp h with rfl | h
          · exact List.not_mem_nil
          · exact ih h
      next hc =>
          obtain ⟨first, parts, hparts⟩ := List.exists_cons_of_ne_nil (List.splitOn_ne_nil sep s)
          rw [hparts] at h ih
          rcases List.mem_cons.mp h with rfl | h
          · rw [List.mem_cons, not_or]
            exact ⟨fun heq ↦ hc (beq_iff_eq.mpr heq.symm), ih List.mem_cons_self⟩
          · exact ih (List.mem_cons_of_mem _ h)

theorem snd_sublist_of_splitFirst {sep : Char} {s : List Char} {p : List Char × List Char}
    (h : splitFirst sep s = some p) : List.Sublist p.2 s := by
  induction s generalizing p with
  | nil => cases h
  | cons c s ih =>
      rw [splitFirst] at h
      split at h
      next =>
          cases h
          exact List.sublist_cons_self c s
      next =>
          obtain ⟨q, hq, rfl⟩ := Option.map_eq_some_iff.mp h
          exact (ih hq).cons c

/-- What is read is bare, whatever is written. -/
theorem bare_of_valueOf {s : List Char} (h : valueOf s key = some v) : Bare v := by
  obtain ⟨p, hp, rfl⟩ := Option.map_eq_some_iff.mp h
  obtain ⟨part, hpart, hsplit⟩ := List.mem_filterMap.mp (List.mem_of_find?_eq_some hp)
  refine bare_trim fun hmem ↦ notMem_of_mem_splitOn hpart ?_
  exact (trim_sublist part).subset ((snd_sublist_of_splitFirst hsplit).subset hmem)

theorem valueOf_part_self (hkey : PlainKey key) (hv : Bare v) :
    valueOf (key ++ '=' :: v) key = some v := by
  rw [valueOf, keyValues_part hkey hv.semicolon, List.find?_singleton, if_pos (decide_eq_true rfl)]
  exact congrArg some ((congrArg trim (rdropWhile_bare hv)).trans (trim_bare hv))

/-- Bare values under keys of their own are read as they are written. -/
theorem valueOf_writeParts {parts : List (List Char × List Char)}
    (hkeys : ∀ p ∈ parts, PlainKey p.1) (hnodup : (parts.map Prod.fst).Nodup)
    (hbare : ∀ p ∈ parts, Bare p.2) : ∀ p ∈ parts, valueOf (writeParts parts) p.1 = some p.2 := by
  induction parts with
  | nil => exact fun p hp ↦ absurd hp List.not_mem_nil
  | cons q parts ih =>
      obtain ⟨hq, hkeys⟩ := List.forall_mem_cons.mp hkeys
      obtain ⟨hbareq, hbare⟩ := List.forall_mem_cons.mp hbare
      obtain ⟨hnotMem, hnodup⟩ := List.nodup_cons.mp hnodup
      have hrest := ih hkeys hnodup hbare
      cases parts with
      | nil => exact List.forall_mem_singleton.mpr (valueOf_part_self hq hbareq)
      | cons r parts =>
          refine List.forall_mem_cons.mpr ⟨?_, fun p hp ↦ ?_⟩
          · rw [writeParts, valueOf_append, valueOf_part_self hq hbareq, Option.some_or]
          · have hne : q.1 ≠ p.1 := fun heq ↦ hnotMem (heq ▸ List.mem_map_of_mem hp)
            rw [writeParts, valueOf_append, valueOf_part_of_ne hq hbareq.semicolon hne,
              Option.none_or, valueOf_cons rfl, hrest p hp]

end EdgeMulticast.Lib
