import EdgeMulticast.Fix.Reads
import EdgeMulticast.Lib.Delimited

/-!
# The grammar of a framed message

Which bytes `Decoder::take` moves out: `8=…|9=n|`, `n` bytes of a body and `10=ccc|`, the numbers
as `str::parse` reads them (`take_eq_some_iff`), so with a sign before the digits too.  What is
left waiting is short or has said how long it is, unless its version ends late
(`bounded_of_waiting`).
-/

namespace EdgeMulticast.Fix

open EdgeMulticast.Lib

/-- A `Vec` is never longer. -/
def ISIZE_MAX : ℕ := 2 ^ 63 - 1

/-! ## Messages -/

/-- `8=…|9=…|` -/
def header (version length : List Byte) : List Byte :=
  beginPrefix ++ version ++ SOH :: (lengthPrefix ++ length ++ [SOH])

/-- `10=…|` -/
def trailer (sum : List Byte) : List Byte := checksumPrefix ++ sum ++ [SOH]

/-- The parts of a message, its numbers in the grammar of `number`. -/
structure Parts (number : List Byte → ℕ → Prop) (max : ℕ) (version length body sum : List Byte) :
    Prop where
  version_free : SOH ∉ version
  length_spells : number length body.length
  admitted : body.length ≤ max
  sum_length : sum.length = 3
  sum_spells : number sum (checksum (header version length ++ body)).toNat

/-- The message of these parts. -/
def assemble (version length body sum : List Byte) : List Byte :=
  header version length ++ body ++ trailer sum

/-- The buffer starts with a message. -/
def Starts (number : List Byte → ℕ → Prop) (max : ℕ) (buf : List Byte) : Prop :=
  ∃ version length body sum rest, buf = assemble version length body sum ++ rest ∧
    Parts number max version length body sum

/-- It starts with one that spells its length or its checksum with a sign. -/
def Signed (max : ℕ) (buf : List Byte) : Prop :=
  ∃ version length body sum rest, buf = assemble version length body sum ++ rest ∧
    Parts Parses max version length body sum ∧ (length.head? = some 43 ∨ sum.head? = some 43)

variable {version length body sum rest version' length' body' sum' rest' : List Byte}
  {number : List Byte → ℕ → Prop} {max n : ℕ}

theorem Parts.parses (h : Parts Digits max version length body sum) :
    Parts Parses max version length body sum where
  version_free := h.version_free
  length_spells := .inl h.length_spells
  admitted := h.admitted
  sum_length := h.sum_length
  sum_spells := .inl h.sum_spells

theorem SOH_notMem_of_parses {text : List Byte} (h : Parses text n) : SOH ∉ text := by
  intro hmem
  rcases h.of_mem SOH hmem with hdigit | heq
  · exact absurd hdigit (by decide)
  · exact absurd heq (by decide)

theorem length_header (version length : List Byte) :
    (header version length).length = version.length + length.length + 6 := by
  simp only [header, List.length_append, List.length_cons, List.length_nil, beginPrefix,
    lengthPrefix]
  omega

theorem length_trailer (sum : List Byte) : (trailer sum).length = sum.length + 4 := by
  simp only [trailer, List.length_append, List.length_cons, List.length_nil, checksumPrefix]
  omega

theorem length_begins (version : List Byte) :
    (beginPrefix ++ version).length = version.length + 2 := by
  rw [List.length_append]
  exact Nat.add_comm _ _

theorem length_declares (length : List Byte) :
    (lengthPrefix ++ length).length = length.length + 2 := by
  rw [List.length_append]
  exact Nat.add_comm _ _

/-- A header reads in one way. -/
theorem header_inj (hversion : SOH ∉ version) (hversion' : SOH ∉ version') (hlength : SOH ∉ length)
    (hlength' : SOH ∉ length') (h : header version length ++ rest = header version' length' ++ rest') :
    version = version' ∧ length = length' ∧ rest = rest' := by
  simp only [header, List.append_assoc, List.append_cancel_left_eq, List.cons_append,
    List.nil_append] at h
  obtain ⟨rfl, htail⟩ := append_sep_inj hversion hversion' h
  rw [List.append_cancel_left_eq] at htail
  obtain ⟨rfl, hrest⟩ := append_sep_inj hlength hlength' htail
  exact ⟨rfl, rfl, hrest⟩

/-- So does a message at the front of a buffer. -/
theorem assemble_inj (h : Parts Parses max version length body sum)
    (h' : Parts Parses max version' length' body' sum')
    (heq : assemble version length body sum ++ rest = assemble version' length' body' sum' ++ rest') :
    length = length' ∧ sum = sum' := by
  simp only [assemble, List.append_assoc] at heq
  obtain ⟨rfl, rfl, hbodies⟩ := header_inj h.version_free h'.version_free
    (SOH_notMem_of_parses h.length_spells) (SOH_notMem_of_parses h'.length_spells) heq
  obtain ⟨rfl, hsums⟩ := List.append_inj hbodies (h.length_spells.unique h'.length_spells)
  simp only [trailer, List.append_assoc, List.append_cancel_left_eq] at hsums
  exact ⟨rfl, (List.append_inj hsums (h.sum_length.trans h'.sum_length.symm)).1⟩

namespace Decoder

variable {d : Decoder}

/-! ## What is taken -/

/-- A message at the front of the buffer is located there. -/
theorem located_of_parts (h : Parts Parses d.maxBodyBytes version length body sum)
    (hbuf : d.buf = assemble version length body sum ++ rest) (hfits : d.buf.length ≤ ISIZE_MAX) :
    d.Located (assemble version length body sum).length (version.length + 2) (length.length + 2)
      body.length := by
  have hlen : d.buf.length = version.length + length.length + body.length + 13 + rest.length := by
    rw [hbuf, assemble, List.length_append, List.length_append, List.length_append, length_header,
      length_trailer, h.sum_length]
    omega
  have hshape : d.buf = (beginPrefix ++ version) ++ SOH ::
      ((lengthPrefix ++ length) ++ SOH :: (body ++ (trailer sum ++ rest))) := by
    rw [hbuf]
    simp only [assemble, header, List.append_assoc, List.cons_append, List.nil_append]
  have hversion : SOH ∉ beginPrefix ++ version := by
    rw [List.mem_append, not_or]
    exact ⟨by decide, h.version_free⟩
  have hlength : SOH ∉ lengthPrefix ++ length := by
    rw [List.mem_append, not_or]
    exact ⟨by decide, SOH_notMem_of_parses h.length_spells⟩
  have htail : d.buf.drop (version.length + 2 + 1) =
      (lengthPrefix ++ length) ++ SOH :: (body ++ (trailer sum ++ rest)) := by
    rw [hshape, ← length_begins, drop_sep]
  have hspan : d.buf.drop (version.length + 2 + 1 + (length.length + 2) + 1) =
      body ++ (trailer sum ++ rest) := by
    rw [show version.length + 2 + 1 + (length.length + 2) + 1 =
      version.length + 2 + 1 + ((length.length + 2) + 1) by omega, ← List.drop_drop, htail,
      ← length_declares, drop_sep]
  have hchecksum : d.buf.drop (version.length + 2 + 1 + (length.length + 2) + 1 + body.length) =
      trailer sum ++ rest := by
    rw [← List.drop_drop, hspan, List.drop_left]
  have htotal : (assemble version length body sum).length =
      version.length + 2 + 1 + (length.length + 2) + 1 + body.length + CHECKSUM_FIELD_LEN := by
    rw [assemble, List.length_append, List.length_append, length_header, length_trailer,
      h.sum_length, CHECKSUM_FIELD_LEN]
    omega
  constructor
  case begins =>
    rw [hshape, List.append_assoc]
    exact List.prefix_append _ _
  case first =>
    rw [hshape, findIdx?_sep hversion, length_begins]
  case length =>
    rw [htail, List.append_assoc]
    exact List.prefix_append _ _
  case second =>
    rw [htail, findIdx?_sep hlength, length_declares]
  case declares =>
    have hdigits : ((lengthPrefix ++ length) ++ SOH :: (body ++ (trailer sum ++ rest))).take
        (length.length + 2) = lengthPrefix ++ length :=
      List.take_left' (length_declares length)
    rw [htail, hdigits, List.drop_left]
    refine parseUnsigned_eq_some_iff.mpr ⟨h.length_spells, ?_⟩
    rw [ISIZE_MAX] at hfits
    rw [USIZE_MAX]
    omega
  case admitted =>
    refine le_min h.admitted ?_
    rw [ISIZE_MAX] at hfits
    rw [USIZE_MAX, CHECKSUM_FIELD_LEN]
    omega
  case total => exact htotal
  case whole =>
    rw [htotal, CHECKSUM_FIELD_LEN]
    omega
  case checksum =>
    rw [hchecksum, trailer, List.append_assoc, List.append_assoc]
    exact List.prefix_append _ _
  case ends =>
    have hlast : (assemble version length body sum).length - 1 =
        (header version length ++ body ++ (checksumPrefix ++ sum)).length := by
      rw [htotal]
      simp only [List.length_append, length_header, h.sum_length, checksumPrefix,
        List.length_cons, List.length_nil, CHECKSUM_FIELD_LEN]
      omega
    have hmessage : d.buf = (header version length ++ body ++ (checksumPrefix ++ sum)) ++
        SOH :: rest := by
      rw [hbuf, assemble, trailer]
      simp only [List.append_assoc, List.cons_append, List.nil_append]
    rw [hlast, hmessage, List.getElem?_append_right le_rfl, Nat.sub_self]
    rfl

/-- The checksum of an assembled message is looked for where it is. -/
theorem checked_assemble (version length body : List Byte) (hsum : sum.length = 3) :
    checked (assemble version length body sum) =
      match parseUnsigned 255 sum with
      | none => .error (.malformed (.notThreeDigits sum))
      | some n =>
          if n ≠ (checksum (header version length ++ body)).toNat then
            .error (.checksumMismatch n (checksum (header version length ++ body)).toNat)
          else .ok () := by
  have hlen : (assemble version length body sum).length =
      (header version length ++ body).length + 7 := by
    rw [assemble, List.length_append, length_trailer, hsum]
  have hspan : (assemble version length body sum).take
      ((assemble version length body sum).length - CHECKSUM_FIELD_LEN) =
      header version length ++ body := by
    rw [hlen, CHECKSUM_FIELD_LEN, Nat.add_sub_cancel, assemble]
    exact List.take_left
  have hstated : ((assemble version length body sum).take
      ((assemble version length body sum).length - 1)).drop
        ((assemble version length body sum).length - 4) = sum := by
    have hshape : assemble version length body sum =
        (header version length ++ body ++ checksumPrefix) ++ sum ++ [SOH] := by
      simp only [assemble, trailer, List.append_assoc]
    have hthree : checksumPrefix.length = 3 := rfl
    rw [hlen, hshape, List.take_left' (by simp only [List.length_append, hsum]; omega)]
    exact List.drop_left' (by simp only [List.length_append]; omega)
  rewrite [checked, hstated, hspan]
  rfl

theorem checked_eq_ok_iff (version length body : List Byte) (hsum : sum.length = 3) :
    checked (assemble version length body sum) = .ok () ↔
      Parses sum (checksum (header version length ++ body)).toNat := by
  rw [checked_assemble version length body hsum]
  constructor
  · intro h
    split at h
    · cases h
    next n hn =>
        split at h
        next => cases h
        next heq => exact not_not.mp heq ▸ (parseUnsigned_eq_some_iff.mp hn).1
  · intro h
    rw [parseUnsigned_eq_some_iff.mpr ⟨h, Nat.le_of_lt_succ (UInt8.toNat_lt _)⟩]
    exact if_neg (not_not.mpr rfl)

/-- What is located, and checked, is a message of the grammar. -/
theorem parts_of_located {i j declared : ℕ} (h : d.Located n i j declared)
    (hchecked : checked (d.buf.take n) = .ok ()) :
    ∃ version length body sum rest, d.buf = assemble version length body sum ++ rest ∧
      Parts Parses d.maxBodyBytes version length body sum ∧
      (assemble version length body sum).length = n := by
  obtain ⟨begins, tail, hbuf, hbegins, rfl⟩ := exists_of_findIdx? h.first
  have hdrop : d.buf.drop (begins.length + 1) = tail := by rw [hbuf, drop_sep]
  obtain ⟨version, rfl⟩ := prefix_of_prefix_append_sep (by decide) (hbuf ▸ h.begins)
  have hlengthPrefix := h.length
  have hsecond := h.second
  have hdeclares := h.declares
  rw [hdrop] at hlengthPrefix hsecond hdeclares
  obtain ⟨declares, span, htail, hfree, rfl⟩ := exists_of_findIdx? hsecond
  obtain ⟨length, rfl⟩ := prefix_of_prefix_append_sep (by decide) (htail ▸ hlengthPrefix)
  rw [htail, List.take_left, List.drop_left] at hdeclares
  obtain ⟨hparses, -⟩ := parseUnsigned_eq_some_iff.mp hdeclares
  -- The span behind the header holds the body, and the field that follows it.
  have hspan : d.buf.drop ((beginPrefix ++ version).length + 1 + (lengthPrefix ++ length).length + 1) =
      span := by
    rw [Nat.add_assoc, ← List.drop_drop, hdrop, htail, drop_sep]
  have hlen : d.buf.length =
      (beginPrefix ++ version).length + 1 + (lengthPrefix ++ length).length + 1 + span.length := by
    rw [hbuf, htail]
    simp only [List.length_append, List.length_cons]
    omega
  have htotal := h.total
  have hwhole := h.whole
  rw [CHECKSUM_FIELD_LEN] at htotal
  have hfield := h.checksum
  rw [← List.drop_drop, hspan] at hfield
  obtain ⟨digits, hdigits⟩ := hfield
  have hspanLen : span.length = declared + (3 + digits.length) := by
    have hsplit := congrArg List.length (List.take_append_drop declared span)
    rw [← hdigits, List.length_append, List.length_append, List.length_take] at hsplit
    have hthree : checksumPrefix.length = 3 := rfl
    have hends := congrArg List.length hdigits
    rw [List.length_append, List.length_drop] at hends
    omega
  have hbody : span = span.take declared ++ (checksumPrefix ++ digits) := by
    rw [hdigits, List.take_append_drop]
  have hbodyLen : (span.take declared).length = declared := List.length_take_of_le (by omega)
  -- Its fourth byte is the separator that ends the message.
  have hsep : digits[3]? = some SOH := by
    have hends := h.ends
    have hindex : n - 1 = (beginPrefix ++ version).length + 1 +
        (lengthPrefix ++ length).length + 1 + (declared + (3 + 3)) := by omega
    rw [hindex, ← List.getElem?_drop, hspan, hbody, ← List.getElem?_drop,
      List.drop_left' hbodyLen] at hends
    exact hends
  obtain ⟨hlt, hsep⟩ := List.getElem?_eq_some_iff.mp hsep
  have hsum : digits = digits.take 3 ++ SOH :: digits.drop 4 := by
    rw [← hsep, List.getElem_cons_drop, List.take_append_drop]
  have hsumLen : (digits.take 3).length = 3 := List.length_take_of_le (by omega)
  have hshape : d.buf = assemble version length (span.take declared) (digits.take 3) ++
      digits.drop 4 := by
    rw [hbuf, htail]
    conv_lhs => rw [hbody, hsum]
    simp only [assemble, header, trailer, List.append_assoc, List.cons_append, List.nil_append]
  have hn : (assemble version length (span.take declared) (digits.take 3)).length = n := by
    rw [assemble, List.length_append, List.length_append, length_header, length_trailer, hbodyLen,
      hsumLen, htotal, length_begins, length_declares]
    omega
  refine ⟨version, length, span.take declared, digits.take 3, digits.drop 4, hshape, ?_, hn⟩
  rw [hshape, ← hn, List.take_left] at hchecked
  exact {
    version_free := fun hmem ↦ hbegins (List.mem_append_right _ hmem)
    length_spells := hbodyLen.symm ▸ hparses
    admitted := hbodyLen.le.trans (h.admitted.trans (min_le_left _ _))
    sum_length := hsumLen
    sum_spells := (checked_eq_ok_iff version length _ hsumLen).mp hchecked }

/-- A message at the front of the buffer is moved out. -/
theorem take_of_parts (h : Parts Parses d.maxBodyBytes version length body sum)
    (hbuf : d.buf = assemble version length body sum ++ rest) (hfits : d.buf.length ≤ ISIZE_MAX) :
    d.take = .ok (some (assemble version length body sum, { d with buf := rest })) := by
  rw [take, completeLen_eq_some_iff.mpr ⟨_, _, _, located_of_parts h hbuf hfits⟩]
  have hfront : d.buf.take (assemble version length body sum).length =
      assemble version length body sum := by rw [hbuf, List.take_left]
  have hbehind : d.buf.drop (assemble version length body sum).length = rest := by
    rw [hbuf, List.drop_left]
  dsimp only
  rw [hfront, hbehind, (checked_eq_ok_iff version length body h.sum_length).mpr h.sum_spells]

/-- **What is taken** is a message of the grammar whose numbers `str::parse` reads. -/
theorem take_eq_some_iff (hfits : d.buf.length ≤ ISIZE_MAX) :
    (∃ taken, d.take = .ok (some taken)) ↔ Starts Parses d.maxBodyBytes d.buf := by
  constructor
  · rintro ⟨taken, htake⟩
    rw [take] at htake
    split at htake
    · cases htake
    · cases htake
    next total htotal =>
        split at htake
        · cases htake
        next hchecked =>
            obtain ⟨i, j, declared, hlocated⟩ := completeLen_eq_some_iff.mp htotal
            obtain ⟨version, length, body, sum, rest, hbuf, hparts, -⟩ :=
              parts_of_located hlocated hchecked
            exact ⟨version, length, body, sum, rest, hbuf, hparts⟩
  · rintro ⟨version, length, body, sum, rest, hbuf, hparts⟩
    exact ⟨_, take_of_parts hparts hbuf hfits⟩

/-! ## What is left waiting -/

theorem take_eq_none_iff : d.take = .ok none ↔ d.completeLen = .ok none := by
  rw [take]
  cases d.completeLen with
  | error e => exact iff_of_false (fun h ↦ by cases h) fun h ↦ by cases h
  | ok found =>
      cases found with
      | none => exact iff_of_true rfl rfl
      | some total =>
          refine iff_of_false (fun h ↦ ?_) fun h ↦ by cases h
          dsimp only at h
          split at h <;> cases h

/-- What is waiting is short, or is the part of a message that has said how long it is. -/
def Bounded (buf : List Byte) : Prop :=
  buf.length ≤ MAX_HEADER_BYTES ∨
    ∃ version length rest n, buf = header version length ++ rest ∧ SOH ∉ version ∧
      Parses length n ∧ buf.length ≤ (header version length).length + n + CHECKSUM_FIELD_LEN

/-- A version past the ceiling on a header, ended by its separator, and no length behind it. -/
def LateVersion (buf : List Byte) : Prop :=
  MAX_HEADER_BYTES < buf.length ∧
    ∃ version tail, buf = beginPrefix ++ version ++ SOH :: tail ∧ SOH ∉ version ∧
      (tail = [] ∨ tail = [0x39])

theorem awaiting_eq_none (h : d.awaitingASeparator = .ok none) : d.buf.length ≤ MAX_HEADER_BYTES := by
  rw [awaitingASeparator] at h
  split at h
  · cases h
  next hle => exact Nat.le_of_not_lt hle

/-- A part of the prefix of a length. -/
theorem part_of_lengthPrefix {tail : List Byte} (hlt : tail.length < lengthPrefix.length)
    (hpart : tail <+: lengthPrefix) : tail = [] ∨ tail = [0x39] := by
  cases tail with
  | nil => exact .inl rfl
  | cons b tail =>
      have hnil : tail = [] := List.eq_nil_of_length_eq_zero
        (Nat.lt_one_iff.mp (Nat.lt_of_succ_lt_succ hlt))
      obtain ⟨rfl, -⟩ := List.cons_prefix_cons.mp hpart
      exact .inr (by rw [hnil])

theorem bounded_of_waiting (h : d.completeLen = .ok none) : Bounded d.buf ∨ LateVersion d.buf := by
  rw [completeLen] at h
  split at h
  next hnil =>
      rw [hnil]
      exact .inl (.inl (Nat.zero_le _))
  next =>
  split at h
  next =>
      split at h
      next hshort => exact .inl (.inl (hshort.1.le.trans (by decide)))
      next => cases h
  next hbegins =>
  split at h
  next => exact .inl (.inl (awaiting_eq_none h))
  next firstEnd hfirst =>
  obtain ⟨begins, tail, hbuf, hfree, rfl⟩ := exists_of_findIdx? hfirst
  have hdrop : d.buf.drop (begins.length + 1) = tail := by rw [hbuf, drop_sep]
  obtain ⟨version, rfl⟩ := prefix_of_prefix_append_sep (by decide) (hbuf ▸ not_not.mp hbegins)
  have hversion : SOH ∉ version := fun hmem ↦ hfree (List.mem_append_right _ hmem)
  dsimp only at h
  rw [hdrop] at h
  split at h
  next =>
      split at h
      next hpart =>
          rcases Nat.lt_or_ge MAX_HEADER_BYTES d.buf.length with hlong | hshort
          · exact .inr ⟨hlong, version, tail, hbuf, hversion,
              part_of_lengthPrefix hpart.1 hpart.2⟩
          · exact .inl (.inl hshort)
      next => cases h
  next hlengthPrefix =>
  split at h
  next => exact .inl (.inl (awaiting_eq_none h))
  next secondEnd hsecond =>
  obtain ⟨declares, span, htail, hfree', rfl⟩ := exists_of_findIdx? hsecond
  obtain ⟨length, rfl⟩ := prefix_of_prefix_append_sep (by decide)
    (htail ▸ not_not.mp hlengthPrefix)
  split at h
  next => cases h
  next declared hdeclares =>
  rw [htail, List.take_left, List.drop_left] at hdeclares
  rw [measuredLen] at h
  split at h
  next => cases h
  next =>
  dsimp only at h
  split at h
  next hshort =>
      refine .inl (.inr ⟨version, length, span, declared, ?_, hversion,
        (parseUnsigned_eq_some_iff.mp hdeclares).1, ?_⟩)
      · rw [hbuf, htail]
        simp only [header, List.append_assoc, List.cons_append, List.nil_append]
      · rw [length_begins, length_declares] at hshort
        rw [length_header]
        omega
  next => split at h <;> cases h

end Decoder

end EdgeMulticast.Fix
