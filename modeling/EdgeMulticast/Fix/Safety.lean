import EdgeMulticast.Fix.Grammar

/-!
# Which messages a decoder takes

`Decoder::take` with every slice and sum it makes.  None of them is out of range, whatever the
buffer holds and however large the ceiling is (`Decoder.takeAccess_eq`), so what it answers is
what `Decoder.take` does.

`grammatical_iff` is when the messages it takes are those whose numbers are digits, and what is
left waiting is bounded.
-/

namespace EdgeMulticast.Fix

open EdgeMulticast.Lib

namespace Decoder

/-- `measuredLen`, with its slices and sums. -/
def measuredLenAccess (d : Decoder) (measuredAt declared : ℕ) :
    Option (Except FramingError (Option ℕ)) :=
  if d.ceiling measuredAt < declared then
    some (.error (.tooLarge declared (d.ceiling measuredAt)))
  else
    (upper USIZE_MAX measuredAt declared).bind fun fieldAt ↦
    (upper USIZE_MAX fieldAt CHECKSUM_FIELD_LEN).bind fun total ↦
    if d.buf.length < total then some (.ok none)
    else
      (accessRange d.buf fieldAt d.buf.length).bind fun field ↦
      if ¬checksumPrefix <+: field then some (.error (.lengthMismatch declared))
      else
        (lower total 1).bind fun last ↦
        (access d.buf last).bind fun ends ↦
        if ends ≠ SOH then some (.error (.lengthMismatch declared)) else some (.ok (some total))

/-- `completeLen`, with its slices and sums. -/
def completeLenAccess (d : Decoder) : Option (Except FramingError (Option ℕ)) :=
  if d.buf = [] then some (.ok none)
  else if ¬beginPrefix <+: d.buf then
    if d.buf.length < beginPrefix.length ∧ d.buf <+: beginPrefix then some (.ok none)
    else some (.error .notAMessage)
  else match d.buf.findIdx? (· = SOH) with
    | none => some d.awaitingASeparator
    | some firstEnd =>
        (upper USIZE_MAX firstEnd 1).bind fun afterBegin ↦
        (accessRange d.buf afterBegin d.buf.length).bind fun tail ↦
        if ¬lengthPrefix <+: tail then
          if tail.length < lengthPrefix.length ∧ tail <+: lengthPrefix then some (.ok none)
          else
            (accessRange d.buf 0 (min d.buf.length 32)).bind fun shown ↦
            some (.error (.malformed (.lengthMissing shown)))
        else match tail.findIdx? (· = SOH) with
          | none => some d.awaitingASeparator
          | some secondEnd =>
              (accessRange tail lengthPrefix.length secondEnd).bind fun digits ↦
              match parseUnsigned USIZE_MAX digits with
              | none => some (.error (.malformed (.lengthNotANumber digits)))
              | some declared =>
                  (upper USIZE_MAX afterBegin secondEnd).bind fun header ↦
                  (upper USIZE_MAX header 1).bind fun measuredAt ↦
                  d.measuredLenAccess measuredAt declared

/-- `Decoder::take`: its answer, the decoder after it and what is in `out`, or a panic. -/
def takeAccess (d : Decoder) (out : List Byte) :
    Option (Except FramingError Bool × Decoder × List Byte) :=
  d.completeLenAccess.bind fun
    | .error e => some (.error e, d, out)
    | .ok none => some (.ok false, d, out)
    | .ok (some total) =>
        (lower total 4).bind fun statedAt ↦
        (lower total 1).bind fun last ↦
        (accessRange d.buf statedAt last).bind fun stated ↦
        (lower total CHECKSUM_FIELD_LEN).bind fun fieldAt ↦
        (accessRange d.buf 0 fieldAt).bind fun span ↦
        match parseUnsigned 255 stated with
        | none => some (.error (.malformed (.notThreeDigits stated)), d, out)
        | some n =>
            if n ≠ (checksum span).toNat then
              some (.error (.checksumMismatch n (checksum span).toNat), d, out)
            else
              (accessRange d.buf 0 total).bind fun message ↦
              (accessRange d.buf total d.buf.length).bind fun rest ↦
              some (.ok true, { d with buf := rest }, message)

/-- What `take` answers, moves and leaves. -/
def answer (d : Decoder) (out : List Byte) : Except FramingError Bool × Decoder × List Byte :=
  match d.take with
  | .error e => (.error e, d, out)
  | .ok none => (.ok false, d, out)
  | .ok (some (message, rest)) => (.ok true, rest, message)

variable {d : Decoder} {out : List Byte} {n : ℕ}

/-! ## Every access is in range -/

/-- A ceiling leaves room for the whole message. -/
theorem total_le_of_ceiling {measuredAt declared : ℕ} (h : declared ≤ d.ceiling measuredAt)
    (hroom : measuredAt + CHECKSUM_FIELD_LEN ≤ USIZE_MAX) :
    measuredAt + declared + CHECKSUM_FIELD_LEN ≤ USIZE_MAX := by
  have hle : declared ≤ USIZE_MAX - measuredAt - CHECKSUM_FIELD_LEN := h.trans (min_le_right ..)
  omega

theorem measuredLenAccess_eq {measuredAt : ℕ} (declared : ℕ)
    (hroom : measuredAt + CHECKSUM_FIELD_LEN ≤ USIZE_MAX) :
    d.measuredLenAccess measuredAt declared = some (d.measuredLen measuredAt declared) := by
  rw [measuredLenAccess, measuredLen]
  split
  next => rfl
  next hceiling =>
  have htotal := total_le_of_ceiling (Nat.le_of_not_lt hceiling) hroom
  have hseven : CHECKSUM_FIELD_LEN = 7 := rfl
  rw [upper_eq (show measuredAt + declared ≤ USIZE_MAX by omega), Option.bind_some,
    upper_eq htotal, Option.bind_some]
  dsimp only
  split
  next => rfl
  next hwhole =>
  have hle := Nat.le_of_not_lt hwhole
  have hlast : measuredAt + declared + CHECKSUM_FIELD_LEN - 1 < d.buf.length := by omega
  rw [accessRange_drop (by omega), Option.bind_some]
  by_cases hfield : checksumPrefix <+: d.buf.drop (measuredAt + declared)
  · rw [if_neg (not_not.mpr hfield), lower_eq (by omega), Option.bind_some, access,
      List.getElem?_eq_getElem hlast, Option.bind_some]
    by_cases hends : d.buf[measuredAt + declared + CHECKSUM_FIELD_LEN - 1] = SOH
    · rw [if_neg (not_not.mpr hends), if_neg]
      rw [not_or, not_not, not_not, hends]
      exact ⟨hfield, rfl⟩
    · rw [if_pos hends, if_pos]
      exact .inr fun h ↦ hends (Option.some.inj h)
  · rw [if_pos hfield, if_pos (.inl hfield)]

theorem completeLenAccess_eq (hfits : d.buf.length ≤ ISIZE_MAX) :
    d.completeLenAccess = some d.completeLen := by
  have hmax : ISIZE_MAX + 8 ≤ USIZE_MAX := by decide
  rw [completeLenAccess, completeLen]
  split
  next => rfl
  next =>
  split
  next => split <;> rfl
  next =>
  cases hfirst : d.buf.findIdx? (· = SOH) with
  | none => rfl
  | some firstEnd =>
  have hlt : firstEnd + 1 ≤ d.buf.length := lt_length_of_findIdx? hfirst
  dsimp only
  rw [upper_eq (by omega), Option.bind_some, accessRange_drop hlt, Option.bind_some]
  split
  next =>
      split
      next => rfl
      next =>
          have hshown : d.buf.take (min d.buf.length 32) = d.buf.take 32 := by
            rw [List.take_eq_take_iff]
            omega
          rw [accessRange_take (min_le_left _ _), Option.bind_some, hshown]
  next hlength =>
  cases hsecond : (d.buf.drop (firstEnd + 1)).findIdx? (· = SOH) with
  | none => rfl
  | some secondEnd =>
  have hlt' := lt_length_of_findIdx? hsecond
  have htwo : lengthPrefix.length ≤ secondEnd := by
    obtain ⟨xs, ys, htail, -, rfl⟩ := exists_of_findIdx? hsecond
    exact (prefix_of_prefix_append_sep (by decide) (htail ▸ not_not.mp hlength)).length_le
  have hdigits : slice (d.buf.drop (firstEnd + 1)) lengthPrefix.length
      (secondEnd - lengthPrefix.length) =
      ((d.buf.drop (firstEnd + 1)).take secondEnd).drop lengthPrefix.length := by
    rw [slice, List.drop_take]
  dsimp only
  rw [accessRange_eq htwo hlt'.le, Option.bind_some, hdigits]
  cases parseUnsigned USIZE_MAX (((d.buf.drop (firstEnd + 1)).take secondEnd).drop
    lengthPrefix.length) with
  | none => rfl
  | some declared =>
      rw [List.length_drop] at hlt'
      dsimp only
      rw [upper_eq (by omega), Option.bind_some, upper_eq (by omega), Option.bind_some]
      exact measuredLenAccess_eq declared (by rw [CHECKSUM_FIELD_LEN]; omega)

/-- Nothing panics, and the answer is that of `take`. -/
theorem takeAccess_eq (hfits : d.buf.length ≤ ISIZE_MAX) (out : List Byte) :
    d.takeAccess out = some (d.answer out) := by
  rw [takeAccess, completeLenAccess_eq hfits, Option.bind_some, answer, take]
  cases hlen : d.completeLen with
  | error e => rfl
  | ok found =>
      cases found with
      | none => rfl
      | some total =>
          obtain ⟨i, j, declared, hlocated⟩ := completeLen_eq_some_iff.mp hlen
          have hwhole := hlocated.whole
          have hseven : CHECKSUM_FIELD_LEN ≤ total := hlocated.total ▸ Nat.le_add_left _ _
          have hlength : (d.buf.take total).length = total := List.length_take_of_le hwhole
          have hstated : slice d.buf (total - 4) (total - 1 - (total - 4)) =
              ((d.buf.take total).take (total - 1)).drop (total - 4) := by
            rw [slice, List.take_take, min_eq_left (Nat.sub_le ..), List.drop_take]
          have hspan : (d.buf.take total).take (total - CHECKSUM_FIELD_LEN) =
              d.buf.take (total - CHECKSUM_FIELD_LEN) := by
            rw [List.take_take, min_eq_left (Nat.sub_le ..)]
          rw [CHECKSUM_FIELD_LEN] at hseven
          dsimp only
          rw [lower_eq (by omega), Option.bind_some, lower_eq (by omega), Option.bind_some,
            accessRange_eq (by omega) (by omega), Option.bind_some,
            lower_eq (show CHECKSUM_FIELD_LEN ≤ total from hseven), Option.bind_some,
            accessRange_take (by omega), Option.bind_some, hstated, checked, hlength, hspan]
          cases parseUnsigned 255 (((d.buf.take total).take (total - 1)).drop (total - 4)) with
          | none => rfl
          | some n =>
              dsimp only
              split
              next => rfl
              next =>
                  rw [accessRange_take hwhole, Option.bind_some, accessRange_drop hwhole]
                  rfl

/-! ## The messages of the grammar -/

/-- What the decoder is for: it takes the messages whose numbers are digits, leaves everything
else as it is, and what it leaves waiting is bounded. -/
structure Grammatical (d : Decoder) : Prop where
  answers : ∀ out, ∃ answered, d.takeAccess out = some answered
  accepts : ∀ out, (∃ rest message, d.takeAccess out = some (.ok true, rest, message)) ↔
    Starts Digits d.maxBodyBytes d.buf
  keeps : ∀ out result rest message, d.takeAccess out = some (result, rest, message) →
    result ≠ .ok true → rest = d ∧ message = out
  waits : ∀ out rest message, d.takeAccess out = some (.ok false, rest, message) →
    Bounded rest.buf

theorem answer_accepts (out : List Byte) :
    (∃ rest message, d.answer out = (.ok true, rest, message)) ↔
      ∃ taken, d.take = .ok (some taken) := by
  rw [answer]
  cases d.take with
  | error e => exact iff_of_false (by rintro ⟨_, _, h⟩; cases h) (by rintro ⟨_, h⟩; cases h)
  | ok found =>
      cases found with
      | none => exact iff_of_false (by rintro ⟨_, _, h⟩; cases h) (by rintro ⟨_, h⟩; cases h)
      | some taken => exact iff_of_true ⟨_, _, rfl⟩ ⟨_, rfl⟩

theorem answer_keeps {result : Except FramingError Bool} {rest : Decoder} {message : List Byte}
    (h : d.answer out = (result, rest, message)) (hne : result ≠ .ok true) :
    rest = d ∧ message = out := by
  rw [answer] at h
  split at h
  · cases h
    exact ⟨rfl, rfl⟩
  · cases h
    exact ⟨rfl, rfl⟩
  · cases h
    exact absurd rfl hne

theorem answer_waits (out : List Byte) :
    (∃ rest message, d.answer out = (.ok false, rest, message)) ↔ d.take = .ok none := by
  rw [answer]
  cases d.take with
  | error e => exact iff_of_false (by rintro ⟨_, _, h⟩; cases h) (by rintro ⟨⟩)
  | ok found =>
      cases found with
      | none => exact iff_of_true ⟨_, _, rfl⟩ rfl
      | some taken => exact iff_of_false (by rintro ⟨_, _, h⟩; cases h) (by rintro ⟨⟩)

/-- What `str::parse` takes for a message has digits only, or a sign. -/
theorem starts_parses_iff {max : ℕ} {buf : List Byte} :
    Starts Parses max buf ↔ Starts Digits max buf ∨ Signed max buf := by
  constructor
  · rintro ⟨version, length, body, sum, rest, hbuf, h⟩
    by_cases hsign : length.head? = some 43 ∨ sum.head? = some 43
    · exact .inr ⟨version, length, body, sum, rest, hbuf, h, hsign⟩
    · rw [not_or] at hsign
      exact .inl ⟨version, length, body, sum, rest, hbuf, {
        version_free := h.version_free
        length_spells := h.length_spells.digits_of_head? hsign.1
        admitted := h.admitted
        sum_length := h.sum_length
        sum_spells := h.sum_spells.digits_of_head? hsign.2 }⟩
  · rintro (⟨version, length, body, sum, rest, hbuf, h⟩ | ⟨version, length, body, sum, rest, hbuf, h, -⟩)
    · exact ⟨version, length, body, sum, rest, hbuf, h.parses⟩
    · exact ⟨version, length, body, sum, rest, hbuf, h⟩

/-- A message with a sign reads in no other way. -/
theorem not_starts_of_signed {max : ℕ} {buf : List Byte} (h : Signed max buf) :
    ¬Starts Digits max buf := by
  obtain ⟨version, length, body, sum, rest, hbuf, hparts, hsign⟩ := h
  rintro ⟨version', length', body', sum', rest', hbuf', hparts'⟩
  obtain ⟨rfl, rfl⟩ := assemble_inj hparts hparts'.parses (hbuf ▸ hbuf')
  rcases hsign with hsign | hsign
  · exact hparts'.length_spells.head?_ne hsign
  · exact hparts'.sum_spells.head?_ne hsign

/-- A late version is waited on, and nothing bounds how long it is. -/
theorem waiting_of_lateVersion (h : LateVersion d.buf) : d.take = .ok none := by
  obtain ⟨-, version, tail, hbuf, hfree, htail⟩ := h
  have hbegins : SOH ∉ beginPrefix ++ version := by
    rw [List.mem_append, not_or]
    exact ⟨by decide, hfree⟩
  have hne : d.buf ≠ [] := by
    rw [hbuf]
    exact List.append_ne_nil_of_right_ne_nil _ (List.cons_ne_nil _ _)
  have hprefix : beginPrefix <+: d.buf := by
    rw [hbuf, List.append_assoc]
    exact List.prefix_append _ _
  have hfirst : d.buf.findIdx? (· = SOH) = some (beginPrefix ++ version).length := by
    rw [hbuf, findIdx?_sep hbegins]
  have hdrop : d.buf.drop ((beginPrefix ++ version).length + 1) = tail := by rw [hbuf, drop_sep]
  have hpart : ¬lengthPrefix <+: tail ∧ tail.length < lengthPrefix.length ∧
      tail <+: lengthPrefix := by
    rcases htail with rfl | rfl <;> decide
  rw [take_eq_none_iff, completeLen, if_neg hne, if_neg (not_not.mpr hprefix), hfirst]
  dsimp only
  rw [hdrop, if_pos hpart.1, if_pos hpart.2]

theorem not_bounded_of_lateVersion {buf : List Byte} (h : LateVersion buf) : ¬Bounded buf := by
  obtain ⟨hlong, version, tail, hbuf, hfree, htail⟩ := h
  rintro (hshort | ⟨version', length, rest, n, hbuf', hfree', -, -⟩)
  · exact absurd hlong (Nat.not_lt_of_le hshort)
  · rw [hbuf] at hbuf'
    simp only [header, List.append_assoc, List.append_cancel_left_eq, List.cons_append,
      List.nil_append] at hbuf'
    obtain ⟨-, rfl⟩ := append_sep_inj hfree hfree' hbuf'
    rcases htail with h | h
    · exact absurd h (List.append_ne_nil_of_left_ne_nil (by decide) _)
    · have hlen := congrArg List.length h
      simp only [List.length_append, List.length_cons, List.length_nil, lengthPrefix] at hlen
      omega

theorem grammatical_of (hfits : d.buf.length ≤ ISIZE_MAX) (hsigned : ¬Signed d.maxBodyBytes d.buf)
    (hlate : ¬LateVersion d.buf) : d.Grammatical where
  answers out := ⟨_, takeAccess_eq hfits out⟩
  accepts out := by
    simp only [takeAccess_eq hfits, Option.some.injEq]
    rw [answer_accepts, take_eq_some_iff hfits, starts_parses_iff, or_iff_left hsigned]
  keeps out result rest message h hne := by
    rw [takeAccess_eq hfits] at h
    exact answer_keeps (Option.some.inj h) hne
  waits out rest message h := by
    rw [takeAccess_eq hfits] at h
    have hanswer := Option.some.inj h
    obtain ⟨rfl, -⟩ := answer_keeps hanswer (by rintro ⟨⟩)
    have hwaits := take_eq_none_iff.mp ((answer_waits out).mp ⟨_, _, hanswer⟩)
    exact (bounded_of_waiting hwaits).resolve_right hlate

theorem not_grammatical_of_signed (hfits : d.buf.length ≤ ISIZE_MAX)
    (h : Signed d.maxBodyBytes d.buf) : ¬d.Grammatical := by
  intro hgrammatical
  have htaken := (take_eq_some_iff hfits).mpr (starts_parses_iff.mpr (.inr h))
  obtain ⟨rest, message, hanswer⟩ := (answer_accepts []).mpr htaken
  exact not_starts_of_signed h
    ((hgrammatical.accepts []).mp ⟨rest, message, by rw [takeAccess_eq hfits, hanswer]⟩)

theorem not_grammatical_of_lateVersion (hfits : d.buf.length ≤ ISIZE_MAX)
    (h : LateVersion d.buf) : ¬d.Grammatical := by
  intro hgrammatical
  obtain ⟨rest, message, hanswer⟩ := (answer_waits []).mpr (waiting_of_lateVersion h)
  obtain ⟨rfl, -⟩ := answer_keeps hanswer (by rintro ⟨⟩)
  exact not_bounded_of_lateVersion h
    (hgrammatical.waits [] rest message (by rw [takeAccess_eq hfits, hanswer]))

/-- **The grammar of a decoder.**  What it takes is the grammar, and what it leaves is bounded,
exactly where the buffer starts with no message that spells a number with a sign, and with no
version that ends past the ceiling. -/
theorem grammatical_iff (d : Decoder) (hfits : d.buf.length ≤ ISIZE_MAX) :
    d.Grammatical ↔ ¬Signed d.maxBodyBytes d.buf ∧ ¬LateVersion d.buf := by
  constructor
  · exact fun h ↦ ⟨fun hsigned ↦ not_grammatical_of_signed hfits hsigned h,
      fun hlate ↦ not_grammatical_of_lateVersion hfits hlate h⟩
  · rintro ⟨hsigned, hlate⟩
    exact grammatical_of hfits hsigned hlate

/-- A heartbeat that spells its length and its checksum with digits. -/
theorem grammatical_heartbeat :
    ({ buf := assemble (ascii "FIX.4.4") (ascii "5") (ascii "35=0" ++ [SOH]) (ascii "163") } :
      Decoder).Grammatical := by
  refine (grammatical_iff _ (by decide)).mpr ⟨fun hsigned ↦ ?_, fun hlate ↦ ?_⟩
  · refine not_starts_of_signed hsigned ⟨_, _, _, _, [], (List.append_nil _).symm, {
      version_free := by decide
      length_spells := ⟨by decide, by decide, by decide⟩
      admitted := by decide
      sum_length := rfl
      sum_spells := ⟨by decide, by decide, by decide⟩ }⟩
  · exact absurd hlate.1 (by decide)

/-- The same heartbeat with a sign before its length. -/
theorem signed_heartbeat_not_grammatical :
    ¬({ buf := assemble (ascii "FIX.4.4") (ascii "+5") (ascii "35=0" ++ [SOH]) (ascii "206") } :
      Decoder).Grammatical := by
  refine not_grammatical_of_signed (by decide)
    ⟨_, _, _, _, [], (List.append_nil _).symm, ?_, .inl rfl⟩
  exact {
    version_free := by decide
    length_spells := .inr ⟨ascii "5", rfl, by decide, by decide, by decide⟩
    admitted := by decide
    sum_length := rfl
    sum_spells := .inl ⟨by decide, by decide, by decide⟩ }

end Decoder

end EdgeMulticast.Fix
