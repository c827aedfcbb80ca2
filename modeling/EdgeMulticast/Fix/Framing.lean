import EdgeMulticast.Lib.Bytes
import EdgeMulticast.Lib.Chunked

/-!
# Messages of a tag-value session

`framing.rs` (`dz-ingress-fix`): a byte stream turned into whole messages.

A message is `8=…|9=n|`, a body of `n` bytes and `10=ccc|`, where `|` is the separator.  The
declared length locates the end.  `Decoder.completeLen` finds the message at the front of the
buffer, and `Decoder.take` checks it and moves it out.  A `usize` has 64 bits.
-/

namespace EdgeMulticast.Fix

open EdgeMulticast.Lib

def SOH : Byte := 0x01

/-- `8=`, what every message begins with. -/
def beginPrefix : List Byte := [0x38, 0x3d]

/-- `9=` -/
def lengthPrefix : List Byte := [0x39, 0x3d]

/-- `10=` -/
def checksumPrefix : List Byte := [0x31, 0x30, 0x3d]

def CHECKSUM_FIELD_LEN : ℕ := 7

/-- How many bytes of header may precede the measured span. -/
def MAX_HEADER_BYTES : ℕ := 128

def DEFAULT_MAX_BODY_BYTES : ℕ := 8 * 1024 * 1024

def USIZE_MAX : ℕ := 2 ^ 64 - 1

/-- Which field could not be read, and the bytes that are shown of it. -/
inductive Detail where
  | notThreeDigits (shown : List Byte)
  | lengthMissing (shown : List Byte)
  | lengthNotANumber (shown : List Byte)
deriving DecidableEq, Repr

inductive FramingError where
  | notAMessage
  | malformed (detail : Detail)
  | lengthMismatch (declared : ℕ)
  | checksumMismatch (stated computed : ℕ)
  | tooLarge (declared limit : ℕ)
  | headerNotTerminated (buffered limit : ℕ)
deriving DecidableEq, Repr

/-- The variants of `FramingError`. -/
inductive Variant where
  | notAMessage | malformed | lengthMismatch | checksumMismatch | tooLarge | headerNotTerminated
deriving DecidableEq, Repr

def FramingError.variant : FramingError → Variant
  | .notAMessage => .notAMessage
  | .malformed _ => .malformed
  | .lengthMismatch _ => .lengthMismatch
  | .checksumMismatch .. => .checksumMismatch
  | .tooLarge .. => .tooLarge
  | .headerNotTerminated .. => .headerNotTerminated

/-- The sum of every byte, modulo 256. -/
def checksum (bytes : List Byte) : Byte := bytes.foldl (· + ·) 0

structure Decoder where
  buf : List Byte := []
  maxBodyBytes : ℕ := DEFAULT_MAX_BODY_BYTES
deriving DecidableEq, Repr

namespace Decoder

/-- Add what a read returned. -/
def feed (d : Decoder) (bytes : List Byte) : Decoder := { d with buf := d.buf ++ bytes }

/-- Not yet, unless the buffer has run past anything a header could be. -/
def awaitingASeparator (d : Decoder) : Except FramingError (Option ℕ) :=
  if MAX_HEADER_BYTES < d.buf.length then
    .error (.headerNotTerminated d.buf.length MAX_HEADER_BYTES)
  else .ok none

/-- What a declared length may be, given where the measured span begins. -/
def ceiling (d : Decoder) (measuredAt : ℕ) : ℕ :=
  min d.maxBodyBytes (USIZE_MAX - measuredAt - CHECKSUM_FIELD_LEN)

/-- The end of a message whose length is declared, when all of it is there. -/
def measuredLen (d : Decoder) (measuredAt declared : ℕ) : Except FramingError (Option ℕ) :=
  if d.ceiling measuredAt < declared then .error (.tooLarge declared (d.ceiling measuredAt))
  else
    let total := measuredAt + declared + CHECKSUM_FIELD_LEN
    if d.buf.length < total then .ok none
    -- the declared span has to end exactly where the checksum field begins
    else if ¬checksumPrefix <+: d.buf.drop (measuredAt + declared) ∨
        d.buf[total - 1]? ≠ some SOH then .error (.lengthMismatch declared)
    else .ok (some total)

/-- The length of the message at the front of the buffer, when all of it is there. -/
def completeLen (d : Decoder) : Except FramingError (Option ℕ) :=
  if d.buf = [] then .ok none
  else if ¬beginPrefix <+: d.buf then
    -- only decidable once there are enough bytes to disagree with
    if d.buf.length < beginPrefix.length ∧ d.buf <+: beginPrefix then .ok none
    else .error .notAMessage
  else match d.buf.findIdx? (· = SOH) with
    | none => d.awaitingASeparator
    | some firstEnd =>
        let afterBegin := firstEnd + 1
        let tail := d.buf.drop afterBegin
        if ¬lengthPrefix <+: tail then
          if tail.length < lengthPrefix.length ∧ tail <+: lengthPrefix then .ok none
          else .error (.malformed (.lengthMissing (d.buf.take 32)))
        else match tail.findIdx? (· = SOH) with
          | none => d.awaitingASeparator
          | some secondEnd =>
              let digits := (tail.take secondEnd).drop lengthPrefix.length
              match parseUnsigned USIZE_MAX digits with
              | none => .error (.malformed (.lengthNotANumber digits))
              | some declared => d.measuredLen (afterBegin + secondEnd + 1) declared

/-- The checksum a message states holds. -/
def checked (message : List Byte) : Except FramingError Unit :=
  let total := message.length
  let stated := (message.take (total - 1)).drop (total - 4)
  let computed := checksum (message.take (total - CHECKSUM_FIELD_LEN))
  match parseUnsigned 255 stated with
  | none => .error (.malformed (.notThreeDigits stated))
  | some n => if n ≠ computed.toNat then .error (.checksumMismatch n computed.toNat) else .ok ()

/-- The next complete message, and the decoder without it. -/
def take (d : Decoder) : Except FramingError (Option (List Byte × Decoder)) :=
  match d.completeLen with
  | .error e => .error e
  | .ok none => .ok none
  | .ok (some total) =>
      match checked (d.buf.take total) with
      | .error e => .error e
      | .ok () => .ok (some (d.buf.take total, { d with buf := d.buf.drop total }))

/-- Call `take` until it returns false or an error, at most `fuel` times. -/
def takeAll : ℕ → Decoder → List (List Byte) × Except FramingError Decoder
  | 0, d => ([], .ok d)
  | fuel + 1, d =>
      match d.take with
      | .error e => ([], .error e)
      | .ok none => ([], .ok d)
      | .ok (some (message, d)) => (message :: (takeAll fuel d).1, (takeAll fuel d).2)

/-- Feed what the reads of a session returned, and take every message after each. -/
def session : Decoder → List (List Byte) → List (List Byte) × Except FramingError Decoder
  | d, [] => ([], .ok d)
  | d, bytes :: reads =>
      match takeAll ((d.feed bytes).buf.length + 1) (d.feed bytes) with
      | (messages, .error e) => (messages, .error e)
      | (messages, .ok d) => (messages ++ (session d reads).1, (session d reads).2)

end Decoder

/-! ## The front of a buffer -/

/-- A prefix that a buffer contradicts is contradicted by every longer buffer. -/
theorem not_prefix_append {expected bs : List Byte} (more : List Byte)
    (hnot : ¬expected <+: bs) (hlong : ¬(bs.length < expected.length ∧ bs <+: expected)) :
    ¬expected <+: bs ++ more ∧
      ¬((bs ++ more).length < expected.length ∧ bs ++ more <+: expected) := by
  constructor
  · intro h
    rcases Nat.lt_or_ge bs.length expected.length with hlt | hge
    · exact hlong ⟨hlt, List.prefix_of_prefix_length_le (List.prefix_append ..) h hlt.le⟩
    · exact hnot (List.prefix_of_prefix_length_le h (List.prefix_append ..) hge)
  · rintro ⟨hlt, hprefix⟩
    rw [List.length_append] at hlt
    exact hlong ⟨by omega, (List.prefix_append ..).trans hprefix⟩

theorem findIdx?_append_of_some {bs : List Byte} {p : Byte → Bool} {i : ℕ} (more : List Byte)
    (h : bs.findIdx? p = some i) : (bs ++ more).findIdx? p = some i := by
  rw [List.findIdx?_append, h]
  rfl

theorem findIdx?_of_append {bs more : List Byte} {p : Byte → Bool} {i : ℕ}
    (h : (bs ++ more).findIdx? p = some i) (hi : i < bs.length) : bs.findIdx? p = some i := by
  rw [List.findIdx?_append] at h
  cases hbs : bs.findIdx? p with
  | some j => rwa [hbs] at h
  | none =>
      rw [hbs, Option.none_or] at h
      obtain ⟨k, -, hk⟩ := Option.map_eq_some_iff.mp h
      omega

theorem length_le_of_findIdx? {bs more : List Byte} {p : Byte → Bool} {i : ℕ}
    (hnone : bs.findIdx? p = none) (h : (bs ++ more).findIdx? p = some i) : bs.length ≤ i := by
  refine Nat.le_of_not_lt fun hi ↦ ?_
  cases hnone.symm.trans (findIdx?_of_append h hi)

theorem lt_length_of_findIdx? {bs : List Byte} {p : Byte → Bool} {i : ℕ}
    (h : bs.findIdx? p = some i) : i < bs.length :=
  (List.findIdx?_eq_some_iff_findIdx_eq.mp h).1

namespace Decoder

variable {d : Decoder} {n : ℕ}

/-- A message at the front of the buffer: where its separators are and what it declares. -/
structure Located (d : Decoder) (n firstEnd secondEnd declared : ℕ) : Prop where
  begins : beginPrefix <+: d.buf
  first : d.buf.findIdx? (· = SOH) = some firstEnd
  length : lengthPrefix <+: d.buf.drop (firstEnd + 1)
  second : (d.buf.drop (firstEnd + 1)).findIdx? (· = SOH) = some secondEnd
  declares : parseUnsigned USIZE_MAX (((d.buf.drop (firstEnd + 1)).take secondEnd).drop
    lengthPrefix.length) = some declared
  admitted : declared ≤ d.ceiling (firstEnd + 1 + secondEnd + 1)
  total : n = firstEnd + 1 + secondEnd + 1 + declared + CHECKSUM_FIELD_LEN
  whole : n ≤ d.buf.length
  checksum : checksumPrefix <+: d.buf.drop (firstEnd + 1 + secondEnd + 1 + declared)
  ends : d.buf[n - 1]? = some SOH

theorem completeLen_eq_some_iff : d.completeLen = .ok (some n) ↔
    ∃ firstEnd secondEnd declared, d.Located n firstEnd secondEnd declared := by
  rw [completeLen]
  constructor
  · intro h
    split at h
    · cases h
    · split at h
      · split at h <;> cases h
      next hbegins =>
          split at h
          · rw [awaitingASeparator] at h
            split at h <;> cases h
          next i hfirst =>
              dsimp only at h
              split at h
              · split at h <;> cases h
              next hlength =>
                  split at h
                  · rw [awaitingASeparator] at h
                    split at h <;> cases h
                  next j hsecond =>
                      split at h
                      · cases h
                      next declared hdeclares =>
                          rw [measuredLen] at h
                          split at h
                          · cases h
                          next hadmitted =>
                              dsimp only at h
                              split at h
                              · cases h
                              next hwhole =>
                                  split at h
                                  · cases h
                                  next hends =>
                                      rw [not_or, not_not, not_not] at hends
                                      obtain rfl := Option.some.inj (Except.ok.inj h)
                                      exact ⟨i, j, declared, not_not.mp hbegins, hfirst,
                                        not_not.mp hlength, hsecond, hdeclares,
                                        Nat.le_of_not_lt hadmitted, rfl, Nat.le_of_not_lt hwhole,
                                        hends.1, hends.2⟩
  · rintro ⟨i, j, declared, h⟩
    have hne : d.buf ≠ [] := by
      intro hnil
      have := h.begins
      rw [hnil] at this
      exact absurd this (by decide)
    rw [if_neg hne, if_neg (not_not.mpr h.begins), h.first]
    dsimp only
    rw [if_neg (not_not.mpr h.length), h.second]
    dsimp only
    rw [h.declares]
    dsimp only
    rw [measuredLen, if_neg h.admitted.not_gt]
    dsimp only
    rw [← h.total, if_neg h.whole.not_gt, if_neg]
    rw [not_or, not_not, not_not]
    exact ⟨h.checksum, h.ends⟩

end Decoder

end EdgeMulticast.Fix
