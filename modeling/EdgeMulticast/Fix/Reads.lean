import EdgeMulticast.Fix.Framing

/-!
# How a session is read

The messages of a session, and how it ends, should not depend on how the reads cut its bytes.
One answer does: the ceiling on a header is compared with what is buffered, and only while a
separator of the header is missing.  A header that is longer is refused when a read ends inside
it, and taken when its separators arrive in time.

`HeadersFit` says that no header of the stream is that long, and `session_iff` that this is
exactly when the reads do not matter.
-/

namespace EdgeMulticast.Fix

open EdgeMulticast.Lib

/-- Where the header at the front of a stream ends, as far as the stream has it: past its second
separator, or past its first where no length follows. -/
def headerEnd (bs : List Byte) : Option ℕ :=
  match bs.findIdx? (· = SOH) with
  | none => none
  | some firstEnd =>
      let tail := bs.drop (firstEnd + 1)
      if lengthPrefix <+: tail then
        (tail.findIdx? (· = SOH)).map fun secondEnd ↦ firstEnd + 1 + secondEnd + 1
      else some (firstEnd + 1)

/-- The separators of the header lie within the ceiling, where the stream has them. -/
def HeaderFits (bs : List Byte) : Prop :=
  beginPrefix <+: bs → ∀ n ∈ headerEnd bs, n ≤ MAX_HEADER_BYTES + 1

/-- A whole message, and nothing behind it. -/
def IsMessage (max : ℕ) (message : List Byte) : Prop :=
  ({ buf := message, maxBodyBytes := max } : Decoder).completeLen = .ok (some message.length) ∧
    Decoder.checked message = .ok ()

/-- No header of a stream, at any place where a message begins, is longer than the ceiling. -/
def HeadersFit (max : ℕ) (stream : List Byte) : Prop :=
  ∀ (messages : List (List Byte)) (rest : List Byte), stream = messages.flatten ++ rest →
    (∀ m ∈ messages, IsMessage max m) → HeaderFits rest

/-- What a session tells its caller: the messages, and the variant of the error or the bytes that
are left. -/
def told (r : List (List Byte) × Except FramingError Decoder) :
    List (List Byte) × Except Variant (List Byte) :=
  (r.1, (r.2.mapError FramingError.variant).map Decoder.buf)

namespace Decoder

variable {max n : ℕ} {bs more : List Byte}

/-- A message at the front of a buffer is there whatever follows it. -/
theorem completeLen_append (more more' : List Byte) (hn : n ≤ bs.length)
    (h : ({ buf := bs ++ more, maxBodyBytes := max } : Decoder).completeLen = .ok (some n)) :
    ({ buf := bs ++ more', maxBodyBytes := max } : Decoder).completeLen = .ok (some n) := by
  obtain ⟨i, j, declared, h⟩ := completeLen_eq_some_iff.mp h
  refine completeLen_eq_some_iff.mpr ⟨i, j, declared, ?_⟩
  have htotal := h.total
  have hfield : CHECKSUM_FIELD_LEN = 7 := rfl
  have htail (more : List Byte) : (bs ++ more).drop (i + 1) = bs.drop (i + 1) ++ more :=
    List.drop_append_of_le_length (by omega)
  have hfirst : bs.findIdx? (· = SOH) = some i := findIdx?_of_append h.first (by omega)
  have hlength : lengthPrefix <+: bs.drop (i + 1) ++ more := htail more ▸ h.length
  have hsecond := h.second
  simp only [htail] at hsecond
  have hj : j < (bs.drop (i + 1)).length := by rw [List.length_drop]; omega
  have hsecond' : (bs.drop (i + 1)).findIdx? (· = SOH) = some j := findIdx?_of_append hsecond hj
  have hprefix {expected xs ys : List Byte} (hle : expected.length ≤ xs.length)
      (h : expected <+: xs ++ ys) (zs : List Byte) : expected <+: xs ++ zs :=
    (List.prefix_of_prefix_length_le h (List.prefix_append ..) hle).trans (List.prefix_append ..)
  have htake (more : List Byte) : (bs.drop (i + 1) ++ more).take j = (bs.drop (i + 1)).take j :=
    List.take_append_of_le_length hj.le
  have hdrop (more : List Byte) : (bs ++ more).drop (i + 1 + j + 1 + declared) =
      bs.drop (i + 1 + j + 1 + declared) ++ more :=
    List.drop_append_of_le_length (by omega)
  refine ⟨?_, findIdx?_append_of_some more' hfirst, ?_, ?_, ?_, h.admitted, htotal, ?_, ?_, ?_⟩
  · exact hprefix (by simp only [beginPrefix, List.length_cons, List.length_nil]; omega) h.begins _
  · dsimp only
    rw [htail]
    refine hprefix ?_ hlength _
    rw [List.length_drop]
    simp only [lengthPrefix, List.length_cons, List.length_nil]
    omega
  · dsimp only
    rw [htail]
    exact findIdx?_append_of_some more' hsecond'
  · have hdeclares := h.declares
    simp only [htail, htake] at hdeclares ⊢
    exact hdeclares
  · rw [List.length_append]
    exact Nat.le_add_right_of_le hn
  · have hchecksum := h.checksum
    simp only [hdrop] at hchecksum ⊢
    refine hprefix ?_ hchecksum _
    rw [List.length_drop]
    simp only [checksumPrefix, List.length_cons, List.length_nil]
    omega
  · have hends := h.ends
    simp only [List.getElem?_append_left (show n - 1 < bs.length by omega)] at hends ⊢
    exact hends

theorem awaitingASeparator_append {d : Decoder} {e : FramingError}
    (h : d.awaitingASeparator = .error e) (more : List Byte) :
    ∃ e', (d.feed more).awaitingASeparator = .error e' ∧ e'.variant = e.variant := by
  rw [awaitingASeparator] at h
  split at h
  next hlong =>
      obtain rfl := Except.error.inj h
      refine ⟨.headerNotTerminated (d.feed more).buf.length MAX_HEADER_BYTES, ?_, rfl⟩
      rw [awaitingASeparator, if_pos]
      rw [feed, List.length_append]
      exact Nat.lt_add_right _ hlong
  next => cases h

theorem length_of_awaiting {d : Decoder} {e : FramingError} (h : d.awaitingASeparator = .error e) :
    MAX_HEADER_BYTES < d.buf.length := by
  rw [awaitingASeparator] at h
  split at h
  · assumption
  · cases h

/-- The end of a declared span is refused whatever follows it. -/
theorem measuredLen_error {d : Decoder} {e : FramingError} {measuredAt declared : ℕ}
    (h : d.measuredLen measuredAt declared = .error e) (more : List Byte) :
    (d.feed more).measuredLen measuredAt declared = .error e := by
  have hceiling : (d.feed more).ceiling measuredAt = d.ceiling measuredAt := rfl
  rw [measuredLen] at h ⊢
  rw [hceiling]
  split at h
  next hlarge => rwa [if_pos hlarge]
  next hlarge =>
      rw [if_neg hlarge]
      dsimp only at h ⊢
      split at h
      · cases h
      next hwhole =>
          have hfield : CHECKSUM_FIELD_LEN = 7 := rfl
          have hle : measuredAt + declared + CHECKSUM_FIELD_LEN ≤ d.buf.length :=
            Nat.le_of_not_lt hwhole
          have hbuf : (d.feed more).buf = d.buf ++ more := rfl
          have hwhole' : ¬(d.feed more).buf.length < measuredAt + declared + CHECKSUM_FIELD_LEN := by
            rw [hbuf, List.length_append]
            omega
          have hchecksum : checksumPrefix <+: (d.feed more).buf.drop (measuredAt + declared) ↔
              checksumPrefix <+: d.buf.drop (measuredAt + declared) := by
            rw [hbuf, List.drop_append_of_le_length (by omega)]
            refine ⟨fun hp ↦ ?_, fun hp ↦ hp.trans (List.prefix_append ..)⟩
            refine List.prefix_of_prefix_length_le hp (List.prefix_append ..) ?_
            rw [List.length_drop, checksumPrefix]
            simp only [List.length_cons, List.length_nil]
            omega
          have hends : (d.feed more).buf[measuredAt + declared + CHECKSUM_FIELD_LEN - 1]? =
              d.buf[measuredAt + declared + CHECKSUM_FIELD_LEN - 1]? :=
            List.getElem?_append_left (by omega)
          rw [if_neg hwhole']
          simp only [hchecksum, hends]
          exact h

/-- What is refused of a part of a stream is refused of the stream, where its header fits. -/
theorem completeLen_error {d : Decoder} {e : FramingError} (h : d.completeLen = .error e)
    (more : List Byte) (hfits : HeaderFits (d.buf ++ more)) :
    ∃ e', (d.feed more).completeLen = .error e' ∧ e'.variant = e.variant := by
  have hbuf : (d.feed more).buf = d.buf ++ more := rfl
  rw [completeLen] at h
  split at h
  · cases h
  next hne =>
      have hne' : d.buf ++ more ≠ [] := fun hnil ↦ hne (List.append_eq_nil_iff.mp hnil).1
      rw [completeLen, hbuf, if_neg hne']
      split at h
      next hbegins =>
          split at h
          · cases h
          next hlong =>
              obtain ⟨hbegins', hlong'⟩ := not_prefix_append more hbegins hlong
              rw [if_pos hbegins', if_neg hlong']
              exact ⟨_, rfl, by rw [← Except.error.inj h]⟩
      next hbegins =>
          have hbegins' : beginPrefix <+: d.buf ++ more :=
            (not_not.mp hbegins).trans (List.prefix_append ..)
          rw [if_neg (not_not.mpr hbegins')]
          have hend := hfits hbegins'
          rw [headerEnd] at hend
          split at h
          next hfirst =>
              have hlong := length_of_awaiting h
              cases hmore : (d.buf ++ more).findIdx? (· = SOH) with
              | none => exact awaitingASeparator_append h more
              | some i =>
                  have hi := length_le_of_findIdx? hfirst hmore
                  rw [hmore] at hend
                  dsimp only at hend ⊢
                  split at hend
                  next hlength =>
                      rw [if_neg (not_not.mpr hlength)]
                      cases hsecond : ((d.buf ++ more).drop (i + 1)).findIdx? (· = SOH) with
                      | none => exact awaitingASeparator_append h more
                      | some j =>
                          rw [hsecond] at hend
                          have : i + 1 + j + 1 ≤ MAX_HEADER_BYTES + 1 := hend _ rfl
                          omega
                  next =>
                      have := hend _ rfl
                      omega
          next i hfirst =>
              have hi : i < d.buf.length := lt_length_of_findIdx? hfirst
              have htail : (d.buf ++ more).drop (i + 1) = d.buf.drop (i + 1) ++ more :=
                List.drop_append_of_le_length (by omega)
              rw [findIdx?_append_of_some more hfirst] at hend ⊢
              dsimp only at h hend ⊢
              rw [htail] at hend ⊢
              split at h
              next hlength =>
                  split at h
                  · cases h
                  next hlong =>
                      obtain ⟨hlength', hlong'⟩ := not_prefix_append more hlength hlong
                      rw [if_pos hlength', if_neg hlong']
                      exact ⟨_, rfl, by rw [← Except.error.inj h]; rfl⟩
              next hlength =>
                  have hlength' : lengthPrefix <+: d.buf.drop (i + 1) ++ more :=
                    (not_not.mp hlength).trans (List.prefix_append ..)
                  rw [if_pos hlength'] at hend
                  rw [if_neg (not_not.mpr hlength')]
                  split at h
                  next hsecond =>
                      have hlong := length_of_awaiting h
                      cases hmore : (d.buf.drop (i + 1) ++ more).findIdx? (· = SOH) with
                      | none => exact awaitingASeparator_append h more
                      | some j =>
                          have hj := length_le_of_findIdx? hsecond hmore
                          rw [List.length_drop] at hj
                          rw [hmore] at hend
                          have : i + 1 + j + 1 ≤ MAX_HEADER_BYTES + 1 := hend _ rfl
                          omega
                  next j hsecond =>
                      have hj := lt_length_of_findIdx? hsecond
                      rw [findIdx?_append_of_some more hsecond]
                      dsimp only at h ⊢
                      rw [List.take_append_of_le_length hj.le]
                      split at h
                      next => exact ⟨_, rfl, by rw [← Except.error.inj h]⟩
                      next declared _ => exact ⟨e, measuredLen_error h more, rfl⟩

end Decoder

/-! ## The decoder as a reader -/

/-- What the decoder says of the front of its buffer. -/
def front (max : ℕ) (bs : List Byte) : Except FramingError (Option ℕ) :=
  match ({ buf := bs, maxBodyBytes := max } : Decoder).completeLen with
  | .error e => .error e
  | .ok none => .ok none
  | .ok (some total) => (Decoder.checked (bs.take total)).map fun _ ↦ some total

variable {max n : ℕ} {bs more : List Byte}

theorem front_eq_some_iff : front max bs = .ok (some n) ↔
    ({ buf := bs, maxBodyBytes := max } : Decoder).completeLen = .ok (some n) ∧
      Decoder.checked (bs.take n) = .ok () := by
  rw [front]
  cases ({ buf := bs, maxBodyBytes := max } : Decoder).completeLen with
  | error e => exact iff_of_false nofun nofun
  | ok found =>
      cases found with
      | none => exact iff_of_false nofun nofun
      | some total =>
          dsimp only
          constructor
          · intro h
            cases hchecked : Decoder.checked (bs.take total) with
            | error e =>
                rw [hchecked] at h
                cases h
            | ok u =>
                rw [hchecked] at h
                obtain rfl := Option.some.inj (Except.ok.inj h)
                exact ⟨rfl, hchecked⟩
          · rintro ⟨htotal, hchecked⟩
            obtain rfl := Option.some.inj (Except.ok.inj htotal)
            rw [hchecked]
            rfl

/-- The decoder takes messages of at least a checksum field. -/
def reader (max : ℕ) : Reader Byte FramingError where
  front := front max
  inside h := by
    obtain ⟨i, j, declared, hlocated⟩ :=
      Decoder.completeLen_eq_some_iff.mp (front_eq_some_iff.mp h).1
    have htotal := hlocated.total
    have hfield : CHECKSUM_FIELD_LEN = 7 := rfl
    exact ⟨by omega, hlocated.whole⟩

theorem reader_front : (reader max).front = front max := rfl

theorem front_append (more more' : List Byte) (hn : n ≤ bs.length)
    (h : front max (bs ++ more) = .ok (some n)) : front max (bs ++ more') = .ok (some n) := by
  rw [front_eq_some_iff, List.take_append_of_le_length hn] at h ⊢
  exact ⟨Decoder.completeLen_append more more' hn h.1, h.2⟩

theorem isMessage_iff {message : List Byte} :
    IsMessage max message ↔ front max message = .ok (some message.length) := by
  rw [front_eq_some_iff, List.take_length]
  rfl

theorem IsMessage.front_append {message : List Byte} (h : IsMessage max message)
    (more : List Byte) : front max (message ++ more) = .ok (some message.length) := by
  refine Fix.front_append [] more le_rfl ?_
  rw [List.append_nil]
  exact isMessage_iff.mp h

/-- What is taken off the front is a message. -/
theorem isMessage_take (h : front max bs = .ok (some n)) : IsMessage max (bs.take n) := by
  have hlen : (bs.take n).length = n :=
    List.length_take_of_le (((reader max).inside h).2)
  have hwhole : front max (bs.take n ++ bs.drop n) = .ok (some n) := by
    rwa [List.take_append_drop]
  rw [isMessage_iff, hlen, ← List.append_nil (bs.take n)]
  exact Fix.front_append _ [] hlen.ge hwhole

/-- Where the header fits, the reads do not matter to one decision. -/
theorem settled (hfits : HeaderFits bs) : (reader max).Settled FramingError.variant bs := by
  rintro part ⟨more, rfl⟩
  cases hfront : (reader max).front part with
  | error e =>
      dsimp only
      have hcomplete := hfront
      rw [reader_front, front] at hcomplete
      split at hcomplete
      next e' herror =>
          obtain rfl := Except.error.inj hcomplete
          obtain ⟨e'', hwhole, hvariant⟩ := Decoder.completeLen_error herror more hfits
          refine ⟨e'', ?_, hvariant⟩
          have hwhole' : ({ buf := part ++ more, maxBodyBytes := max } : Decoder).completeLen =
            .error e'' := hwhole
          rw [reader_front, front, hwhole']
      next => cases hcomplete
      next total hsome =>
          refine ⟨e, ?_, rfl⟩
          have hle : total ≤ part.length := by
            obtain ⟨i, j, declared, hlocated⟩ := Decoder.completeLen_eq_some_iff.mp hsome
            exact hlocated.whole
          have hwhole := Decoder.completeLen_append [] more hle
            (by rwa [List.append_nil])
          rw [reader_front, front, hwhole]
          dsimp only
          rw [List.take_append_of_le_length hle]
          exact hcomplete
  | ok found =>
      cases found with
      | none => trivial
      | some n =>
          dsimp only
          exact Fix.front_append [] more ((reader max).inside hfront).2
            (by rwa [List.append_nil])

theorem HeadersFit.rest (h : HeadersFit max bs) (hfront : front max bs = .ok (some n)) :
    HeadersFit max (bs.drop n) := by
  intro messages rest hdrop hmessages
  refine h (bs.take n :: messages) rest ?_ ?_
  · rw [List.flatten_cons, List.append_assoc, ← hdrop, List.take_append_drop]
  · intro m hm
    rcases List.mem_cons.mp hm with rfl | hm
    · exact isMessage_take hfront
    · exact hmessages m hm

theorem HeadersFit.headerFits (h : HeadersFit max bs) : HeaderFits bs :=
  h [] bs rfl (by simp)

/-! ## Sessions -/

/-- The decoder that a buffer leaves. -/
def withBuf (max : ℕ) (r : List (List Byte) × Except FramingError (List Byte)) :
    List (List Byte) × Except FramingError Decoder :=
  (r.1, r.2.map fun bs ↦ { buf := bs, maxBodyBytes := max })

theorem takeAll_eq (fuel : ℕ) (bs : List Byte) :
    Decoder.takeAll fuel { buf := bs, maxBodyBytes := max } =
      withBuf max ((reader max).take fuel bs) := by
  induction fuel generalizing bs with
  | zero => rfl
  | succ fuel ih =>
      rw [Decoder.takeAll, Reader.take, Decoder.take, reader_front, front]
      cases ({ buf := bs, maxBodyBytes := max } : Decoder).completeLen with
      | error e => rfl
      | ok found =>
          cases found with
          | none => rfl
          | some total =>
              dsimp only
              cases Decoder.checked (bs.take total) with
              | error e => rfl
              | ok u =>
                  dsimp only
                  rw [ih]
                  rfl

theorem session_eq (bs : List Byte) (reads : List (List Byte)) :
    Decoder.session { buf := bs, maxBodyBytes := max } reads =
      withBuf max ((reader max).read bs reads) := by
  induction reads generalizing bs with
  | nil => rfl
  | cons bytes reads ih =>
      rw [Decoder.session, Reader.read, Decoder.feed, takeAll_eq, Reader.drain]
      generalize (reader max).take _ _ = drained
      obtain ⟨messages, e | left⟩ := drained
      · rfl
      · simp only [withBuf, Except.map]
        rw [ih]
        rfl

/-- What a session tells, of the reader. -/
theorem told_withBuf (r : List (List Byte) × Except FramingError (List Byte)) :
    told (withBuf max r) = Reader.reported FramingError.variant r := by
  obtain ⟨messages, e | left⟩ := r <;> rfl

/-! ## A read that ends inside a long header -/

theorem findIdx?_take {p : Byte → Bool} {i : ℕ} (h : bs.findIdx? p = some i) :
    (bs.take i).findIdx? p = none := by
  cases htake : (bs.take i).findIdx? p with
  | none => rfl
  | some k =>
      have hwhole := findIdx?_append_of_some (bs.drop i) htake
      rw [List.take_append_drop, h] at hwhole
      have hk := lt_length_of_findIdx? htake
      rw [List.length_take, ← Option.some.inj hwhole] at hk
      omega

theorem awaiting_of_length_lt (h : MAX_HEADER_BYTES < bs.length) :
    ({ buf := bs, maxBodyBytes := max } : Decoder).awaitingASeparator =
      .error (.headerNotTerminated bs.length MAX_HEADER_BYTES) :=
  if_pos h

/-- A buffer without a separator that is longer than a header. -/
theorem front_of_no_separator (hbegins : beginPrefix <+: bs)
    (hnone : bs.findIdx? (· = SOH) = none) (hlong : MAX_HEADER_BYTES < bs.length) :
    front max bs = .error (.headerNotTerminated bs.length MAX_HEADER_BYTES) := by
  have hne : bs ≠ [] := List.ne_nil_of_length_pos (Nat.zero_lt_of_lt hlong)
  rw [front, Decoder.completeLen, if_neg hne, if_neg (not_not.mpr hbegins), hnone]
  dsimp only
  rw [awaiting_of_length_lt hlong]

/-- A buffer with one separator, and a length that goes on for longer than a header. -/
theorem front_of_one_separator {i : ℕ} (hbegins : beginPrefix <+: bs)
    (hfirst : bs.findIdx? (· = SOH) = some i) (hlength : lengthPrefix <+: bs.drop (i + 1))
    (hnone : (bs.drop (i + 1)).findIdx? (· = SOH) = none) (hlong : MAX_HEADER_BYTES < bs.length) :
    front max bs = .error (.headerNotTerminated bs.length MAX_HEADER_BYTES) := by
  have hne : bs ≠ [] := List.ne_nil_of_length_pos (Nat.zero_lt_of_lt hlong)
  rw [front, Decoder.completeLen, if_neg hne, if_neg (not_not.mpr hbegins), hfirst]
  dsimp only
  rw [if_neg (not_not.mpr hlength), hnone]
  dsimp only
  rw [awaiting_of_length_lt hlong]

theorem two_le_of_second {i : ℕ} (hlength : lengthPrefix <+: bs)
    (hsecond : bs.findIdx? (· = SOH) = some i) : 2 ≤ i := by
  obtain ⟨more, rfl⟩ := hlength
  have hnone : lengthPrefix.findIdx? (· = SOH) = none := by decide
  exact length_le_of_findIdx? hnone hsecond

/-- A long header: a read that ends inside it is refused. -/
theorem exists_refused (max : ℕ) (hbegins : beginPrefix <+: bs) (hend : headerEnd bs = some n)
    (hlong : MAX_HEADER_BYTES + 1 < n) :
    ∃ k e, front max (bs.take k) = .error e ∧ e.variant = .headerNotTerminated := by
  have hceiling : MAX_HEADER_BYTES = 128 := rfl
  have hbegins' {k : ℕ} (hk : 2 ≤ k) : beginPrefix <+: bs.take k := by
    rw [List.prefix_take_iff]
    exact ⟨hbegins, hk⟩
  rw [headerEnd] at hend
  cases hfirst : bs.findIdx? (· = SOH) with
  | none =>
      rw [hfirst] at hend
      cases hend
  | some i =>
      rw [hfirst] at hend
      dsimp only at hend
      have hi := lt_length_of_findIdx? hfirst
      have htaken {k : ℕ} (hk : k ≤ bs.length) : (bs.take k).length = k :=
        List.length_take_of_le hk
      rcases Nat.lt_or_ge MAX_HEADER_BYTES i with hfar | hnear
      · -- the first separator itself is past the ceiling
        refine ⟨i, _, front_of_no_separator (hbegins' (by omega)) (findIdx?_take hfirst) ?_, rfl⟩
        rwa [htaken hi.le]
      · split at hend
        next hlength =>
            obtain ⟨j, hsecond, rfl⟩ := Option.map_eq_some_iff.mp hend
            have hj := lt_length_of_findIdx? hsecond
            have htwo := two_le_of_second hlength hsecond
            rw [List.length_drop] at hj
            have htail : (bs.take (i + 1 + j)).drop (i + 1) = (bs.drop (i + 1)).take j := by
              rw [List.drop_take, Nat.add_sub_cancel_left]
            refine ⟨i + 1 + j, _, front_of_one_separator (i := i) (hbegins' (by omega)) ?_ ?_ ?_ ?_,
              rfl⟩
            · have hwhole : (bs.take (i + 1 + j) ++ bs.drop (i + 1 + j)).findIdx? (· = SOH) =
                  some i := by
                rwa [List.take_append_drop]
              refine findIdx?_of_append hwhole ?_
              rw [htaken (by omega)]
              omega
            · rw [htail, List.prefix_take_iff]
              exact ⟨hlength, htwo⟩
            · rw [htail]
              exact findIdx?_take hsecond
            · rw [htaken (by omega)]
              omega
        next =>
            obtain rfl := Option.some.inj hend
            omega

/-- A header that is all there is not refused for its length. -/
theorem not_refused (hbegins : beginPrefix <+: bs) (hend : headerEnd bs = some n)
    {e : FramingError} (h : front max bs = .error e) : e.variant ≠ .headerNotTerminated := by
  have hchecked {message : List Byte} {e : FramingError} (h : Decoder.checked message = .error e) :
      e.variant ≠ .headerNotTerminated := by
    rw [Decoder.checked] at h
    split at h
    · rw [← Except.error.inj h]
      rintro ⟨⟩
    · split at h
      · rw [← Except.error.inj h]
        rintro ⟨⟩
      · cases h
  have hcomplete {e : FramingError}
      (h : ({ buf := bs, maxBodyBytes := max } : Decoder).completeLen = .error e) :
      e.variant ≠ .headerNotTerminated := by
    rw [Decoder.completeLen, if_neg (not_not.mpr hbegins)] at h
    rw [headerEnd] at hend
    split at h
    · cases h
    · cases hfirst : bs.findIdx? (· = SOH) with
      | none =>
          rw [hfirst] at hend
          cases hend
      | some i =>
          rw [hfirst] at h hend
          dsimp only at h hend
          split at h
          next hlength =>
              split at h
              · cases h
              · rw [← Except.error.inj h]
                rintro ⟨⟩
          next hlength =>
              rw [if_pos (not_not.mp hlength)] at hend
              obtain ⟨j, hsecond, -⟩ := Option.map_eq_some_iff.mp hend
              rw [hsecond] at h
              dsimp only at h
              split at h
              · rw [← Except.error.inj h]
                rintro ⟨⟩
              · rw [Decoder.measuredLen] at h
                split at h
                · rw [← Except.error.inj h]
                  rintro ⟨⟩
                · dsimp only at h
                  split at h
                  · cases h
                  · split at h
                    · rw [← Except.error.inj h]
                      rintro ⟨⟩
                    · cases h
  rw [front] at h
  split at h
  next herror => exact hcomplete (herror.trans h)
  next => cases h
  next total _ =>
      cases hmessage : Decoder.checked (bs.take total) with
      | ok u =>
          rw [hmessage] at h
          cases h
      | error e' =>
          rw [hmessage] at h
          exact Except.error.inj h ▸ hchecked hmessage

/-! ## When the reads do not matter -/

theorem read_singleton (R : Reader Byte FramingError) (bs : List Byte) :
    R.read [] [bs] = R.drain bs := by
  rw [Reader.read, List.nil_append]
  generalize R.drain bs = drained
  obtain ⟨messages, e | left⟩ := drained
  · rfl
  · simp only [Reader.read, List.append_nil]

/-- **The reads do not matter** to a session exactly when no header of its stream is longer than
the ceiling. -/
theorem session_iff (max : ℕ) (stream : List Byte) :
    (∀ reads reads' : List (List Byte), reads.flatten = stream → reads'.flatten = stream →
      told (Decoder.session { maxBodyBytes := max } reads) =
        told (Decoder.session { maxBodyBytes := max } reads')) ↔
      HeadersFit max stream := by
  constructor
  · intro h messages rest hstream hmessages hbegins n hn
    by_contra hlong
    obtain ⟨k, e, hrefused, hvariant⟩ :=
      exists_refused max hbegins hn (Nat.lt_of_not_le hlong)
    have hdrain (bs : List Byte) : (reader max).drain (messages.flatten ++ bs) =
        (messages ++ ((reader max).drain bs).1, ((reader max).drain bs).2) :=
      Reader.drain_flatten fun m hm more ↦ (hmessages m hm).front_append more
    have hdrain' := hdrain (rest.take k)
    have hcut : (reader max).drain (rest.take k) = ([], .error e) := Reader.drain_of_error hrefused
    rw [hcut, List.append_nil] at hdrain'
    have hcuts : [messages.flatten ++ rest.take k, rest.drop k].flatten = stream := by
      rw [List.flatten_cons, List.flatten_singleton, List.append_assoc, List.take_append_drop,
        hstream]
    have htold := h [stream] [messages.flatten ++ rest.take k, rest.drop k]
      List.flatten_singleton hcuts
    rw [session_eq, session_eq, told_withBuf, told_withBuf, read_singleton, hstream, hdrain,
      Reader.read, List.nil_append, hdrain'] at htold
    obtain ⟨hitems, houtcome⟩ := Prod.mk.inj htold
    cases hfront : front max rest with
    | error e' =>
        rw [Reader.drain_of_error (R := reader max) hfront] at houtcome
        exact not_refused hbegins hn hfront ((Except.error.inj houtcome).trans hvariant)
    | ok found =>
        cases found with
        | none =>
            rw [Reader.drain_of_none (R := reader max) hfront] at houtcome
            cases houtcome
        | some total =>
            rw [Reader.drain_of_some (R := reader max) hfront] at hitems
            simp at hitems
  · intro h reads reads' hreads hreads'
    have hread (reads : List (List Byte)) (hreads : reads.flatten = stream) :
        told (Decoder.session { maxBodyBytes := max } reads) =
          Reader.reported FramingError.variant ((reader max).drain stream) := by
      rw [session_eq, told_withBuf]
      have hgood : HeadersFit max ([] ++ reads.flatten) := by rwa [List.nil_append, hreads]
      have hread := Reader.reported_read (R := reader max)
        (fun _ (hfit : HeadersFit max _) ↦ settled hfit.headerFits)
        (fun _ _ hfit hfront ↦ hfit.rest hfront) reads rfl hgood
      rwa [List.nil_append, hreads] at hread
    rw [hread reads hreads, hread reads' hreads']

/-! ## A message that one read takes and two reads refuse -/

/-- `8=FIX.4.4|9=0…05|35=0|10=003|`, the length written with 130 zeros before its digit. -/
def paddedHeartbeat : List Byte :=
  [0x38, 0x3d, 0x46, 0x49, 0x58, 0x2e, 0x34, 0x2e, 0x34, SOH, 0x39, 0x3d] ++
    List.replicate 130 0x30 ++
    [0x35, SOH, 0x33, 0x35, 0x3d, 0x30, SOH, 0x31, 0x30, 0x3d, 0x30, 0x30, 0x33, SOH]

theorem reads_matter :
    ¬∀ reads reads' : List (List Byte), reads.flatten = reads'.flatten →
      told (Decoder.session {} reads) = told (Decoder.session {} reads') := by
  intro h
  have htold := h [paddedHeartbeat] [paddedHeartbeat.take 140, paddedHeartbeat.drop 140] rfl
  have hwhole : (told (Decoder.session {} [paddedHeartbeat])).1 = [paddedHeartbeat] := by
    decide +kernel
  have hcut :
      (told (Decoder.session {} [paddedHeartbeat.take 140, paddedHeartbeat.drop 140])).1 = [] := by
    decide +kernel
  rw [htold, hcut] at hwhole
  cases hwhole

end EdgeMulticast.Fix
