import EdgeMulticast.Fix.Body
import EdgeMulticast.Fix.Safety

/-!
# What is framed is what is taken

`frame` writes the header of the transport, the body of the caller, and the checksum.  The result
is a message of the grammar (`Send.parts`), so the decoder of the other side takes it, and the
fields that it reads there are the ones that were written (`Send.fields_message`).

`Send.taken` is the round trip of one message, `taken_all` that of a sequence.
-/

namespace EdgeMulticast.Fix

open EdgeMulticast.Lib

def BEGIN_STRING : List Byte := ascii "FIX.4.4"

/-- One `tag=value|`. -/
def pushField (tag : ℕ) (value : List Byte) : List Byte :=
  decimal tag ++ EQUALS :: (value ++ [SOH])

/-- The span whose length is declared. -/
def measured (body : Body) (seq : ℕ) (sendingTime : List Byte) (resetSequence : Bool) :
    List Byte :=
  pushField TAG_MSG_TYPE body.msgType ++ pushField TAG_MSG_SEQ_NUM (decimal seq) ++
    pushField TAG_SENDING_TIME sendingTime ++
    (if resetSequence then pushField TAG_RESET_SEQ_NUM_FLAG (ascii "Y") else []) ++ body.rest

/-- The header of the transport, the body, the checksum. -/
def frame (body : Body) (seq : ℕ) (sendingTime : List Byte) (resetSequence : Bool) : List Byte :=
  let measured := measured body seq sendingTime resetSequence
  let out := pushField TAG_BEGIN_STRING BEGIN_STRING ++
    pushField TAG_BODY_LENGTH (decimal measured.length) ++ measured
  out ++ pushField TAG_CHECKSUM (padded 3 (checksum out).toNat)

/-- A message to be sent: a body that was accepted, and what it is framed with. -/
structure Send where
  text : List Byte
  body : Body
  accepted : Body.parse text = .ok body
  seq : ℕ
  sendingTime : List Byte
  time_free : SOH ∉ sendingTime
  resetSequence : Bool

namespace Send

variable (s : Send) {max : ℕ} {rest : List Byte}

/-- The span of the message whose length is declared. -/
def span : List Byte := measured s.body s.seq s.sendingTime s.resetSequence

def message : List Byte := frame s.body s.seq s.sendingTime s.resetSequence

/-- The sum of every byte before the checksum. -/
def sum : ℕ := (checksum (header BEGIN_STRING (decimal s.span.length) ++ s.span)).toNat

/-- The body's own fields. -/
def ownFields : List Field := fields s.body.rest

/-! ## The message -/

/-- What is framed has the parts of a message. -/
theorem message_eq : s.message =
    assemble BEGIN_STRING (decimal s.span.length) s.span (padded 3 s.sum) := by
  have hbegin (value : List Byte) :
      pushField TAG_BEGIN_STRING value = beginPrefix ++ value ++ [SOH] := by
    rw [List.append_assoc]
    rfl
  have hlength (value : List Byte) :
      pushField TAG_BODY_LENGTH value = lengthPrefix ++ value ++ [SOH] := by
    rw [List.append_assoc]
    rfl
  have hsum (value : List Byte) : pushField TAG_CHECKSUM value = trailer value := by
    rw [trailer, List.append_assoc]
    rfl
  have hheader : pushField TAG_BEGIN_STRING BEGIN_STRING ++
      pushField TAG_BODY_LENGTH (decimal s.span.length) =
      header BEGIN_STRING (decimal s.span.length) := by
    rw [hbegin, hlength, header]
    simp only [List.append_assoc, List.cons_append, List.nil_append]
  rw [message, frame, hsum, ← span, hheader]
  rfl

theorem parts (hadmits : s.span.length ≤ max) :
    Parts Digits max BEGIN_STRING (decimal s.span.length) s.span (padded 3 s.sum) where
  version_free := by decide
  length_spells := digits_decimal _
  admitted := hadmits
  sum_length := length_padded (by decide) ((UInt8.toNat_lt _).trans (by decide))
  sum_spells := digits_padded ..

/-- The decoder of the other side takes it, and leaves what follows it. -/
theorem answer_message (hadmits : s.span.length ≤ max)
    (hfits : (s.message ++ rest).length ≤ ISIZE_MAX) (out : List Byte) :
    ({ buf := s.message ++ rest, maxBodyBytes := max } : Decoder).answer out =
      (.ok true, { buf := rest, maxBodyBytes := max }, s.message) := by
  have htake := Decoder.take_of_parts (d := { buf := s.message ++ rest, maxBodyBytes := max })
    (s.parts hadmits).parses (by rw [message_eq]) hfits
  rw [Decoder.answer, htake, ← message_eq]

theorem isMessage (hadmits : s.span.length ≤ max) (hfits : s.message.length ≤ ISIZE_MAX) :
    IsMessage max s.message := by
  have hlocated := Decoder.located_of_parts (d := { buf := s.message, maxBodyBytes := max })
    (s.parts hadmits).parses (by rw [message_eq, List.append_nil]) hfits
  refine ⟨?_, ?_⟩
  · rw [message_eq] at hlocated ⊢
    exact Decoder.completeLen_eq_some_iff.mpr ⟨_, _, _, hlocated⟩
  · rw [message_eq]
    exact (Decoder.checked_eq_ok_iff _ _ _ (s.parts hadmits).sum_length).mpr
      (s.parts hadmits).parses.sum_spells

/-! ## Its fields -/

/-- The fields of the message, as they are written. -/
def written : List Field :=
  [⟨TAG_BEGIN_STRING, BEGIN_STRING⟩, ⟨TAG_BODY_LENGTH, decimal s.span.length⟩,
    ⟨TAG_MSG_TYPE, s.body.msgType⟩, ⟨TAG_MSG_SEQ_NUM, decimal s.seq⟩,
    ⟨TAG_SENDING_TIME, s.sendingTime⟩] ++
  (if s.resetSequence then [⟨TAG_RESET_SEQ_NUM_FLAG, ascii "Y"⟩] else []) ++ s.ownFields ++
  [⟨TAG_CHECKSUM, padded 3 s.sum⟩]

theorem spells_pushField {tag : ℕ} {value : List Byte} (htag : tag ≤ U32_MAX)
    (hfree : SOH ∉ value) : Spells (pushField tag value) [⟨tag, value⟩] :=
  .single (.inl (digits_decimal tag)) htag hfree

theorem SOH_notMem_of_digits {text : List Byte} {n : ℕ} (h : Digits text n) : SOH ∉ text :=
  SOH_notMem_of_parses (.inl h)

theorem spells_rest : Spells s.body.rest s.ownFields ∧ ∀ f ∈ s.ownFields, f.tag ∉ ownedTags := by
  obtain ⟨fs, hspells, howned⟩ := (Body.composed_of_parse s.accepted).rest_spells
  rw [ownFields, fields_of_spells hspells]
  exact ⟨hspells, howned⟩

theorem spells_message : Spells s.message s.written := by
  have hreset : Spells
      (if s.resetSequence then pushField TAG_RESET_SEQ_NUM_FLAG (ascii "Y") else [])
      (if s.resetSequence then [⟨TAG_RESET_SEQ_NUM_FLAG, ascii "Y"⟩] else []) := by
    cases s.resetSequence with
    | false => exact .nil
    | true => exact spells_pushField (by decide) (by decide)
  have hfront : Spells
      (pushField TAG_BEGIN_STRING BEGIN_STRING ++
        pushField TAG_BODY_LENGTH (decimal s.span.length))
      [⟨TAG_BEGIN_STRING, BEGIN_STRING⟩, ⟨TAG_BODY_LENGTH, decimal s.span.length⟩] :=
    (spells_pushField (by decide) (by decide)).append
      (spells_pushField (by decide) (SOH_notMem_of_digits (digits_decimal _)))
  have hspan : Spells s.span
      ([⟨TAG_MSG_TYPE, s.body.msgType⟩, ⟨TAG_MSG_SEQ_NUM, decimal s.seq⟩,
        ⟨TAG_SENDING_TIME, s.sendingTime⟩] ++
        (if s.resetSequence then [⟨TAG_RESET_SEQ_NUM_FLAG, ascii "Y"⟩] else []) ++ s.ownFields) :=
    ((((spells_pushField (by decide) (Body.composed_of_parse s.accepted).msgType_free).append
      (spells_pushField (by decide) (SOH_notMem_of_digits (digits_decimal _)))).append
      (spells_pushField (by decide) s.time_free)).append hreset).append s.spells_rest.1
  have hall := (hfront.append hspan).append
    (show Spells (pushField TAG_CHECKSUM (padded 3 s.sum)) [⟨TAG_CHECKSUM, padded 3 s.sum⟩] from
      spells_pushField (by decide) (SOH_notMem_of_digits (digits_padded 3 s.sum)))
  have hbytes : s.message = pushField TAG_BEGIN_STRING BEGIN_STRING ++
      pushField TAG_BODY_LENGTH (decimal s.span.length) ++ s.span ++
      pushField TAG_CHECKSUM (padded 3 s.sum) := by
    rw [message_eq]
    simp only [assemble, header, trailer, pushField, List.append_assoc, List.cons_append,
      List.nil_append]
    rfl
  rw [hbytes]
  simpa only [written, List.append_assoc, List.cons_append, List.nil_append] using hall

/-- The fields that are read are the ones that were written. -/
theorem fields_message : fields s.message = s.written := fields_of_spells s.spells_message

theorem msgType_message : msgType s.message = some s.body.msgType := by
  have hthird : s.written[2]? = some ⟨TAG_MSG_TYPE, s.body.msgType⟩ := by
    simp only [written, List.append_assoc, List.cons_append, List.getElem?_cons_succ,
      List.getElem?_cons_zero]
  rw [msgType, fields_message, hthird]
  dsimp only
  rw [if_neg (not_not.mpr rfl), if_pos (Body.composed_of_parse s.accepted).msgType_text]

/-- How often a tag occurs in a message. -/
def occurrences (fs : List Field) (tag : ℕ) : ℕ := (fs.map Field.tag).count tag

/-- Every tag of the transport is stated once, the reset flag where it was asked for. -/
theorem occurrences_owned {tag : ℕ} (htag : tag ∈ ownedTags) :
    occurrences s.written tag =
      if tag = TAG_RESET_SEQ_NUM_FLAG ∧ s.resetSequence = false then 0 else 1 := by
  have hown : (s.ownFields.map Field.tag).count tag = 0 := by
    rw [List.count_eq_zero]
    intro hmem
    obtain ⟨f, hf, rfl⟩ := List.mem_map.mp hmem
    exact s.spells_rest.2 f hf htag
  rw [occurrences, written]
  simp only [List.map_append, List.count_append, hown]
  cases s.resetSequence with
  | false =>
      simp only [ownedTags, List.mem_cons, List.not_mem_nil, or_false] at htag
      rcases htag with rfl | rfl | rfl | rfl | rfl | rfl <;> rfl
  | true =>
      simp only [ownedTags, List.mem_cons, List.not_mem_nil, or_false] at htag
      rcases htag with rfl | rfl | rfl | rfl | rfl | rfl <;> rfl

/-! ## The round trip -/

/-- What the other side makes of a message, whatever follows it. -/
structure Received (max : ℕ) : Prop where
  taken : ∀ rest out, (s.message ++ rest).length ≤ ISIZE_MAX →
    (({ maxBodyBytes := max } : Decoder).feed (s.message ++ rest)).takeAccess out =
      some (.ok true, { buf := rest, maxBodyBytes := max }, s.message)
  msgType : msgType s.message = some s.body.msgType
  fields : fields s.message = s.written
  owned : ∀ tag ∈ ownedTags, occurrences (Fix.fields s.message) tag =
    if tag = TAG_RESET_SEQ_NUM_FLAG ∧ s.resetSequence = false then 0 else 1

theorem received (hadmits : s.span.length ≤ max) : s.Received max where
  taken rest out hfits := by
    have hfeed : ({ maxBodyBytes := max } : Decoder).feed (s.message ++ rest) =
        { buf := s.message ++ rest, maxBodyBytes := max } := rfl
    rw [hfeed, Decoder.takeAccess_eq hfits, s.answer_message hadmits hfits]
  msgType := s.msgType_message
  fields := s.fields_message
  owned tag htag := by rw [fields_message, s.occurrences_owned htag]

/-- A sequence of messages is taken as that sequence. -/
theorem taken_all {sends : List Send} (hadmits : ∀ s ∈ sends, s.span.length ≤ max)
    (hfits : (sends.map message).flatten.length ≤ ISIZE_MAX) :
    Decoder.session { maxBodyBytes := max } [(sends.map message).flatten] =
      (sends.map message, .ok { maxBodyBytes := max }) := by
  have hfront : ∀ m ∈ sends.map message, ∀ more,
      (reader max).front (m ++ more) = .ok (some m.length) := by
    intro m hm more
    obtain ⟨s, hs, rfl⟩ := List.mem_map.mp hm
    have hle : s.message.length ≤ (sends.map message).flatten.length :=
      (List.sublist_flatten_of_mem hm).length_le
    exact (s.isMessage (hadmits s hs) (hle.trans hfits)).front_append more
  have hempty : (reader max).drain [] = ([], .ok []) := rfl
  have hdrain : (reader max).drain ((sends.map message).flatten ++ []) = _ :=
    (reader max).drain_flatten hfront
  rw [List.append_nil, hempty, List.append_nil] at hdrain
  rw [session_eq, read_singleton, hdrain]
  rfl

end Send

/-- **The round trip of framing.**  A message that was framed is taken as it was framed, with the
fields that were written; and so is a sequence of messages. -/
theorem frames_round_trip (max : ℕ) (sends : List Send)
    (hadmits : ∀ s ∈ sends, s.span.length ≤ max)
    (hfits : (sends.map Send.message).flatten.length ≤ ISIZE_MAX) :
    (∀ s ∈ sends, s.Received max) ∧
      Decoder.session { maxBodyBytes := max } [(sends.map Send.message).flatten] =
        (sends.map Send.message, .ok { maxBodyBytes := max }) :=
  ⟨fun s hs ↦ s.received (hadmits s hs), Send.taken_all hadmits hfits⟩

def logonBody : Body := { msgType := ascii "A", rest := ascii "108=30" ++ [SOH] }

theorem logonBody_accepted :
    Body.parse (ascii "35=A" ++ SOH :: (ascii "108=30" ++ [SOH])) = .ok logonBody := by
  decide

def subscriptionBody : Body := { msgType := ascii "V", rest := ascii "262=+1" ++ [SOH] }

theorem subscriptionBody_accepted :
    Body.parse (ascii "35=V" ++ SOH :: (ascii "262=+1" ++ [SOH])) = .ok subscriptionBody := by
  decide

theorem noon_free : SOH ∉ ascii "20240102-12:00:00.000" := by decide

/-- A logon that asks for the reset. -/
def logon : Send where
  text := ascii "35=A" ++ SOH :: (ascii "108=30" ++ [SOH])
  body := logonBody
  accepted := logonBody_accepted
  seq := 1
  sendingTime := ascii "20240102-12:00:00.000"
  time_free := noon_free
  resetSequence := true

/-- A subscription behind it. -/
def subscription : Send where
  text := ascii "35=V" ++ SOH :: (ascii "262=+1" ++ [SOH])
  body := subscriptionBody
  accepted := subscriptionBody_accepted
  seq := 2
  sendingTime := ascii "20240102-12:00:00.000"
  time_free := noon_free
  resetSequence := false

theorem logon_then_subscription :
    (∀ s ∈ [logon, subscription], s.Received DEFAULT_MAX_BODY_BYTES) ∧
      Decoder.session {} [logon.message ++ subscription.message] =
        ([logon.message, subscription.message], .ok {}) := by
  have h := frames_round_trip DEFAULT_MAX_BODY_BYTES [logon, subscription] (by decide)
    (by decide +kernel)
  rwa [List.map_cons, List.map_cons, List.map_nil, List.flatten_cons, List.flatten_cons,
    List.flatten_nil, List.append_nil] at h

/-- A message that does not ask for the reset does not state its flag. -/
theorem subscription_states_no_reset :
    TAG_RESET_SEQ_NUM_FLAG ∈ ownedTags ∧
      Send.occurrences (fields subscription.message) TAG_RESET_SEQ_NUM_FLAG ≠ 1 := by
  refine ⟨by decide, ?_⟩
  rw [subscription.fields_message, subscription.occurrences_owned (by decide)]
  decide

end EdgeMulticast.Fix
