import EdgeMulticast.Uds.RoundTrip

/-!
# Records of another writer

The length of a record comes first so that a reader steps over what it does not know: a record of
another version, or of a kind it has no fields for.  This module says which records are stepped over.

A record of another version is too short to be read at all when nothing follows its version, and a
record of an unknown kind is read up to its symbol, and up to its time if the symbol is admitted,
before its kind is looked at.
-/

namespace EdgeMulticast.Uds

open EdgeMulticast.Lib
open EdgeMulticast.Lib.Reading (byte_exact word16_exact word64_exact take_exact)
open EdgeMulticast.Lowering (InstrumentRef)

/-! ## What each record hands over -/

/-- What a record that was stepped over or read hands over behind its upstream message. -/
def answer : Except RecordError (Option Event) → Except ParseError (Option Event)
  | .ok event => .ok event
  | .error (.version _) | .error (.kind _) => .ok none
  | .error .truncated => .error (.truncated "a record declared more than it held")
  | .error (.malformed detail) => .error (.malformed detail)

/-- The answers of the records of a payload, one by one, and why it could not be read to its end. -/
def answersFrom (resolve : List Byte → Option InstrumentRef) :
    ℕ → List Byte → List (Option Event) × Option ParseError
  | 0, _ => ([], none)
  | fuel + 1, bytes =>
      if bytes = [] then ([], none)
      else match recordLen bytes with
        | none => ([], some (.truncated "a record is split across payloads"))
        | some len =>
            match answer (decode (bytes.take len) resolve) with
            | .error e => ([], some e)
            | .ok event =>
                let more := answersFrom resolve fuel (bytes.drop len)
                (event :: more.1, more.2)

def answers (resolve : List Byte → Option InstrumentRef) (bytes : List Byte) :
    List (Option Event) × Option ParseError :=
  answersFrom resolve bytes.length bytes

/-- The adapter hands over the events of the answers, and fails with them. -/
theorem payloadFrom_eq (resolve : List Byte → Option InstrumentRef) (fuel : ℕ) (bytes : List Byte) :
    (payloadFrom resolve fuel bytes).events = (answersFrom resolve fuel bytes).1.filterMap id ∧
      (payloadFrom resolve fuel bytes).error = (answersFrom resolve fuel bytes).2 := by
  induction fuel generalizing bytes with
  | zero => exact ⟨rfl, rfl⟩
  | succ fuel ih =>
      rw [payloadFrom, answersFrom]
      split
      next => exact ⟨rfl, rfl⟩
      next =>
      cases recordLen bytes with
      | none => exact ⟨rfl, rfl⟩
      | some len =>
          obtain ⟨hevents, herror⟩ := ih (bytes.drop len)
          dsimp only
          cases decode (bytes.take len) resolve with
          | ok event =>
              cases event with
              | none => exact ⟨hevents, herror⟩
              | some event => exact ⟨congrArg (event :: ·) hevents, herror⟩
          | error e =>
              cases e with
              | truncated | malformed => exact ⟨rfl, rfl⟩
              | version | kind => exact ⟨hevents, herror⟩

/-! ## Records by their bodies -/

/-- A body behind its length. -/
def prefixed (body : List Byte) : List Byte := le32 (UInt32.ofNat body.length) ++ body

section

variable {body : List Byte}

theorem length_prefixed (body : List Byte) : (prefixed body).length = body.length + 4 := by
  rw [prefixed, List.length_append, length_le32, Nat.add_comm]

theorem declared_prefixed (h : body.length < 2 ^ 32) (more : List Byte) :
    declared (prefixed body ++ more) = body.length := by
  have htake : (prefixed body ++ more).take 4 = le32 (UInt32.ofNat body.length) := by
    rw [prefixed, List.append_assoc]
    exact List.take_left' (length_le32 _)
  rw [declared, htake, le32, ofLE_toLE_of_lt (UInt32.toNat_lt _), UInt32.toNat_ofNat_of_lt' h]

theorem recordLen_prefixed (h : body.length < 2 ^ 32) (more : List Byte) :
    recordLen (prefixed body ++ more) = some (prefixed body).length := by
  have hlen : (prefixed body ++ more).length = body.length + 4 + more.length := by
    rw [List.length_append, length_prefixed]
  rw [recordLen, declared_prefixed h, if_pos (by omega), length_prefixed]
  exact if_pos (by omega)

/-- The event of a body that was read to its end. -/
def whole (read : Option Event × List Byte) : Except RecordError (Option Event) :=
  if read.1.isSome && !read.2.isEmpty then
    .error (.malformed "the body carries more bytes than this event's shape")
  else .ok read.1

/-- A body too short for a version and a kind is refused before either is read. -/
theorem decode_prefixed (h : body.length < 2 ^ 32) (resolve : List Byte → Option InstrumentRef) :
    decode (prefixed body) resolve =
      if body.length < 2 then .error .truncated
      else readBody resolve body >>= whole := by
  have hdeclared := declared_prefixed h []
  rw [List.append_nil] at hdeclared
  have hdrop : (prefixed body).drop 4 = body := List.drop_left' (length_le32 _)
  have hlen := length_prefixed body
  rw [decode, hdeclared, hdrop, List.take_length, HEADER]
  by_cases hshort : body.length < 2
  · rw [if_pos (by omega), if_pos hshort]
  · rw [if_neg (by omega), if_neg (by omega), if_neg hshort]
    rfl

end

/-! ## What a writer may send -/

/-- The kinds that have fields. -/
def KINDS : List Byte := [KIND_QUOTE, KIND_QUOTE_UPDATE_ID, KIND_TRADE, KIND_LEVEL, KIND_CLEAR]

/-- A complete record: one of this build's writer, one of another version, or one of a kind that this
build does not know. -/
inductive Sent where
  | written (x : Statement)
  | newer (version : Byte) (behind : List Byte) (hversion : version ≠ VERSION)
      (hlen : behind.length + 1 < 2 ^ 32)
  | unknown (kind : Byte) (behind : List Byte) (hkind : kind ∉ KINDS)
      (hlen : behind.length + 2 < 2 ^ 32)

namespace Sent

def body : Sent → List Byte
  | .written x => RecordWriter.body x.symbol x.event
  | .newer version behind _ _ => version :: behind
  | .unknown kind behind _ _ => VERSION :: kind :: behind

def bytes (s : Sent) : List Byte := prefixed s.body

/-- The event of a record of a known kind whose symbol is admitted. -/
def expected (resolve : List Byte → Option InstrumentRef) : Sent → Option Event
  | .written x => (resolve x.symbol).map x.event.withHandle
  | .newer .. | .unknown .. => none

/-- What a text is cut to. -/
def cut (text : List Byte) : List Byte := text.take (2 ^ 16 - 1)

/-- What the reader needs of a record, and the length in front of it does not promise. -/
def Readable (resolve : List Byte → Option InstrumentRef) : Sent → Prop
  | .written x => isUtf8 (cut x.symbol) = true ∧ resolve (cut x.symbol) = resolve x.symbol ∧
      (resolve x.symbol ≠ none → ∀ text ∈ x.event.texts, text.length < 2 ^ 16)
  | .newer _ behind _ _ => behind ≠ []
  | .unknown _ behind _ _ => ∃ symbol rest, Fits symbol ∧ behind = RecordWriter.str symbol ++ rest ∧
      (resolve symbol ≠ none → 8 ≤ rest.length)

end Sent

/-! ## The fields never ask to be stepped over -/

/-- An error that ends the stream. -/
def Fatal (e : RecordError) : Prop := e = .truncated ∨ ∃ detail, e = .malformed detail

theorem fatal_truncated : Fatal .truncated := .inl rfl

theorem fatal_malformed (detail : String) : Fatal (.malformed detail) := .inr ⟨detail, rfl⟩

theorem answer_error {e : RecordError} (h : Fatal e) : ∃ why, answer (.error e) = .error why := by
  rcases h with rfl | ⟨detail, rfl⟩
  · exact ⟨_, rfl⟩
  · exact ⟨_, rfl⟩

section

open Reading (FailsOnly)

variable {α : Type}

theorem str_fatal : FailsOnly Fatal Reader.str :=
  (FailsOnly.word16 fatal_truncated).bind fun _ ↦ (FailsOnly.take fatal_truncated _).bind fun _ ↦
    (FailsOnly.pure _).ite (FailsOnly.throw (fatal_malformed _))

theorem scalar_fatal : FailsOnly Fatal Reader.scalar := by
  refine (FailsOnly.byte fatal_truncated).bind fun tag ↦ ?_
  refine FailsOnly.ite (str_fatal.bind fun _ ↦ FailsOnly.pure _) (FailsOnly.ite ?_ ?_)
  · exact (FailsOnly.word64 fatal_truncated).map.bind fun _ ↦
      (FailsOnly.byte fatal_truncated).map.bind fun _ ↦ FailsOnly.pure _
  · exact FailsOnly.throw (fatal_malformed _)

theorem optional_fatal {field : Reader α} (h : FailsOnly Fatal field) :
    FailsOnly Fatal (Reader.optional field) := by
  refine (FailsOnly.byte fatal_truncated).bind fun tag ↦ ?_
  refine FailsOnly.ite (FailsOnly.pure _) (FailsOnly.ite ?_ ?_)
  · exact h.bind fun _ ↦ FailsOnly.pure _
  · exact FailsOnly.throw (fatal_malformed _)

theorem sideUpdate_fatal : FailsOnly Fatal Reader.sideUpdate := by
  refine (FailsOnly.byte fatal_truncated).bind fun tag ↦ ?_
  refine FailsOnly.ite (FailsOnly.pure _) (FailsOnly.ite ?_ ?_)
  · exact scalar_fatal.bind fun _ ↦ scalar_fatal.bind fun _ ↦
      (optional_fatal (FailsOnly.word16 fatal_truncated)).bind fun _ ↦ FailsOnly.pure _
  · exact FailsOnly.throw (fatal_malformed _)

theorem side_fatal : FailsOnly Fatal Reader.side :=
  FailsOnly.tagged fatal_truncated (fatal_malformed _)

theorem clearScope_fatal : FailsOnly Fatal Reader.clearScope := by
  refine (FailsOnly.byte fatal_truncated).bind fun tag ↦ ?_
  refine FailsOnly.ite ?_ (FailsOnly.ite (FailsOnly.pure _) (FailsOnly.ite ?_ ?_))
  · exact side_fatal.bind fun _ ↦ FailsOnly.pure _
  · exact side_fatal.bind fun _ ↦ scalar_fatal.bind fun _ ↦ FailsOnly.pure _
  · exact FailsOnly.throw (fatal_malformed _)

/-- The fields of a known kind are read or end the stream. -/
theorem event_fatal {kind : Byte} (h : kind ∈ KINDS) (i : InstrumentRef) (ts : UInt64) :
    FailsOnly Fatal (Reader.event kind i ts) := by
  rw [Reader.event]
  split
  · exact sideUpdate_fatal.bind fun _ ↦ sideUpdate_fatal.bind fun _ ↦ FailsOnly.pure _
  next hquote =>
  split
  · exact sideUpdate_fatal.bind fun _ ↦ sideUpdate_fatal.bind fun _ ↦
      (FailsOnly.word64 fatal_truncated).bind fun _ ↦ FailsOnly.pure _
  next hid =>
  split
  · exact scalar_fatal.bind fun _ ↦ scalar_fatal.bind fun _ ↦
      (FailsOnly.tagged fatal_truncated (fatal_malformed _)).bind fun _ ↦
      (optional_fatal (FailsOnly.word64 fatal_truncated)).bind fun _ ↦
      (optional_fatal scalar_fatal).bind fun _ ↦
      (FailsOnly.tagged fatal_truncated (fatal_malformed _)).bind fun _ ↦ FailsOnly.pure _
  next htrade =>
  split
  · exact side_fatal.bind fun _ ↦ scalar_fatal.bind fun _ ↦ scalar_fatal.bind fun _ ↦
      (optional_fatal (FailsOnly.word16 fatal_truncated)).bind fun _ ↦
      (FailsOnly.tagged fatal_truncated (fatal_malformed _)).bind fun _ ↦ FailsOnly.pure _
  next hlevel =>
  split
  · exact clearScope_fatal.bind fun _ ↦ FailsOnly.pure _
  next hclear => exact absurd h (by simp [KINDS, hquote, hid, htrade, hlevel, hclear])

end

namespace Sent

theorem length_body_lt (s : Sent) : s.body.length < 2 ^ 32 := by
  cases s with
  | written x => exact Uds.length_body_lt x.symbol x.event
  | newer _ _ _ hlen | unknown _ _ _ hlen => exact hlen

theorem length_bytes_pos (s : Sent) : 0 < s.bytes.length := by
  rw [bytes, length_prefixed]
  exact Nat.succ_pos _

end Sent

/-! ## One record -/

section

variable {resolve : List Byte → Option InstrumentRef} {kind : Byte} {behind rest symbol : List Byte}

/-- The fields behind a symbol that is admitted. -/
def admitted (kind : Byte) (i : InstrumentRef) : Reader (Option Event) := do
  let sourceTsNs ← Reader.u64
  let event ← Reader.event kind i sourceTsNs
  pure (some event)

theorem readBody_kind (resolve : List Byte → Option InstrumentRef) (kind : Byte)
    (behind : List Byte) :
    readBody resolve (VERSION :: kind :: behind) = (do
      let symbol ← Reader.str
      match resolve symbol with
      | none => pure none
      | some handle => admitted kind handle : Reader (Option Event)) behind := by
  rw [readBody]
  refine (byte_exact.bind (a := VERSION) trivial _ (kind :: behind)).trans ?_
  rw [if_neg (not_not.mpr rfl)]
  exact byte_exact.bind (a := kind) trivial _ behind

theorem readBody_symbol (hsymbol : Fits symbol) :
    readBody resolve (VERSION :: kind :: (RecordWriter.str symbol ++ rest)) =
      match resolve symbol with
      | none => .ok (none, rest)
      | some handle => admitted kind handle rest := by
  rw [readBody_kind]
  refine (str_exact.bind hsymbol _ rest).trans ?_
  cases resolve symbol with
  | none => rfl
  | some i => rfl

/-- What a record of this version has behind its kind, when it is read or stepped over. -/
theorem symbol_of_answer {event : Option Event}
    (hlen : (VERSION :: kind :: behind).length < 2 ^ 32)
    (h : answer (decode (prefixed (VERSION :: kind :: behind)) resolve) = .ok event) :
    ∃ symbol rest, Fits symbol ∧ behind = RecordWriter.str symbol ++ rest := by
  cases hstr : Reader.str behind with
  | ok p => exact ⟨p.1, p.2, (str_exact behind p.1 p.2).mp hstr⟩
  | error e =>
      have hbody : readBody resolve (VERSION :: kind :: behind) = .error e := by
        rw [readBody_kind]
        change (Reader.str behind >>= _) = _
        rw [hstr]
        rfl
      obtain ⟨why, hwhy⟩ := answer_error (str_fatal behind e hstr)
      rw [decode_prefixed hlen, if_neg (by simp), hbody] at h
      exact absurd (hwhy.symm.trans h) (by simp)

theorem decode_unresolved (hsymbol : Fits symbol) (hresolve : resolve symbol = none)
    (hlen : (VERSION :: kind :: (RecordWriter.str symbol ++ rest)).length < 2 ^ 32) :
    decode (prefixed (VERSION :: kind :: (RecordWriter.str symbol ++ rest))) resolve =
      .ok none := by
  rw [decode_prefixed hlen, if_neg (by simp), readBody_symbol hsymbol, hresolve]
  rfl

/-- An admitted record without the bytes of a time ends the stream. -/
theorem time_of_answer {event : Option Event} {i : InstrumentRef} (hsymbol : Fits symbol)
    (hresolve : resolve symbol = some i)
    (hlen : (VERSION :: kind :: (RecordWriter.str symbol ++ rest)).length < 2 ^ 32)
    (h : answer (decode (prefixed (VERSION :: kind :: (RecordWriter.str symbol ++ rest))) resolve) =
      .ok event) : 8 ≤ rest.length := by
  by_contra hshort
  have hread : admitted kind i rest = .error .truncated := by
    have htake : Reader.u64 rest = .error .truncated := by
      change (Reading.take RecordError.truncated 8 rest >>= _) = _
      rw [Reading.take, if_neg hshort]
      rfl
    change (Reader.u64 rest >>= _) = _
    rw [htake]
    rfl
  rw [decode_prefixed hlen, if_neg (by simp), readBody_symbol hsymbol, hresolve] at h
  change answer (admitted kind i rest >>= _) = _ at h
  rw [hread] at h
  cases h

/-- A kind without fields is stepped over once its time has been read. -/
theorem decode_unknown {i : InstrumentRef} (hkind : kind ∉ KINDS) (hsymbol : Fits symbol)
    (hresolve : resolve symbol = some i) (htime : 8 ≤ rest.length)
    (hlen : (VERSION :: kind :: (RecordWriter.str symbol ++ rest)).length < 2 ^ 32) :
    decode (prefixed (VERSION :: kind :: (RecordWriter.str symbol ++ rest))) resolve =
      .error (.kind kind) := by
  have hread : admitted kind i rest = .error (.kind kind) := by
    obtain ⟨ts, hts⟩ : ∃ ts, Reader.u64 rest = .ok (ts, rest.drop 8) := by
      refine ⟨UInt64.ofNat (ofLE (rest.take 8)), (word64_exact _ _ _).mpr ⟨trivial, ?_⟩⟩
      rw [le64_ofLE (List.length_take_of_le htime), List.take_append_drop]
    simp only [KINDS, List.mem_cons, List.not_mem_nil, or_false, not_or] at hkind
    obtain ⟨hquote, hid, htrade, hlevel, hclear⟩ := hkind
    change (Reader.u64 rest >>= _) = _
    rw [hts]
    change (Reader.event kind i ts (rest.drop 8) >>= _) = _
    rw [Reader.event, if_neg hquote, if_neg hid, if_neg htrade, if_neg hlevel, if_neg hclear]
    rfl
  rw [decode_prefixed hlen, if_neg (by simp), readBody_symbol hsymbol, hresolve]
  change (admitted kind i rest >>= _) = _
  rw [hread]
  rfl

/-- An admitted record of a known kind is an event or ends the stream. -/
theorem event_of_answer {event : Option Event} {i : InstrumentRef} (hkind : kind ∈ KINDS)
    (hsymbol : Fits symbol) (hresolve : resolve symbol = some i)
    (hlen : (VERSION :: kind :: (RecordWriter.str symbol ++ rest)).length < 2 ^ 32)
    (h : answer (decode (prefixed (VERSION :: kind :: (RecordWriter.str symbol ++ rest))) resolve) =
      .ok event) :
    ∃ e, event = some e ∧
      decode (prefixed (VERSION :: kind :: (RecordWriter.str symbol ++ rest))) resolve =
        .ok (some e) := by
  have hfatal : Reading.FailsOnly Fatal (admitted kind i) :=
    (Reading.FailsOnly.word64 fatal_truncated).bind fun ts ↦
      (event_fatal hkind i ts).bind fun _ ↦ Reading.FailsOnly.pure _
  rw [decode_prefixed hlen, if_neg (by simp), readBody_symbol hsymbol, hresolve] at h ⊢
  dsimp only at h ⊢
  cases hread : admitted kind i rest with
  | error e =>
      obtain ⟨why, hwhy⟩ := answer_error (hfatal rest e hread)
      rw [hread] at h
      exact absurd (hwhy.symm.trans h) (by simp)
  | ok p =>
      obtain ⟨ts, mid, -, hevent⟩ := stateT_bind_ok.mp hread
      obtain ⟨e, mid', -, hpure⟩ := stateT_bind_ok.mp hevent
      obtain ⟨hp, -⟩ := stateT_pure_ok.mp hpure
      rw [hread] at h
      change answer (whole p) = .ok event at h
      change ∃ e, event = some e ∧ whole p = .ok (some e)
      rw [whole] at h ⊢
      split at h
      · cases h
      next hend =>
          rw [if_neg hend]
          exact ⟨e, (Except.ok.inj h).symm.trans hp, congrArg Except.ok hp⟩

end

/-! ## Streams -/

theorem kind_mem (e : Event) : e.kind ∈ KINDS := by
  cases e with
  | quote _ _ _ _ id => cases id <;> simp [Event.kind, KINDS]
  | trade | level | clear => simp [Event.kind, KINDS]

namespace Sent

variable {resolve : List Byte → Option InstrumentRef}

theorem length_cut (text : List Byte) : (cut text).length < 2 ^ 16 := by
  rw [cut, List.length_take]
  omega

theorem str_cut (text : List Byte) : RecordWriter.str (cut text) = RecordWriter.str text := by
  rw [str_of_fits (length_cut text), RecordWriter.str, cut, List.length_take]
  split
  next h => rw [Nat.min_eq_right (Nat.le_sub_one_of_lt h), List.take_of_length_le
    (Nat.le_sub_one_of_lt h), List.take_length]
  next h => rw [Nat.min_eq_left (by omega)]

/-- A written record is the record of its cut symbol. -/
theorem body_written (x : Statement) : (written x).body =
    VERSION :: x.event.kind :: (RecordWriter.str (cut x.symbol) ++
      (le64 x.event.time ++ x.event.fields)) := by
  rw [body, body_eq, str_cut, List.append_assoc]

/-- What the reader takes off the front of a text that was written. -/
theorem symbol_unique {text text' rest rest' : List Byte} (h : Fits text) (h' : text'.length < 2 ^ 16)
    (heq : RecordWriter.str text ++ rest = RecordWriter.str text' ++ rest') : text = text' := by
  rw [str_of_fits h.length, str_of_fits h', List.append_assoc, List.append_assoc] at heq
  obtain ⟨hlen, htext⟩ := List.append_inj heq (by rw [length_le16, length_le16])
  have hlength : text.length = text'.length := by
    have := congrArg ofLE hlen
    rwa [le16, le16, ofLE_toLE_of_lt (UInt16.toNat_lt _), ofLE_toLE_of_lt (UInt16.toNat_lt _),
      UInt16.toNat_ofNat_of_lt' h.length, UInt16.toNat_ofNat_of_lt' h'] at this
  exact (List.append_inj htext hlength).1

theorem body_cut (x : Statement) (i : InstrumentRef) :
    RecordWriter.body (cut x.symbol) (x.event.withHandle i) = (written x).body := by
  rw [Statement.body_withHandle, body_written, body_eq, List.append_assoc]

theorem answer_written (x : Statement) :
    answer (decode (written x).bytes resolve) = .ok ((written x).expected resolve) ↔
      (written x).Readable resolve := by
  have hlen := (written x).length_body_lt
  change answer (decode (prefixed (written x).body) resolve) =
    .ok ((resolve x.symbol).map fun i ↦ x.event.withHandle i) ↔ _
  constructor
  · intro h
    rw [body_written] at hlen h
    obtain ⟨symbol, rest, hsymbol, heq⟩ := symbol_of_answer hlen h
    obtain rfl : symbol = cut x.symbol := symbol_unique hsymbol (length_cut _) heq.symm
    cases hresolve : resolve (cut x.symbol) with
    | none =>
        rw [decode_unresolved hsymbol hresolve hlen] at h
        have hnone : resolve x.symbol = none :=
          Option.map_eq_none_iff.mp (Except.ok.inj h).symm
        exact ⟨hsymbol.utf8, hresolve.trans hnone.symm, fun hne ↦ absurd hnone hne⟩
    | some j =>
        obtain ⟨e, he, hdecode⟩ :=
          event_of_answer (kind_mem x.event) hsymbol hresolve hlen h
        obtain ⟨i, hi, rfl⟩ := Option.map_eq_some_iff.mp he
        obtain ⟨symbol, more, hfits, hevent, hadmitted, hbytes⟩ := decode_ok.mp hdecode
        rw [Statement.handle_withHandle] at hadmitted
        rw [EventFits, Statement.texts_withHandle] at hevent
        rw [prefixed, record, List.append_assoc] at hbytes
        obtain ⟨-, hbody⟩ := List.append_inj hbytes (by rw [length_le32, length_le32])
        rw [body_eq, List.cons_append, List.cons_append, List.append_assoc, List.append_assoc] at hbody
        have hcut : cut x.symbol = symbol := symbol_unique hsymbol hfits.length
          (List.tail_eq_of_cons_eq (List.tail_eq_of_cons_eq hbody))
        refine ⟨hsymbol.utf8, ?_, fun _ text htext ↦ (hevent text htext).length⟩
        rw [hcut, hadmitted, hi]
  · rintro ⟨hutf8, hresolve, hshort⟩
    have hsymbol : Fits (cut x.symbol) := ⟨hutf8, length_cut _⟩
    cases hadmitted : resolve x.symbol with
    | none =>
        rw [hadmitted] at hresolve
        rw [body_written] at hlen ⊢
        rw [decode_unresolved hsymbol hresolve hlen]
        rfl
    | some i =>
        rw [hadmitted] at hresolve hshort
        have hevent : EventFits (x.event.withHandle i) := by
          intro text htext
          rw [Statement.texts_withHandle] at htext
          exact ⟨x.utf8 text (List.mem_cons_of_mem _ htext), hshort (Option.some_ne_none i) text htext⟩
        have hread : decode (prefixed (written x).body) resolve =
            .ok (some (x.event.withHandle i)) := by
          refine decode_ok.mpr ⟨cut x.symbol, [], hsymbol, hevent, ?_, ?_⟩
          · rw [Statement.handle_withHandle, hresolve]
          · rw [List.append_nil, ← body_cut x i]
            rfl
        rw [hread]
        rfl

/-- A record hands over what it should exactly when the reader gets what it needs of it. -/
theorem answer_iff (s : Sent) :
    answer (decode s.bytes resolve) = .ok (s.expected resolve) ↔ s.Readable resolve := by
  have hlen := s.length_body_lt
  rw [bytes]
  cases s with
  | newer version behind hversion _ =>
      change (version :: behind).length < 2 ^ 32 at hlen
      change answer (decode (prefixed (version :: behind)) resolve) = .ok none ↔ behind ≠ []
      rw [decode_prefixed hlen]
      cases behind with
      | nil => simp [answer]
      | cons b behind =>
          have hread : readBody resolve (version :: b :: behind) = .error (.version version) := by
            rw [readBody]
            refine (byte_exact.bind (a := version) trivial _ (b :: behind)).trans ?_
            rw [if_pos hversion]
            rfl
          rw [if_neg (by simp), hread]
          exact ⟨fun _ ↦ List.cons_ne_nil _ _, fun _ ↦ rfl⟩
  | unknown kind behind hkind _ =>
      change (VERSION :: kind :: behind).length < 2 ^ 32 at hlen
      change answer (decode (prefixed (VERSION :: kind :: behind)) resolve) = .ok none ↔
        ∃ symbol rest, Fits symbol ∧ behind = RecordWriter.str symbol ++ rest ∧
          (resolve symbol ≠ none → 8 ≤ rest.length)
      constructor
      · intro h
        obtain ⟨symbol, rest, hsymbol, rfl⟩ := symbol_of_answer hlen h
        refine ⟨symbol, rest, hsymbol, rfl, fun hadmitted ↦ ?_⟩
        obtain ⟨i, hi⟩ := Option.ne_none_iff_exists'.mp hadmitted
        exact time_of_answer hsymbol hi hlen h
      · rintro ⟨symbol, rest, hsymbol, rfl, htime⟩
        cases hresolve : resolve symbol with
        | none => rw [decode_unresolved hsymbol hresolve hlen, answer]
        | some i =>
            have hne : resolve symbol ≠ none := by rw [hresolve]; exact Option.some_ne_none i
            rw [decode_unknown hkind hsymbol hresolve (htime hne) hlen, answer]
  | written x => exact answer_written x

/-- The payload of some records. -/
def payload (sent : List Sent) : List Byte := sent.flatMap bytes

/-- The adapter reads the payload to its end, and hands over behind each record's upstream message
what the record should. -/
def SteppedThrough (resolve : List Byte → Option InstrumentRef) (sent : List Sent) : Prop :=
  answers resolve (payload sent) = (sent.map (expected resolve), none)

theorem answersFrom_cons (s : Sent) (sent : List Sent) (fuel : ℕ) :
    answersFrom resolve (fuel + 1) (payload (s :: sent)) =
      match answer (decode s.bytes resolve) with
      | .error e => ([], some e)
      | .ok event =>
          let more := answersFrom resolve fuel (payload sent)
          (event :: more.1, more.2) := by
  have hne : s.bytes ++ payload sent ≠ [] := by
    intro h
    have hpos := s.length_bytes_pos
    rw [(List.append_eq_nil_iff.mp h).1] at hpos
    exact absurd hpos (Nat.lt_irrefl 0)
  have hlen : recordLen (s.bytes ++ payload sent) = some s.bytes.length :=
    recordLen_prefixed s.length_body_lt _
  rw [payload, List.flatMap_cons, ← payload, answersFrom, if_neg hne, hlen]
  dsimp only
  rw [List.take_left, List.drop_left]

theorem answersFrom_iff (sent : List Sent) {fuel : ℕ} (hfuel : sent.length ≤ fuel) :
    answersFrom resolve fuel (payload sent) = (sent.map (expected resolve), none) ↔
      ∀ s ∈ sent, s.Readable resolve := by
  induction sent generalizing fuel with
  | nil =>
      have hnil : answersFrom resolve fuel (payload []) = ([], none) := by cases fuel <;> rfl
      exact ⟨fun _ ↦ List.forall_mem_nil _, fun _ ↦ hnil⟩
  | cons s sent ih =>
      obtain ⟨fuel, rfl⟩ := Nat.exists_eq_add_one_of_ne_zero (Nat.ne_zero_of_lt hfuel)
      have hrest := ih (Nat.le_of_succ_le_succ hfuel)
      rw [answersFrom_cons, List.map_cons, List.forall_mem_cons, ← answer_iff, ← hrest]
      cases answer (decode s.bytes resolve) with
      | error why => simp
      | ok event => simp [Prod.ext_iff, and_assoc]

theorem length_le_payload (sent : List Sent) : sent.length ≤ (payload sent).length := by
  induction sent with
  | nil => exact Nat.le_refl _
  | cons s sent ih =>
      have hpos := s.length_bytes_pos
      rw [payload, List.flatMap_cons, ← payload, List.length_append, List.length_cons]
      omega

/-- **A stream of complete records is stepped through exactly when each of them has behind its length
what the reader takes off it before it looks at the kind**; the events are then those of the
known kinds whose symbols are admitted, in order. -/
theorem steppedThrough_iff (resolve : List Byte → Option InstrumentRef) (sent : List Sent) :
    (SteppedThrough resolve sent ↔ ∀ s ∈ sent, s.Readable resolve) ∧
      (SteppedThrough resolve sent → (onPayload resolve (payload sent)).error = none ∧
        (onPayload resolve (payload sent)).events = sent.filterMap (expected resolve)) := by
  refine ⟨answersFrom_iff sent (length_le_payload sent), fun h ↦ ?_⟩
  obtain ⟨hevents, herror⟩ := payloadFrom_eq resolve (payload sent).length (payload sent)
  rw [SteppedThrough, answers] at h
  rw [h] at hevents herror
  exact ⟨herror, hevents.trans (by rw [List.filterMap_map, Function.id_comp])⟩

/-- A record of a kind of a newer writer, with nothing behind it. -/
def newerKind : Sent := .unknown 6 [] (by decide) (by decide)

/-- It ends the stream, and the records behind it are not read. -/
theorem not_steppedThrough_newerKind :
    (onPayload (fun _ ↦ none) (payload [newerKind])).error =
        some (.truncated "a record declared more than it held") ∧
      ¬SteppedThrough (fun _ ↦ none) [newerKind] := by
  have hread : answers (fun _ ↦ none) (payload [newerKind]) =
      ([], some (.truncated "a record declared more than it held")) := by decide
  refine ⟨(payloadFrom_eq _ _ _).2.trans (congrArg Prod.snd hread), fun h ↦ ?_⟩
  exact absurd (congrArg Prod.snd (hread.symm.trans h)) (by decide)

end Sent

end EdgeMulticast.Uds
