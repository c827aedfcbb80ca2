import EdgeMulticast.Fix.Framing
import EdgeMulticast.Lib.Delimited

/-!
# Fields, and bodies that a caller composed

A message is a sequence of fields `tag=value|`.  `fields` reads them, and `Spells` says which
bytes spell which fields: the tag as `str::parse` reads a number, the value up to the separator.

The adapter composes the body of a message.  `Body.parse` refuses one that states a tag which is
the transport's own, in any spelling that `fields` understands (`Body.composed_of_parse`).
-/

namespace EdgeMulticast.Fix

open EdgeMulticast.Lib

def EQUALS : Byte := 0x3d

def U32_MAX : ℕ := 2 ^ 32 - 1

def TAG_BEGIN_STRING : ℕ := 8

def TAG_BODY_LENGTH : ℕ := 9

def TAG_CHECKSUM : ℕ := 10

def TAG_MSG_SEQ_NUM : ℕ := 34

def TAG_MSG_TYPE : ℕ := 35

def TAG_SENDING_TIME : ℕ := 52

def TAG_RESET_SEQ_NUM_FLAG : ℕ := 141

/-- The tags of the transport. -/
def ownedTags : List ℕ :=
  [TAG_BEGIN_STRING, TAG_BODY_LENGTH, TAG_MSG_SEQ_NUM, TAG_SENDING_TIME, TAG_RESET_SEQ_NUM_FLAG,
    TAG_CHECKSUM]

/-- Why a tag is the transport's and not a caller's. -/
def ownedTagReason (tag : ℕ) : Option String :=
  if tag = TAG_BEGIN_STRING then some "the protocol version is this crate's to state"
  else if tag = TAG_BODY_LENGTH then
    some "the declared length is computed over the framed message"
  else if tag = TAG_MSG_SEQ_NUM then some "the outbound sequence belongs to the session"
  else if tag = TAG_SENDING_TIME then
    some "the sending time is stamped when the message is framed"
  else if tag = TAG_RESET_SEQ_NUM_FLAG then
    some "this transport always resets at logon and always states the flag"
  else if tag = TAG_CHECKSUM then some "the checksum is computed over the framed message"
  else none

theorem ownedTagReason_eq_none_iff {tag : ℕ} : ownedTagReason tag = none ↔ tag ∉ ownedTags := by
  simp only [ownedTags, List.mem_cons, List.not_mem_nil, or_false, not_or]
  constructor
  · intro h
    rw [ownedTagReason] at h
    split_ifs at h with h₁ h₂ h₃ h₄ h₅ h₆
    exact ⟨h₁, h₂, h₃, h₄, h₅, h₆⟩
  · rintro ⟨h₁, h₂, h₃, h₄, h₅, h₆⟩
    rw [ownedTagReason, if_neg h₁, if_neg h₂, if_neg h₃, if_neg h₄, if_neg h₅, if_neg h₆]

/-! ## Fields -/

/-- A field, as it appeared. -/
structure Field where
  tag : ℕ
  value : List Byte
deriving DecidableEq, Repr

/-- The next field, and what is behind it. -/
def nextField (rest : List Byte) : Option (Field × List Byte) :=
  if rest = [] then none
  else match rest.findIdx? (· = SOH) with
    | none => none
    | some ends =>
        let field := rest.take ends
        match field.findIdx? (· = EQUALS) with
        | none => none
        | some equals =>
            match parseUnsigned U32_MAX (field.take equals) with
            | none => none
            | some tag => some (⟨tag, field.drop (equals + 1)⟩, rest.drop (ends + 1))

/-- The fields up to the first that cannot be read, at most `fuel` of them. -/
def fieldsUpTo : ℕ → List Byte → List Field
  | 0, _ => []
  | fuel + 1, rest =>
      match nextField rest with
      | none => []
      | some (field, rest) => field :: fieldsUpTo fuel rest

/-- Every field, in order.  Each takes a byte at least. -/
def fields (bytes : List Byte) : List Field := fieldsUpTo bytes.length bytes

/-- The message type: the third field, and only the third. -/
def msgType (message : List Byte) : Option (List Byte) :=
  match (fields message)[2]? with
  | none => none
  | some third =>
      if third.tag ≠ TAG_MSG_TYPE then none
      else if isUtf8 third.value then some third.value else none

/-- Which bytes spell which fields. -/
inductive Spells : List Byte → List Field → Prop where
  | nil : Spells [] []
  | cons {text value rest : List Byte} {tag : ℕ} {fs : List Field} (tag_parses : Parses text tag)
      (tag_fits : tag ≤ U32_MAX) (value_free : SOH ∉ value) (rest_spells : Spells rest fs) :
      Spells (text ++ EQUALS :: (value ++ SOH :: rest)) (⟨tag, value⟩ :: fs)

variable {text value bytes bytes' rest : List Byte} {tag : ℕ} {fs fs' : List Field}

theorem notMem_of_parses {b : Byte} (hdigit : ¬isDigit b) (hsign : b ≠ 43) (h : Parses text tag) :
    b ∉ text := by
  intro hmem
  exact (h.of_mem b hmem).elim hdigit hsign

theorem nextField_cons (htag : Parses text tag) (hfits : tag ≤ U32_MAX) (hfree : SOH ∉ value)
    (rest : List Byte) :
    nextField (text ++ EQUALS :: (value ++ SOH :: rest)) = some (⟨tag, value⟩, rest) := by
  have hequals : EQUALS ∉ text := notMem_of_parses (by decide) (by decide) htag
  have hfield : SOH ∉ text ++ EQUALS :: value := by
    simp only [List.mem_append, List.mem_cons, not_or]
    exact ⟨notMem_of_parses (by decide) (by decide) htag, by decide, hfree⟩
  have hshape : text ++ EQUALS :: (value ++ SOH :: rest) =
      (text ++ EQUALS :: value) ++ SOH :: rest := by
    rw [List.append_assoc, List.cons_append]
  have hne : text ++ EQUALS :: (value ++ SOH :: rest) ≠ [] :=
    List.append_ne_nil_of_right_ne_nil _ (List.cons_ne_nil _ _)
  have hrest : ((text ++ EQUALS :: value) ++ SOH :: rest).drop
      ((text ++ EQUALS :: value).length + 1) = rest := drop_sep _ _ _
  have hvalue : (text ++ EQUALS :: value).drop (text.length + 1) = value := drop_sep _ _ _
  rw [nextField, if_neg hne, hshape, findIdx?_sep hfield]
  dsimp only
  rw [List.take_left, findIdx?_sep hequals]
  dsimp only
  rw [List.take_left, parseUnsigned_eq_some_iff.mpr ⟨htag, hfits⟩, hrest, hvalue]

theorem fieldsUpTo_of_spells {fuel : ℕ} (h : Spells bytes fs) (hfuel : bytes.length ≤ fuel) :
    fieldsUpTo fuel bytes = fs := by
  induction h generalizing fuel with
  | nil => cases fuel <;> rfl
  | cons htag hfits hfree _ ih =>
      cases fuel with
      | zero =>
          rw [List.length_append] at hfuel
          exact absurd hfuel (by simp only [List.length_cons]; omega)
      | succ fuel =>
          rw [fieldsUpTo, nextField_cons htag hfits hfree]
          dsimp only
          rw [ih (by simp only [List.length_append, List.length_cons] at hfuel; omega)]

/-- What is spelled is read. -/
theorem fields_of_spells (h : Spells bytes fs) : fields bytes = fs :=
  fieldsUpTo_of_spells h le_rfl

theorem Spells.append (h : Spells bytes fs) (h' : Spells bytes' fs') :
    Spells (bytes ++ bytes') (fs ++ fs') := by
  induction h with
  | nil => exact h'
  | cons htag hfits hfree _ ih =>
      simp only [List.append_assoc, List.cons_append]
      exact .cons htag hfits hfree ih

theorem Spells.single (htag : Parses text tag) (hfits : tag ≤ U32_MAX) (hfree : SOH ∉ value) :
    Spells (text ++ EQUALS :: (value ++ [SOH])) [⟨tag, value⟩] :=
  .cons htag hfits hfree .nil

/-- What is spelled ends with a separator. -/
theorem Spells.getLast?_eq (h : Spells bytes fs) (hne : bytes ≠ []) :
    bytes.getLast? = some SOH := by
  induction h with
  | nil => exact absurd rfl hne
  | @cons text value rest tag fs _ _ _ hrest ih =>
      have hshape : text ++ EQUALS :: (value ++ SOH :: rest) =
          (text ++ EQUALS :: value) ++ SOH :: rest := by
        rw [List.append_assoc, List.cons_append]
      rw [hshape, List.getLast?_append, List.getLast?_cons]
      by_cases hnil : rest = []
      · rw [hnil]
        rfl
      · rw [ih hnil]
        rfl

/-! ## Bodies -/

/-- What of a body is malformed: where in it, and how long what is there is. -/
inductive BodyDetail where
  /-- The last byte is not a separator. -/
  | unterminated (length : ℕ)
  /-- The first field has no `=`. -/
  | firstStatesNoTag (length : ℕ)
  | firstTagNotANumber (length : ℕ)
  | noMessageType
  | fieldNotEnded (index offset length : ℕ)
  /-- A further field has no `=`. -/
  | statesNoTag (index offset length : ℕ)
  | tagNotANumber (index offset length : ℕ)
deriving DecidableEq, Repr

/-- Why a body cannot be framed. -/
inductive BodyError where
  | empty
  | msgTypeNotFirst (found : ℕ)
  | ownedTag (tag : ℕ) (why : String)
  | malformed (detail : BodyDetail)
  | msgTypeNotText
deriving DecidableEq, Repr

/-- A body that was accepted: its message type, and its remaining fields. -/
structure Body where
  msgType : List Byte
  rest : List Byte
deriving DecidableEq, Repr

namespace Body

/-- Read the fields behind the first one, at most `fuel` of them. -/
def checkRest : ℕ → ℕ → ℕ → List Byte → Except BodyError Unit
  | 0, _, _, _ => .ok ()
  | fuel + 1, index, offset, cursor =>
      if cursor = [] then .ok ()
      else match cursor.findIdx? (· = SOH) with
        | none => .error (.malformed (.fieldNotEnded index offset cursor.length))
        | some ends =>
            let field := cursor.take ends
            match field.findIdx? (· = EQUALS) with
            | none => .error (.malformed (.statesNoTag index offset ends))
            | some equals =>
                match parseUnsigned U32_MAX (field.take equals) with
                | none => .error (.malformed (.tagNotANumber index offset equals))
                | some tag =>
                    match ownedTagReason tag with
                    | some why => .error (.ownedTag tag why)
                    | none =>
                        checkRest fuel (index + 1) (offset + (ends + 1)) (cursor.drop (ends + 1))

/-- Read a body, refusing every tag the transport owns. -/
def parse (bytes : List Byte) : Except BodyError Body :=
  if bytes = [] then .error .empty
  else if bytes.getLast? ≠ some SOH then .error (.malformed (.unterminated bytes.length))
  else match bytes.findIdx? (· = SOH) with
    -- the last byte is a separator
    | none => .error (.malformed (.unterminated bytes.length))
    | some firstEnd =>
        let first := bytes.take firstEnd
        match first.findIdx? (· = EQUALS) with
        | none => .error (.malformed (.firstStatesNoTag firstEnd))
        | some equals =>
            match parseUnsigned U32_MAX (first.take equals) with
            | none => .error (.malformed (.firstTagNotANumber equals))
            | some tag =>
                if tag ≠ TAG_MSG_TYPE then .error (.msgTypeNotFirst tag)
                else
                  let msgType := first.drop (equals + 1)
                  if ¬isUtf8 msgType then .error .msgTypeNotText
                  else if msgType = [] then .error (.malformed .noMessageType)
                  else
                    let rest := bytes.drop (firstEnd + 1)
                    match checkRest rest.length 2 (firstEnd + 1) rest with
                    | .error e => .error e
                    | .ok () => .ok { msgType, rest }

/-- The field at the front of what was read, from where its separators are. -/
theorem exists_field {ends equals : ℕ} {bs : List Byte} (hends : bs.findIdx? (· = SOH) = some ends)
    (hequals : (bs.take ends).findIdx? (· = EQUALS) = some equals)
    (htag : parseUnsigned U32_MAX ((bs.take ends).take equals) = some tag) :
    ∃ text value, bs = text ++ EQUALS :: (value ++ SOH :: bs.drop (ends + 1)) ∧
      Parses text tag ∧ tag ≤ U32_MAX ∧ SOH ∉ value ∧
      (bs.take ends).drop (equals + 1) = value := by
  obtain ⟨field, behind, hbs, hfree, rfl⟩ := exists_of_findIdx? hends
  have htake : bs.take field.length = field := by rw [hbs, List.take_left]
  have hdrop : bs.drop (field.length + 1) = behind := by rw [hbs, drop_sep]
  rw [htake] at hequals htag ⊢
  obtain ⟨text, value, hfield, -, rfl⟩ := exists_of_findIdx? hequals
  rw [hfield, List.take_left] at htag
  obtain ⟨hparses, hfits⟩ := parseUnsigned_eq_some_iff.mp htag
  refine ⟨text, value, ?_, hparses, hfits, fun hmem ↦ hfree ?_, ?_⟩
  · rw [hdrop, hbs, hfield, List.append_assoc, List.cons_append]
  · rw [hfield]
    exact List.mem_append_right _ (List.mem_cons_of_mem _ hmem)
  · rw [hfield, drop_sep]

theorem spells_of_checkRest {fuel index offset : ℕ} {cursor : List Byte}
    (hfuel : cursor.length ≤ fuel) (h : checkRest fuel index offset cursor = .ok ()) :
    ∃ fs, Spells cursor fs ∧ ∀ f ∈ fs, f.tag ∉ ownedTags := by
  induction fuel generalizing index offset cursor with
  | zero =>
      rw [List.eq_nil_of_length_eq_zero (Nat.le_zero.mp hfuel)]
      exact ⟨[], .nil, by simp⟩
  | succ fuel ih =>
      rw [checkRest] at h
      split at h
      next hnil => exact ⟨[], hnil ▸ .nil, by simp⟩
      next =>
      split at h
      next => cases h
      next ends hends =>
      dsimp only at h
      split at h
      next => cases h
      next equals hequals =>
      split at h
      next => cases h
      next tag htag =>
      split at h
      next => cases h
      next howned =>
      obtain ⟨text, value, hcursor, hparses, hfits, hfree, -⟩ := exists_field hends hequals htag
      obtain ⟨fs, hspells, hothers⟩ := ih (by rw [List.length_drop]; omega) h
      refine ⟨⟨tag, value⟩ :: fs, hcursor ▸ .cons hparses hfits hfree hspells, ?_⟩
      intro f hf
      rcases List.mem_cons.mp hf with rfl | hf
      · exact ownedTagReason_eq_none_iff.mp howned
      · exact hothers f hf

/-- What an accepted body holds: a message type, and fields of which none is the transport's. -/
structure Composed (body : Body) : Prop where
  msgType_ne : body.msgType ≠ []
  msgType_text : isUtf8 body.msgType
  msgType_free : SOH ∉ body.msgType
  rest_spells : ∃ fs, Spells body.rest fs ∧ ∀ f ∈ fs, f.tag ∉ ownedTags

theorem composed_of_parse {body : Body} (h : parse bytes = .ok body) : body.Composed := by
  rw [parse] at h
  split at h
  · cases h
  split at h
  · cases h
  split at h
  · cases h
  next ends hends =>
  dsimp only at h
  split at h
  next => cases h
  next equals hequals =>
  split at h
  next => cases h
  next tag htag =>
  split at h
  next => cases h
  next =>
  split at h
  next => cases h
  next hutf8 =>
  split at h
  next => cases h
  next hne =>
  split at h
  next => cases h
  next hrest =>
  cases h
  obtain ⟨text, value, -, -, -, hfree, hvalue⟩ := exists_field hends hequals htag
  exact {
    msgType_ne := hne
    msgType_text := not_not.mp hutf8
    msgType_free := hvalue.symm ▸ hfree
    rest_spells := spells_of_checkRest le_rfl hrest }

/-- Fields that are spelled, none of them the transport's, are accepted. -/
theorem checkRest_of_spells {fuel index offset : ℕ} (h : Spells bytes fs)
    (howned : ∀ f ∈ fs, f.tag ∉ ownedTags) (hfuel : bytes.length ≤ fuel) :
    checkRest fuel index offset bytes = .ok () := by
  induction h generalizing fuel index offset with
  | nil =>
      cases fuel with
      | zero => rfl
      | succ fuel => rw [checkRest, if_pos rfl]
  | @cons text value rest tag fs htag hfits hfree _ ih =>
      cases fuel with
      | zero =>
          rw [List.length_append] at hfuel
          exact absurd hfuel (by simp only [List.length_cons]; omega)
      | succ fuel =>
          have hfield : SOH ∉ text ++ EQUALS :: value := by
            simp only [List.mem_append, List.mem_cons, not_or]
            exact ⟨notMem_of_parses (by decide) (by decide) htag, by decide, hfree⟩
          have hequals : EQUALS ∉ text := notMem_of_parses (by decide) (by decide) htag
          have hshape : text ++ EQUALS :: (value ++ SOH :: rest) =
              (text ++ EQUALS :: value) ++ SOH :: rest := by
            rw [List.append_assoc, List.cons_append]
          have hne : text ++ EQUALS :: (value ++ SOH :: rest) ≠ [] :=
            List.append_ne_nil_of_right_ne_nil _ (List.cons_ne_nil _ _)
          have hown : ownedTagReason tag = none :=
            ownedTagReason_eq_none_iff.mpr (howned _ List.mem_cons_self)
          rw [checkRest, if_neg hne, hshape, findIdx?_sep hfield]
          dsimp only
          rw [List.take_left, findIdx?_sep hequals]
          dsimp only
          rw [List.take_left, parseUnsigned_eq_some_iff.mpr ⟨htag, hfits⟩]
          dsimp only
          rw [hown]
          dsimp only
          rw [drop_sep]
          refine ih (fun f hf ↦ howned f (List.mem_cons_of_mem _ hf)) ?_
          simp only [List.length_append, List.length_cons] at hfuel
          omega

/-- A message type and fields that are spelled behind it are a body. -/
theorem parse_of_spells {type : List Byte} (htag : Parses text TAG_MSG_TYPE) (htext : isUtf8 type)
    (hne : type ≠ []) (hfree : SOH ∉ type) (h : Spells rest fs)
    (howned : ∀ f ∈ fs, f.tag ∉ ownedTags) :
    parse (text ++ EQUALS :: (type ++ SOH :: rest)) = .ok ⟨type, rest⟩ := by
  have hall : Spells (text ++ EQUALS :: (type ++ SOH :: rest)) (⟨TAG_MSG_TYPE, type⟩ :: fs) :=
    .cons htag (by decide) hfree h
  have hbytes : text ++ EQUALS :: (type ++ SOH :: rest) ≠ [] :=
    List.append_ne_nil_of_right_ne_nil _ (List.cons_ne_nil _ _)
  have hfield : SOH ∉ text ++ EQUALS :: type := by
    simp only [List.mem_append, List.mem_cons, not_or]
    exact ⟨notMem_of_parses (by decide) (by decide) htag, by decide, hfree⟩
  have hequals : EQUALS ∉ text := notMem_of_parses (by decide) (by decide) htag
  have hlast := hall.getLast?_eq hbytes
  rw [parse, if_neg hbytes, if_neg (not_not_intro hlast)]
  have hshape : text ++ EQUALS :: (type ++ SOH :: rest) =
      (text ++ EQUALS :: type) ++ SOH :: rest := by
    rw [List.append_assoc, List.cons_append]
  rw [hshape, findIdx?_sep hfield]
  dsimp only
  rw [List.take_left, findIdx?_sep hequals]
  dsimp only
  rw [List.take_left, parseUnsigned_eq_some_iff.mpr ⟨htag, by decide⟩]
  dsimp only
  rw [if_neg (not_not_intro rfl), drop_sep, if_neg (not_not_intro htext), if_neg hne, drop_sep,
    checkRest_of_spells h howned le_rfl]

end Body

/-- The values of the fields that a text spells hold no separator. -/
theorem value_free_of_mem_fieldsUpTo {fuel : ℕ} {f : Field} (h : f ∈ fieldsUpTo fuel bytes) :
    SOH ∉ f.value := by
  induction fuel generalizing bytes with
  | zero => cases h
  | succ fuel ih =>
      rw [fieldsUpTo] at h
      split at h
      next => cases h
      next field rest hnext =>
          rcases List.mem_cons.mp h with rfl | h
          · rw [nextField] at hnext
            split at hnext
            next => cases hnext
            next =>
            split at hnext
            next => cases hnext
            next ends hends =>
            dsimp only at hnext
            split at hnext
            next => cases hnext
            next equals hequals =>
            split at hnext
            next => cases hnext
            next tag htag =>
            cases hnext
            obtain ⟨text, value, -, -, -, hfree, hvalue⟩ := Body.exists_field hends hequals htag
            exact hvalue ▸ hfree
          · exact ih h

end EdgeMulticast.Fix
