import EdgeMulticast.Fix.Silence

/-!
# What a session writes

The messages that are out whole on one stream carry the numbers from one on, the adapter's logon
goes out first and alone until the venue has answered it, and a test request of the venue is
answered before anything else is done (`Disciplined`).

`Wire` is what the trace says of the stream, and `InStep` that the session agrees with it.  An
answer that is out carries the identifier that was asked exactly where that is text, which is what
`Answerable` asks of the venue; what it asks of the stream is that it takes the answers.
-/

namespace EdgeMulticast.Fix

open EdgeMulticast.Lib

/-- Every value that a message states for a tag. -/
def valuesOf (message : List Byte) (tag : ℕ) : List (List Byte) :=
  ((fields message).filter (·.tag = tag)).map Field.value

/-! ## Framed messages -/

namespace Send

variable (s : Send)

/-- The caller's fields state no tag of the transport. -/
theorem ownFields_filter {tag : ℕ} (htag : tag ∈ ownedTags) :
    s.ownFields.filter (·.tag = tag) = [] := by
  rw [List.filter_eq_nil_iff]
  intro f hf heq
  exact s.spells_rest.2 f hf (of_decide_eq_true heq ▸ htag)

theorem valuesOf_sequence : valuesOf s.message TAG_MSG_SEQ_NUM = [decimal s.seq] := by
  rw [valuesOf, fields_message, written, List.filter_append, List.filter_append,
    List.filter_append, ownFields_filter s (by decide)]
  cases s.resetSequence with
  | false => rfl
  | true => rfl

theorem valuesOf_reset : valuesOf s.message TAG_RESET_SEQ_NUM_FLAG =
    if s.resetSequence then [ascii "Y"] else [] := by
  rw [valuesOf, fields_message, written, List.filter_append, List.filter_append,
    List.filter_append, ownFields_filter s (by decide)]
  cases s.resetSequence with
  | false => rfl
  | true => rfl

/-- Another tag is stated where the caller stated it. -/
theorem valuesOf_own {tag : ℕ} (htag : tag ∉ ownedTags) (htype : tag ≠ TAG_MSG_TYPE) :
    valuesOf s.message tag = (s.ownFields.filter (·.tag = tag)).map Field.value := by
  have hown (fs : List Field) (h : ∀ f ∈ fs, f.tag ∈ TAG_MSG_TYPE :: ownedTags) :
      fs.filter (·.tag = tag) = [] := by
    rw [List.filter_eq_nil_iff]
    intro f hf heq
    rcases List.mem_cons.mp (of_decide_eq_true heq ▸ h f hf) with heq | hmem
    · exact htype heq
    · exact htag hmem
  have hreset : (if s.resetSequence then [(⟨TAG_RESET_SEQ_NUM_FLAG, ascii "Y"⟩ : Field)]
      else []).filter (·.tag = tag) = [] := by
    cases s.resetSequence with
    | false => rfl
    | true => exact hown _ (List.forall_mem_singleton.mpr (by decide))
  have hfront : [(⟨TAG_BEGIN_STRING, BEGIN_STRING⟩ : Field),
      ⟨TAG_BODY_LENGTH, decimal s.span.length⟩, ⟨TAG_MSG_TYPE, s.body.msgType⟩,
      ⟨TAG_MSG_SEQ_NUM, decimal s.seq⟩, ⟨TAG_SENDING_TIME, s.sendingTime⟩].filter
        (·.tag = tag) = [] := by
    refine hown _ ?_
    simp only [List.forall_mem_cons]
    decide
  have hsum : TAG_CHECKSUM ∈ TAG_MSG_TYPE :: ownedTags := by decide
  rw [valuesOf, fields_message, written, List.filter_append, List.filter_append,
    List.filter_append, hreset, hfront, hown _ (List.forall_mem_singleton.mpr hsum),
    List.append_nil, List.append_nil, List.nil_append]

end Send

/-- A message that is framed for a session. -/
def sendOf {text : List Byte} {body : Body} (h : Body.parse text = .ok body) (seq wall : ℕ)
    (resetSequence : Bool) : Send where
  text
  body
  accepted := h
  seq
  sendingTime := sendingTime wall
  time_free := SOH_notMem_sendingTime wall
  resetSequence

/-! ## What the trace says -/

/-- What the trace of a session says of what is on its stream. -/
structure Wire where
  /-- How many messages are out whole. -/
  count : ℕ := 0
  /-- Whether the venue's logon has been received. -/
  answered : Bool := false
  /-- The identifier of a test request that has no answer yet. -/
  asked : Option (List Byte) := none
deriving DecidableEq, Repr

namespace Wire

/-- The identifier that a message asks for, of an established session. -/
def question (w : Wire) (message : List Byte) : Option (List Byte) :=
  if w.answered ∧ msgType message = some TEST_REQUEST then
    some ((fieldOf message TAG_TEST_REQ_ID).getD [])
  else none

def note (w : Wire) : Event → Wire
  | .opened _ => {}
  | .wrote .. => { w with count := w.count + 1, asked := none }
  | .took message _ =>
      { w with
        answered := w.answered || msgType message = some LOGON
        asked := w.question message }
  | .stated _ | .cut .. | .checks _ | .awaits .. | .reads .. | .fed _ | .silent .. | .closed => w

end Wire

/-- A message that is out whole is the next one, and it is one that may be written. -/
structure Orderly (w : Wire) (kind : Kind) (message : List Byte) : Prop where
  sequence : valuesOf message TAG_MSG_SEQ_NUM = [decimal (w.count + 1)]
  reset : valuesOf message TAG_RESET_SEQ_NUM_FLAG = if w.count = 0 then [ascii "Y"] else []
  first : kind = .logon ↔ w.count = 0
  logon : kind = .logon → msgType message = some LOGON
  allowed : kind = .logon ∨ w.answered
  answer : kind = .answer ↔ w.asked.isSome
  echo : ∀ id ∈ w.asked, msgType message = some HEARTBEAT ∧ valuesOf message TAG_TEST_REQ_ID = [id]

/-- What is on the stream is in order, also where a write was cut, and a test request is answered
before anything else is done. -/
def Disciplined (w : Wire) : Event → Prop
  | .wrote kind message _ => Orderly w kind message
  | .cut kind _ _ =>
      w.asked = none ∧ (kind = .logon ↔ w.count = 0) ∧ (kind = .logon ∨ w.answered)
  | .opened _ | .stated _ | .took .. | .checks _ | .awaits .. | .reads .. | .fed _ | .silent ..
  | .closed => w.asked = none

/-- What a test request asks for is text, and its answer goes out. -/
def Answerable (w : Wire) : Event → Prop
  | .took message _ => ∀ id ∈ w.question message, isUtf8 id
  | .cut kind _ _ => kind ≠ .answer
  | _ => True

/-- A logon that is written, whole or in part, is one of these. -/
def Event.Starts (L : List Byte → Prop) : Event → Prop
  | .wrote kind message _ => kind = .logon → L message
  | .cut kind message _ => kind = .logon → L message
  | _ => True

/-! ## The session agrees with its trace -/

structure InStep (s : Session) (w : Wire) : Prop where
  settled : w.asked = none
  never : s.state ≠ .loggingOut
  stream : s.state ≠ .closed → s.stream
  sequence : s.state ≠ .closed → s.nextSequence = w.count + 1
  first : s.state ≠ .closed → (w.count = 0 ↔ s.state = .connected)
  answered : s.state ≠ .closed → (w.answered ↔ s.state = .established)

/-- A session in one state, and its trace. -/
def At (state : SessionState) (s : Session) (w : Wire) : Prop := InStep s w ∧ s.state = state

/-- What holds of a part of a session: what it does is in order exactly when it can be answered,
and then it stays in step. -/
structure Upholds {α : Type} (L : List Byte → Prop) (I : Session → Wire → Prop) (w : Wire)
    (r : Ran α) : Prop where
  iff : Along Wire.note Disciplined w r.events ↔ Along Wire.note Answerable w r.events
  inv : Along Wire.note Answerable w r.events → I r.session (run Wire.note w r.events)
  starts : Along Wire.note Answerable w r.events → ∀ e ∈ r.events, e.Starts L

variable {α β : Type} {L : List Byte → Prop} {I J : Session → Wire → Prop} {w : Wire}
  {s s' : Session} {e : Event} {result : Except SessionError α} {r : Ran α}
  {f : Session → α → Ran β} {kind : Kind} {a : Answers} {state : SessionState}
  {text : List Byte} {body : Body}

namespace Upholds

theorem quiet (h : I s w) : Upholds L I w ⟨[], s, result⟩ where
  iff := iff_of_true along_nil along_nil
  inv _ := h
  starts _ _ hmem := absurd hmem List.not_mem_nil

theorem imp (h : Upholds L I w r) (himp : ∀ s w, I s w → J s w) : Upholds L J w r :=
  { h with inv := fun hanswerable ↦ himp _ _ (h.inv hanswerable) }

/-- One event in front of the others. -/
theorem cons (hiff : Disciplined w e ↔ Answerable w e) (hstarts : e.Starts L)
    (h : Answerable w e → Upholds L I (w.note e) r) :
    Upholds L I w ⟨e :: r.events, r.session, r.result⟩ where
  iff := by
    rw [along_cons, along_cons, hiff]
    exact and_congr_right fun he ↦ (h he).iff
  inv hanswerable := (h (along_cons.mp hanswerable).1).inv (along_cons.mp hanswerable).2
  starts hanswerable e' hmem := by
    obtain ⟨he, hrest⟩ := along_cons.mp hanswerable
    rcases List.mem_cons.mp hmem with rfl | hmem
    · exact hstarts
    · exact (h he).starts hrest e' hmem

/-- One event. -/
theorem one (hiff : Disciplined w e ↔ Answerable w e) (hstarts : e.Starts L)
    (h : Answerable w e → I s (w.note e)) : Upholds L I w ⟨[e], s, result⟩ :=
  cons (r := ⟨[], s, result⟩) hiff hstarts fun he ↦ quiet (h he)

/-- One part behind the other. -/
theorem bind (h : Upholds L I w r) (hstop : ∀ s w, I s w → J s w)
    (hnext : ∀ a w, r.result = .ok a → I r.session w → Upholds L J w (f r.session a)) :
    Upholds L J w (r.bind f) := by
  rw [Ran.bind]
  cases hresult : r.result with
  | error e => exact ⟨h.iff, fun hanswerable ↦ hstop _ _ (h.inv hanswerable), h.starts⟩
  | ok a =>
      refine ⟨?_, fun hanswerable ↦ ?_, fun hanswerable e hmem ↦ ?_⟩
      · dsimp only
        rw [along_append, along_append, h.iff]
        exact and_congr_right fun hfirst ↦ (hnext a _ hresult (h.inv hfirst)).iff
      · obtain ⟨hfirst, hsecond⟩ := along_append.mp hanswerable
        dsimp only
        rw [run_append]
        exact (hnext a _ hresult (h.inv hfirst)).inv hsecond
      · obtain ⟨hfirst, hsecond⟩ := along_append.mp hanswerable
        rcases List.mem_append.mp hmem with hmem | hmem
        · exact h.starts hfirst e hmem
        · exact (hnext a _ hresult (h.inv hfirst)).starts hsecond e hmem

end Upholds

/-- An event that is in order whenever nothing is asked, and that asks nothing. -/
theorem InStep.iff_of_settled (h : InStep s w) (hd : w.asked = none → Disciplined w e)
    (ha : Answerable w e) : Disciplined w e ↔ Answerable w e := iff_of_true (hd h.settled) ha

/-! ## Writes -/

/-- What a write on a stream does: it moves the session past the message, or leaves it. -/
theorem write_cases (hstream : s.stream) (kind : Kind) (body : Body) (reset : Bool) (a : Answers) :
    s.write kind body reset a =
        ⟨[.wrote kind (frame body s.nextSequence (sendingTime a.wall) reset) a.wrote],
          { s with nextSequence := s.nextSequence + 1, lastWriteNs := a.wrote }, .ok ()⟩ ∨
      ∃ sent e, s.write kind body reset a =
        ⟨[.cut kind (frame body s.nextSequence (sendingTime a.wall) reset) sent], s, .error e⟩ := by
  rw [Session.write, Session.writeOutbound, if_neg (not_not_intro hstream)]
  split
  next => exact .inl rfl
  next => exact .inr ⟨_, _, rfl⟩
  next => exact .inr ⟨_, _, rfl⟩

/-- The session behind a message that is out. -/
theorem At.wrote (h : At .established s w) (kind : Kind) (message : List Byte) (now : ℕ) :
    At .established { s with nextSequence := s.nextSequence + 1, lastWriteNs := now }
      (w.note (.wrote kind message now)) := by
  obtain ⟨h, hstate⟩ := h
  have hopen : s.state ≠ .closed := hstate ▸ SessionState.noConfusion
  refine ⟨{ h with settled := rfl, sequence := fun _ ↦ ?_, first := fun _ ↦ ?_ }, hstate⟩
  · exact congrArg (· + 1) (h.sequence hopen)
  · refine iff_of_false (Nat.succ_ne_zero _) fun hconnected ↦ ?_
    cases hstate.symm.trans hconnected

theorem At.count_ne_zero (h : At .established s w) : w.count ≠ 0 := by
  obtain ⟨h, hstate⟩ := h
  rw [Ne, h.first (hstate ▸ SessionState.noConfusion), hstate]
  exact SessionState.noConfusion

theorem At.isAnswered (h : At .established s w) : w.answered :=
  (h.1.answered (h.2 ▸ SessionState.noConfusion)).mpr h.2

/-- What is asked of a message of an established session, but for what it answers. -/
theorem At.orderly (h : At .established s w) (hparse : Body.parse text = .ok body)
    (hkind : kind ≠ .logon) (wall : ℕ) {asked : Option (List Byte)}
    (hanswer : kind = .answer ↔ asked.isSome)
    (hecho : ∀ id ∈ asked, msgType (sendOf hparse s.nextSequence wall false).message =
        some HEARTBEAT ∧
      valuesOf (sendOf hparse s.nextSequence wall false).message TAG_TEST_REQ_ID = [id]) :
    Orderly { w with asked } kind (frame body s.nextSequence (sendingTime wall) false) := by
  have hopen : s.state ≠ .closed := h.2 ▸ SessionState.noConfusion
  constructor
  · rw [← h.1.sequence hopen]
    exact (sendOf hparse s.nextSequence wall false).valuesOf_sequence
  · rw [if_neg h.count_ne_zero]
    exact (sendOf hparse s.nextSequence wall false).valuesOf_reset
  · exact iff_of_false hkind h.count_ne_zero
  · exact fun heq ↦ absurd heq hkind
  · exact .inr h.isAnswered
  · exact hanswer
  · exact hecho

/-- A message of an established session that answers nothing. -/
theorem upholds_write (h : At .established s w) (hparse : Body.parse text = .ok body)
    (hkind : kind ≠ .logon) (hanswer : kind ≠ .answer) :
    Upholds L (At .established) w (s.write kind body false a) := by
  have hopen : s.state ≠ .closed := h.2 ▸ SessionState.noConfusion
  have hwire : w = { w with asked := none } := by rw [← h.1.settled]
  have horderly : Orderly w kind (frame body s.nextSequence (sendingTime a.wall) false) := by
    rw [hwire]
    exact h.orderly hparse hkind a.wall (iff_of_false hanswer Bool.false_ne_true) (by rintro id ⟨⟩)
  rcases write_cases (h.1.stream hopen) kind body false a with heq | ⟨sent, e, heq⟩
  · rw [heq]
    exact .one (iff_of_true horderly trivial) (fun heq ↦ absurd heq hkind) fun _ ↦ h.wrote kind [] _
  · rw [heq]
    refine .one (iff_of_true ?_ hanswer) (fun heq ↦ absurd heq hkind) fun _ ↦ h
    exact ⟨h.1.settled, horderly.first, horderly.allowed⟩

theorem upholds_writeComposed (h : At .established s w) (composed : List Byte)
    (hkind : kind ≠ .logon) (hanswer : kind ≠ .answer) :
    Upholds L (At .established) w (s.writeComposed kind composed a) := by
  rw [Session.writeComposed]
  split
  next => exact .quiet h
  next body hparse => exact upholds_write h hparse hkind hanswer

theorem upholds_testRequest (h : At .established s w) :
    Upholds L (At .established) w (s.testRequest a) := by
  rw [Session.testRequest]
  refine (upholds_writeComposed h _ Kind.noConfusion Kind.noConfusion).bind (fun _ _ h ↦ h)
    fun _ _ _ h ↦ .quiet ⟨{ h.1 with }, h.2⟩

/-! ## Reads -/

theorem upholds_read (h : At state s w) : Upholds L (At state) w (s.read a) := by
  rw [Session.read]
  split
  next => exact .quiet h
  next =>
  split
  next => exact .quiet h
  next bytes _ =>
      exact .one (h.1.iff_of_settled (fun h ↦ h) trivial) trivial
        fun _ ↦ ⟨{ h.1 with }, h.2⟩

theorem answerOf_eq_established {message : List Byte} :
    answerOf message = .established ↔ msgType message = some LOGON := by
  rw [answerOf]
  split
  next hnone =>
      exact iff_of_false Answer.noConfusion fun h ↦ Option.some_ne_none _ (h.symm.trans hnone)
  next type hsome =>
      rw [hsome, Option.some.injEq]
      constructor
      · intro h
        split_ifs at h with hlogon
        exact hlogon
      · rintro rfl
        rw [if_pos rfl]

/-- What is taken before the logon is answered asks for nothing. -/
theorem question_of_not_answered (h : w.answered = false) (message : List Byte) :
    w.question message = none := by
  rw [Wire.question, h]
  exact if_neg fun hboth ↦ Bool.false_ne_true hboth.1

theorem upholds_awaitLogon (deadline : ℕ) (rounds : List Answers) (h : At .logonSent s w) :
    Upholds L InStep w (Session.awaitLogon deadline s rounds) := by
  induction rounds generalizing s w with
  | nil => exact .quiet h.1
  | cons a rounds ih =>
      have hopen : s.state ≠ .closed := h.2 ▸ SessionState.noConfusion
      rw [Session.awaitLogon]
      split
      next => exact .quiet h.1
      next message decoder _ =>
          have hwaits : w.answered = false := by
            rw [← Bool.not_eq_true, h.1.answered hopen, h.2]
            exact SessionState.noConfusion
          have hquestion := question_of_not_answered hwaits message
          have hnote : w.note (.took message a.taken) =
              { w with answered := msgType message = some LOGON, asked := none } := by
            rw [Wire.note, hquestion, hwaits, Bool.false_or]
          refine .cons (h.1.iff_of_settled (fun h ↦ h) ?_) trivial fun _ ↦ ?_
          · intro id hid
            rw [hquestion] at hid
            cases hid
          rw [hnote]
          have hwait (hne : answerOf message ≠ .established) : At .logonSent
              { s with decoder, held := message }
              { w with answered := msgType message = some LOGON, asked := none } := by
            refine ⟨{ h.1 with settled := rfl, answered := fun _ ↦ ?_ }, h.2⟩
            refine iff_of_false (fun hlogon ↦ hne ?_) (h.2 ▸ SessionState.noConfusion)
            exact answerOf_eq_established.mpr (of_decide_eq_true hlogon)
          dsimp only
          split
          next hestablished =>
              refine .quiet { settled := rfl, never := SessionState.noConfusion, stream := ?_,
                              sequence := ?_, first := ?_, answered := ?_ }
              · exact fun _ ↦ h.1.stream hopen
              · exact fun _ ↦ h.1.sequence hopen
              · refine fun _ ↦ iff_of_false ?_ SessionState.noConfusion
                rw [h.1.first hopen, h.2]
                exact SessionState.noConfusion
              · exact fun _ ↦ iff_of_true
                  (decide_eq_true (answerOf_eq_established.mp hestablished)) rfl
          next hne => exact ih (hwait (hne ▸ Answer.noConfusion))
          next hne => exact .quiet (hwait (hne ▸ Answer.noConfusion)).1
          next hne => exact .quiet (hwait (hne ▸ Answer.noConfusion)).1
      next =>
      split
      next => exact .quiet h.1
      next =>
          refine .cons (h.1.iff_of_settled (fun h ↦ h) trivial) trivial fun _ ↦ ?_
          exact (upholds_read h).bind (fun _ _ h ↦ h.1) fun _ _ _ h ↦ ih h

/-! ## Answers -/

theorem SOH_notMem_lossy_fieldOf (message : List Byte) (tag : ℕ) :
    SOH ∉ (fieldOf message tag).getD [] := by
  rw [fieldOf]
  cases hfind : (fields message).find? (·.tag = tag) with
  | none => exact List.not_mem_nil
  | some f => exact value_free_of_mem_fieldsUpTo (List.mem_of_find?_eq_some hfind)

/-- A heartbeat that carries an identifier is a body. -/
theorem parse_echo {id : List Byte} (hfree : SOH ∉ id) :
    Body.parse (Session.compose HEARTBEAT [(TAG_TEST_REQ_ID, id)]) =
      .ok ⟨HEARTBEAT, pushField TAG_TEST_REQ_ID id⟩ := by
  have hshape : Session.compose HEARTBEAT [(TAG_TEST_REQ_ID, id)] =
      decimal TAG_MSG_TYPE ++ EQUALS :: (HEARTBEAT ++ SOH :: pushField TAG_TEST_REQ_ID id) := by
    simp only [Session.compose, List.map_cons, List.map_nil, List.flatten_cons, List.flatten_nil,
      List.append_nil]
    rw [pushField, List.append_assoc, List.cons_append, List.append_assoc, List.singleton_append]
  rw [hshape]
  refine Body.parse_of_spells (.inl (digits_decimal _)) (by decide) (by decide) (by decide)
    (Send.spells_pushField (by decide) hfree) ?_
  have hforeign : TAG_TEST_REQ_ID ∉ ownedTags := by decide
  exact List.forall_mem_singleton.mpr hforeign

/-- What an answer carries. -/
theorem valuesOf_echo {id : List Byte} (hfree : SOH ∉ id) (seq wall : ℕ) :
    valuesOf (sendOf (parse_echo hfree) seq wall false).message TAG_TEST_REQ_ID = [id] := by
  have hspells : Spells (pushField TAG_TEST_REQ_ID id) [⟨TAG_TEST_REQ_ID, id⟩] :=
    Send.spells_pushField (by decide) hfree
  rw [Send.valuesOf_own _ (by decide) (by decide), Send.ownFields]
  show ((fields (pushField TAG_TEST_REQ_ID id)).filter (·.tag = TAG_TEST_REQ_ID)).map Field.value = _
  rw [fields_of_spells hspells]
  rfl

theorem classify_testRequest {message : List Byte} (h : msgType message = some TEST_REQUEST) :
    classify message =
      .ok (.testRequest (lossy ((fieldOf message TAG_TEST_REQ_ID).getD []))) := by
  rw [classify, h]
  dsimp only
  rw [if_neg (by decide), if_pos rfl]
  cases fieldOf message TAG_TEST_REQ_ID with
  | none => rfl
  | some id => rfl

theorem classify_ne_testRequest {message id : List Byte} (h : msgType message ≠ some TEST_REQUEST) :
    classify message ≠ .ok (.testRequest id) := by
  intro hclass
  rw [classify] at hclass
  split at hclass
  next => cases hclass
  next type htype =>
      by_cases hquestion : type = TEST_REQUEST
      · exact h (htype.trans (congrArg some hquestion))
      · rw [if_neg hquestion] at hclass
        split_ifs at hclass <;> cases hclass

/-- A message of the venue, and what is done with it. -/
theorem upholds_deliver (h : At .established s w) (now : ℕ) :
    Upholds L (At .established) w
      ⟨.took s.held now :: (s.deliver a).events, (s.deliver a).session, (s.deliver a).result⟩ := by
  have hopen : s.state ≠ .closed := h.2 ▸ SessionState.noConfusion
  by_cases hquestion : msgType s.held = some TEST_REQUEST
  · obtain ⟨asked, hasked⟩ : ∃ asked, asked = (fieldOf s.held TAG_TEST_REQ_ID).getD [] := ⟨_, rfl⟩
    have hfree : SOH ∉ lossy asked :=
      notMem_lossy (by decide) (hasked ▸ SOH_notMem_lossy_fieldOf s.held TAG_TEST_REQ_ID)
    have hsome : w.question s.held = some asked := by
      rw [Wire.question, if_pos ⟨h.isAnswered, hquestion⟩, hasked]
    have hnote : w.note (.took s.held now) = { w with asked := some asked } := by
      rw [Wire.note, hsome, h.isAnswered, Bool.true_or]
    have hanswerable : Answerable w (.took s.held now) ↔ isUtf8 asked := by
      rw [Answerable, hsome]
      exact ⟨fun htext ↦ htext asked rfl, fun htext id hid ↦ Option.some.inj hid ▸ htext⟩
    have hdeliver : s.deliver a =
        (s.write .answer ⟨HEARTBEAT, pushField TAG_TEST_REQ_ID (lossy asked)⟩ false a).bind
          fun s () ↦ ⟨[], s, .ok (some .liveness)⟩ := by
      rw [Session.deliver, classify_testRequest hquestion, ← hasked]
      dsimp only
      rw [Session.answerTestRequest, Session.writeComposed, parse_echo hfree]
    have hpair (P : Wire → Event → Prop) (e : Event) :
        Along Wire.note P w [.took s.held now, e] ↔
          P w (.took s.held now) ∧ P { w with asked := some asked } e := by
      rw [along_cons, along_singleton, hnote]
    rw [hdeliver]
    rcases write_cases (h.1.stream hopen) .answer
        ⟨HEARTBEAT, pushField TAG_TEST_REQ_ID (lossy asked)⟩ false a with heq | ⟨sent, e, heq⟩
    · rw [heq]
      -- the answer is out whole, and is what was asked if that is text
      have hechoes : Disciplined { w with asked := some asked } (.wrote .answer
          (frame ⟨HEARTBEAT, pushField TAG_TEST_REQ_ID (lossy asked)⟩ s.nextSequence
            (sendingTime a.wall) false) a.wrote) ↔ isUtf8 asked := by
        constructor
        · intro horderly
          have hvalue := (horderly.echo asked rfl).2
          have hechoed := valuesOf_echo hfree s.nextSequence a.wall
          exact lossy_eq_iff.mp (List.singleton_injective (hechoed.symm.trans hvalue))
        · intro htext
          refine h.orderly (parse_echo hfree) Kind.noConfusion a.wall (iff_of_true rfl rfl) ?_
          rintro id ⟨⟩
          refine ⟨(sendOf (parse_echo hfree) _ _ _).msgType_message, ?_⟩
          rw [valuesOf_echo hfree, lossy_of_isUtf8 htext]
      show Upholds L (At .established) w ⟨[.took s.held now, .wrote .answer (frame ⟨HEARTBEAT,
        pushField TAG_TEST_REQ_ID (lossy asked)⟩ s.nextSequence (sendingTime a.wall) false)
          a.wrote], _, _⟩
      refine ⟨(hpair _ _).trans (.trans ?_ (hpair _ _).symm), fun _ ↦ ?_, fun _ e hmem ↦ ?_⟩
      · rw [hanswerable, hechoes]
        exact ⟨fun hall ↦ ⟨hall.2, trivial⟩, fun hall ↦ ⟨h.1.settled, hall.1⟩⟩
      · rw [run_cons, hnote]
        exact h.wrote .answer [] _
      · rcases List.mem_cons.mp hmem with rfl | hmem
        · trivial
        · cases List.mem_singleton.mp hmem
          exact fun heq ↦ Kind.noConfusion heq
    · rw [heq]
      have hcut : ¬Along Wire.note Answerable w [.took s.held now, .cut .answer
          (frame ⟨HEARTBEAT, pushField TAG_TEST_REQ_ID (lossy asked)⟩ s.nextSequence
            (sendingTime a.wall) false) sent] :=
        fun hall ↦ ((hpair _ _).mp hall).2 rfl
      refine ⟨iff_of_false (fun hall ↦ ?_) hcut, fun hall ↦ absurd hall hcut,
        fun hall ↦ absurd hall hcut⟩
      exact Option.some_ne_none _ ((hpair _ _).mp hall).2.1
  · have hnone : w.question s.held = none := if_neg fun hboth ↦ hquestion hboth.2
    have hanswerable : Answerable w (.took s.held now) := by
      intro id hid
      rw [hnone] at hid
      cases hid
    have hnote : At .established s (w.note (.took s.held now)) := by
      rw [Wire.note, hnone, h.isAnswered, Bool.true_or]
      exact ⟨{ h.1 with settled := rfl, answered := fun _ ↦ iff_of_true rfl h.2 }, h.2⟩
    refine .cons (h.1.iff_of_settled (fun h ↦ h) hanswerable) trivial fun _ ↦ ?_
    rw [Session.deliver]
    split
    next => exact .quiet hnote
    next => exact .quiet hnote
    next => exact .quiet hnote
    next hclass => exact absurd hclass (classify_ne_testRequest hquestion)

/-! ## Passes -/

theorem upholds_wait (h : At .established s w) (deadline : Option ℕ) :
    Upholds L (At .established) w (s.wait deadline a) := by
  rw [Session.wait]
  dsimp only
  split
  next =>
      refine (upholds_writeComposed h _ Kind.noConfusion Kind.noConfusion).bind (fun _ _ h ↦ h)
        fun _ _ _ h ↦ .quiet h
  next =>
  split
  next => exact .one (h.1.iff_of_settled (fun h ↦ h) trivial) trivial fun _ ↦ h
  next =>
  split
  next => exact (upholds_testRequest h).bind (fun _ _ h ↦ h) fun _ _ _ h ↦ .quiet h
  next =>
  split
  next => exact .quiet h
  next =>
      refine .cons (h.1.iff_of_settled (fun h ↦ h) trivial) trivial fun _ ↦ ?_
      exact (upholds_read h).bind (fun _ _ h ↦ h) fun _ _ _ h ↦ .quiet h

theorem upholds_turn (h : At .established s w) (deadline : Option ℕ) :
    Upholds L (At .established) w (s.turn deadline a) := by
  rw [Session.turn]
  split
  next => exact .quiet h
  next message decoder _ =>
      exact upholds_deliver (s := { s with
        decoder
        held := message
        lastReadNs := a.taken
        testRequestOutstanding := false }) ⟨{ h.1 with }, h.2⟩ a.taken
  next =>
      exact .cons (h.1.iff_of_settled (fun h ↦ h) trivial) trivial fun _ ↦ upholds_wait h deadline

theorem upholds_turns (deadline : Option ℕ) (rounds : List Answers) (h : At .established s w) :
    Upholds L (At .established) w (Session.turns deadline s rounds) := by
  induction rounds generalizing s w with
  | nil => exact .quiet h
  | cons a rounds ih =>
      rw [Session.turns]
      refine (upholds_turn h deadline).bind (fun _ _ h ↦ h) fun incoming _ _ h ↦ ?_
      cases incoming with
      | none => exact ih h
      | some incoming => exact .quiet h

/-! ## Calls -/

/-- The logon that a call may write: it is the body of the adapter, framed with the flag. -/
def Call.Logon (s : Session) : Call → List Byte → Prop
  | .send text a _ _, message => ∃ body, Body.parse text = .ok body ∧
      message = frame body s.nextSequence (sendingTime a.wall) true
  | .open _, _ | .receive .., _ | .close _, _ => False

/-- The logon goes out first, and its answer is awaited. -/
theorem upholds_logon (h : At .connected s w) (hparse : Body.parse text = .ok body)
    (hlogon : body.msgType = LOGON) (deadline : ℕ) (rounds : List Answers)
    (hstarts : L (frame body s.nextSequence (sendingTime a.wall) true)) :
    Upholds L InStep w ((s.write .logon body true a).bind fun s () ↦
      Session.awaitLogon deadline { s with state := .logonSent } rounds) := by
  obtain ⟨h, hstate⟩ := h
  have hopen : s.state ≠ .closed := hstate ▸ SessionState.noConfusion
  have hcount : w.count = 0 := (h.first hopen).mpr hstate
  have hwaits : ¬w.answered := by
    rw [h.answered hopen, hstate]
    exact SessionState.noConfusion
  have horderly : Orderly w .logon (frame body s.nextSequence (sendingTime a.wall) true) := by
    constructor
    · rw [← h.sequence hopen]
      exact (sendOf hparse s.nextSequence a.wall true).valuesOf_sequence
    · rw [if_pos hcount]
      exact (sendOf hparse s.nextSequence a.wall true).valuesOf_reset
    · exact iff_of_true rfl hcount
    · intro _
      rw [← hlogon]
      exact (sendOf hparse s.nextSequence a.wall true).msgType_message
    · exact .inl rfl
    · refine iff_of_false Kind.noConfusion ?_
      rw [h.settled]
      exact Bool.false_ne_true
    · rw [h.settled]
      rintro id ⟨⟩
  rcases write_cases (h.stream hopen) .logon body true a with heq | ⟨sent, e, heq⟩
  · rw [heq]
    refine .cons (iff_of_true horderly trivial) (fun _ ↦ hstarts) fun _ ↦ ?_
    refine upholds_awaitLogon _ rounds ⟨?_, rfl⟩
    exact {
      settled := rfl
      never := SessionState.noConfusion
      stream := fun _ ↦ h.stream hopen
      sequence := fun _ ↦ congrArg (· + 1) (h.sequence hopen)
      first := fun _ ↦ iff_of_false (Nat.succ_ne_zero _) SessionState.noConfusion
      answered := fun _ ↦ iff_of_false hwaits SessionState.noConfusion }
  · rw [heq]
    exact .one (iff_of_true ⟨h.settled, horderly.first, .inl rfl⟩ Kind.noConfusion)
      (fun _ ↦ hstarts) fun _ ↦ h

theorem upholds_send (h : InStep s w) (text : List Byte) (a : Answers) (start : ℕ)
    (rounds : List Answers) : Upholds ((Call.send text a start rounds).Logon s) InStep w
      (s.send text a start rounds) := by
  rw [Session.send]
  split
  next => exact .quiet h
  next body hparse =>
  split
  next => exact .quiet h
  next hstate =>
      split
      next => exact .quiet h
      next hlogon =>
      split
      next => exact .quiet h
      next interval _ =>
          refine .cons (h.iff_of_settled (fun h ↦ h) trivial) trivial fun _ ↦ ?_
          have hstated : At .connected { s with heartbeat := some interval }
              (w.note (.stated interval)) := ⟨{ h with }, hstate⟩
          exact upholds_logon hstated hparse (not_not.mp hlogon) _ rounds ⟨body, hparse, rfl⟩
  next => exact .quiet h
  next => exact .quiet h
  next hstate =>
      exact (upholds_write ⟨h, hstate⟩ hparse Kind.noConfusion Kind.noConfusion).bind
        (fun _ _ h ↦ h.1) fun _ _ _ h ↦ .quiet h.1

theorem upholds_receive (h : InStep s w) (budget : Option ℕ) (start : ℕ) (rounds : List Answers) :
    Upholds L InStep w (s.receive budget start rounds) := by
  rw [Session.receive]
  split
  next => exact .quiet h
  next => exact .quiet h
  next => exact .quiet h
  next hstate => exact (upholds_turns _ rounds ⟨h, hstate⟩).imp fun _ _ h ↦ h.1
  next hstate => exact absurd hstate h.never

/-- A session that was released. -/
theorem inStep_closed (h : w.asked = none) (hstate : s.state = .closed) : InStep s w where
  settled := h
  never := hstate ▸ SessionState.noConfusion
  stream hopen := absurd hstate hopen
  sequence hopen := absurd hstate hopen
  first hopen := absurd hstate hopen
  answered hopen := absurd hstate hopen

theorem parse_logout : Body.parse (Session.compose LOGOUT []) = .ok ⟨LOGOUT, []⟩ := by decide

/-- What a logout does before the stream is released. -/
theorem logout_cases (h : InStep s w) (a : Answers) : (s.logout a).1 = [] ∨
    s.state = .established ∧ ∃ e, (s.logout a).1 = [e] ∧
      ((∃ now, e = .wrote .logout (frame ⟨LOGOUT, []⟩ s.nextSequence (sendingTime a.wall) false) now) ∨
        ∃ sent, e = .cut .logout (frame ⟨LOGOUT, []⟩ s.nextSequence (sendingTime a.wall) false) sent) := by
  rw [Session.logout]
  split
  next => exact .inl rfl
  next hstate =>
      have hstream : s.stream := h.stream (not_not.mp hstate ▸ SessionState.noConfusion)
      refine .inr ⟨not_not.mp hstate, ?_⟩
      rw [parse_logout]
      dsimp only
      rw [if_neg (not_not_intro hstream)]
      split
      next => exact ⟨_, rfl, .inl ⟨_, rfl⟩⟩
      next => exact ⟨_, rfl, .inr ⟨_, rfl⟩⟩
      next => exact ⟨_, rfl, .inr ⟨_, rfl⟩⟩

theorem upholds_close (h : InStep s w) (a : Answers) :
    Upholds L InStep w (called (s.close a)) := by
  have hreleased {w' : Wire} (h : w'.asked = none) :
      Upholds L InStep w' (⟨[.closed], (s.close a).2, .ok ()⟩ : Ran Unit) :=
    .one (iff_of_true h trivial) trivial fun _ ↦ inStep_closed h rfl
  show Upholds L InStep w ⟨(s.logout a).1 ++ [.closed], (s.close a).2, .ok ()⟩
  rcases logout_cases h a with hnil | ⟨hstate, e, hevents, hout⟩
  · rw [hnil]
    exact hreleased h.settled
  · have horderly : Orderly { w with asked := none } .logout
        (frame ⟨LOGOUT, []⟩ s.nextSequence (sendingTime a.wall) false) :=
      At.orderly ⟨h, hstate⟩ parse_logout Kind.noConfusion a.wall
        (iff_of_false Kind.noConfusion Bool.false_ne_true) (by rintro id ⟨⟩)
    have hwire : w = { w with asked := none } := by rw [← h.settled]
    rw [← hwire] at horderly
    rw [hevents]
    rcases hout with ⟨now, rfl⟩ | ⟨sent, rfl⟩
    · exact .cons (r := ⟨[.closed], (s.close a).2, .ok ()⟩) (iff_of_true horderly trivial)
        (fun heq ↦ Kind.noConfusion heq) fun _ ↦ hreleased rfl
    · refine .cons (r := ⟨[.closed], (s.close a).2, .ok ()⟩) (iff_of_true ?_ ?_)
        (fun heq ↦ Kind.noConfusion heq) fun _ ↦ hreleased h.settled
      · exact ⟨h.settled, horderly.first, horderly.allowed⟩
      · exact Kind.noConfusion

theorem upholds_call (h : InStep s w) (c : Call) :
    Upholds (c.Logon s) InStep w (called (s.call c)) := by
  cases c with
  | «open» now =>
      refine .one (h.iff_of_settled (fun h ↦ h) trivial) trivial fun _ ↦ ?_
      exact {
        settled := rfl
        never := SessionState.noConfusion
        stream := fun _ ↦ rfl
        sequence := fun _ ↦ rfl
        first := fun _ ↦ iff_of_true rfl rfl
        answered := fun _ ↦ iff_of_false Bool.false_ne_true SessionState.noConfusion }
  | send text a start rounds =>
      have hsend := upholds_send h text a start rounds
      exact ⟨hsend.iff, hsend.inv, hsend.starts⟩
  | receive budget start rounds =>
      have hreceive := upholds_receive (L := (Call.receive budget start rounds).Logon s) h budget start rounds
      exact ⟨hreceive.iff, hreceive.inv, hreceive.starts⟩
  | close a => exact upholds_close h a

/-- A logon that is written is, in whatever call, one that the call may write. -/
theorem upholds_calls (cs : List Call) (h : InStep s w) :
    Upholds (fun _ ↦ True) InStep w (called (s.calls cs)) := by
  induction cs generalizing s w with
  | nil => exact .quiet h
  | cons c cs ih =>
      have hcall := upholds_call h c
      have hany : Upholds (fun _ ↦ True) InStep w (called (s.call c)) := by
        refine { hcall with starts := fun _ e _ ↦ ?_ }
        cases e <;> first | exact fun _ ↦ trivial | trivial
      have hboth := hany.bind (f := fun s () ↦ called (s.calls cs)) (fun _ _ h ↦ h)
        fun _ _ _ h ↦ ih h
      exact ⟨hboth.iff, hboth.inv, hboth.starts⟩

/-! ## Refusals -/

/-- The body is refused, by what it is or by the state of the session. -/
def SessionError.refusesBody : SessionError → Bool
  | .body _ | .sentBeforeEstablished _ => true
  | _ => false

/-- A part of a session that fails for other reasons only. -/
def Ran.Accepts (r : Ran α) : Prop := ∀ e, r.result = .error e → e.refusesBody = false

theorem Ran.Accepts.bind (h : r.Accepts) (hnext : ∀ s a, (f s a).Accepts) : (r.bind f).Accepts := by
  intro e he
  rw [Ran.bind] at he
  split at he
  next e' hresult => exact h e (hresult.trans (congrArg _ (Except.error.inj he)))
  next a _ => exact hnext r.session a e he

theorem Ran.accepts_ok {events : List Event} {a : α} : (⟨events, s, .ok a⟩ : Ran α).Accepts := by
  rintro e ⟨⟩

theorem Ran.accepts_error {events : List Event} {e : SessionError} (h : e.refusesBody = false) :
    (⟨events, s, .error e⟩ : Ran α).Accepts := by
  rintro e' ⟨⟩
  exact h

theorem accepts_write (s : Session) (kind : Kind) (body : Body) (reset : Bool) (a : Answers) :
    (s.write kind body reset a).Accepts := by
  rw [Session.write, Session.writeOutbound]
  split
  next => exact Ran.accepts_error rfl
  next =>
  split
  next => exact Ran.accepts_ok
  next => exact Ran.accepts_error rfl
  next => exact Ran.accepts_error rfl

theorem accepts_read (s : Session) (a : Answers) : (s.read a).Accepts := by
  rw [Session.read]
  split
  next => exact Ran.accepts_error rfl
  next =>
  split
  next => exact Ran.accepts_error rfl
  next => exact Ran.accepts_ok

theorem accepts_awaitLogon (deadline : ℕ) (s : Session) (rounds : List Answers) :
    (Session.awaitLogon deadline s rounds).Accepts := by
  induction rounds generalizing s with
  | nil => exact Ran.accepts_ok
  | cons a rounds ih =>
      rw [Session.awaitLogon]
      split
      next => exact Ran.accepts_error rfl
      next =>
          refine Ran.accepts_ok.bind fun s _ ↦ ?_
          split
          next => exact Ran.accepts_ok
          next => exact ih s
          next => exact Ran.accepts_error rfl
          next => exact Ran.accepts_error rfl
      next =>
      split
      next => exact Ran.accepts_error rfl
      next => exact Ran.accepts_ok.bind fun s _ ↦ (accepts_read s a).bind fun s _ ↦ ih s

/-- A body that is refused, by what it is or by the state of the session, writes nothing. -/
theorem send_refused {start : ℕ} {rounds : List Answers} {e : SessionError}
    (h : (s.send text a start rounds).result = .error e)
    (hrefused : e.refusesBody ∨ s.state = .closed) : (s.send text a start rounds).events = [] := by
  rw [Session.send] at h ⊢
  split
  next => rfl
  next body hparse =>
  rw [hparse] at h
  dsimp only at h
  split
  next => rfl
  next hstate =>
      rw [hstate] at h hrefused
      have hrefused : e.refusesBody := hrefused.resolve_right SessionState.noConfusion
      dsimp only at h
      split
      next => rfl
      next hlogon =>
      rw [if_neg hlogon] at h
      split
      next => rfl
      next interval hinterval =>
          rw [hinterval] at h
          dsimp only at h
          have haccepts : e.refusesBody = false := by
            refine Ran.Accepts.bind Ran.accepts_ok (fun s _ ↦ ?_) e h
            exact (accepts_write s .logon body true a).bind fun s _ ↦
              accepts_awaitLogon _ { s with state := .logonSent } rounds
          rw [haccepts] at hrefused
          cases hrefused
  next => rfl
  next => rfl
  next hstate =>
      rw [hstate] at h hrefused
      have hrefused : e.refusesBody := hrefused.resolve_right SessionState.noConfusion
      have haccepts := (accepts_write s .body body false a).bind
        (fun s (_ : Unit) ↦ Ran.accepts_ok (a := some ())) e h
      rw [haccepts] at hrefused
      cases hrefused

/-! ## Every run -/

/-- What a call writes is its own: the logon is the adapter's, and a body that is refused writes
nothing. -/
structure Owned (s : Session) (c : Call) : Prop where
  starts : ∀ e ∈ (s.call c).1, e.Starts (c.Logon s)
  refused : ∀ text a start rounds e, c = .send text a start rounds →
    (s.send text a start rounds).result = .error e → e.refusesBody ∨ s.state = .closed →
      (s.call c).1 = []

theorem calls_append (s : Session) (cs cs' : List Call) : s.calls (cs ++ cs') =
    ((s.calls cs).1 ++ ((s.calls cs).2.calls cs').1, ((s.calls cs).2.calls cs').2) := by
  induction cs generalizing s with
  | nil => rfl
  | cons c cs ih =>
      rw [List.cons_append, Session.calls, Session.calls]
      dsimp only
      rw [ih]
      dsimp only
      rw [List.append_assoc]

theorem inStep_new : InStep {} {} := inStep_closed rfl rfl

/-- **What a session writes is in order, over every run of calls, exactly when what the venue asks
for is text and the stream takes the answers.** -/
theorem outbound_disciplined (cs : List Call) :
    (Along Wire.note Disciplined {} (({} : Session).calls cs).1 ∧
      (run Wire.note {} (({} : Session).calls cs).1).asked = none ∧
      ∀ before c, before ++ [c] <+: cs → Owned (({} : Session).calls before).2 c) ↔
    Along Wire.note Answerable {} (({} : Session).calls cs).1 := by
  have hall := upholds_calls cs inStep_new
  constructor
  · rintro ⟨hdisciplined, -, -⟩
    exact hall.iff.mp hdisciplined
  · intro hanswerable
    refine ⟨hall.iff.mpr hanswerable, (hall.inv hanswerable).settled, fun before c hbefore ↦ ?_⟩
    obtain ⟨rest, rfl⟩ := hbefore
    rw [List.append_assoc, calls_append] at hanswerable
    obtain ⟨hfirst, hrest⟩ := along_append.mp hanswerable
    have hstep := (upholds_calls before inStep_new).inv hfirst
    have hcall : Along Wire.note Answerable (run Wire.note {} (({} : Session).calls before).1)
        ((({} : Session).calls before).2.call c).1 := by
      rw [List.singleton_append, Session.calls] at hrest
      exact (along_append.mp hrest).1
    refine ⟨(upholds_call hstep c).starts hcall, ?_⟩
    rintro text a start rounds e rfl hresult hrefused
    exact send_refused hresult hrefused

end EdgeMulticast.Fix
