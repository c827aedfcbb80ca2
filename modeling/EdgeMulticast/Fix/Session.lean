import EdgeMulticast.Fix.Frame
import EdgeMulticast.Lib.Lossy

/-!
# The session

`session.rs` (`dz-ingress-fix`): the states, the cadence and the outbound sequence of a session
over one byte stream, with `timestamp.rs` for the time that is stated on a message.

What the stream and the clocks answer is an argument (`Answers`, one for each pass of a loop), and
what a session does to the stream is its trace (`Event`).  A `Duration` is in nanoseconds.
-/

namespace EdgeMulticast.Fix

open EdgeMulticast.Lib

/-! ## The sending time -/

def DAYS_FROM_CIVIL_ORIGIN : ℕ := 719468

def NANOS_PER_SEC : ℕ := 1000000000

def SECS_PER_DAY : ℕ := 86400

/-- The year, the month and the day of a count of days since 1970. -/
def civilFromDays (days : ℕ) : ℕ × ℕ × ℕ :=
  let shifted := days + DAYS_FROM_CIVIL_ORIGIN
  let cycle := shifted / 146097
  let dayOfCycle := shifted - cycle * 146097
  let yearOfCycle :=
    (dayOfCycle - dayOfCycle / 1460 + dayOfCycle / 36524 - dayOfCycle / 146096) / 365
  let year := yearOfCycle + cycle * 400
  let dayOfYear := dayOfCycle - (365 * yearOfCycle + yearOfCycle / 4 - yearOfCycle / 100)
  let shiftedMonth := (5 * dayOfYear + 2) / 153
  let day := dayOfYear - (153 * shiftedMonth + 2) / 5 + 1
  let month := if shiftedMonth < 10 then shiftedMonth + 3 else shiftedMonth - 9
  (if month ≤ 2 then year + 1 else year, month, day)

/-- `YYYYMMDD-HH:MM:SS.sss` -/
def sendingTime (wallNs : ℕ) : List Byte :=
  let secs := wallNs / NANOS_PER_SEC
  let millis := wallNs % NANOS_PER_SEC / 1000000
  let within := secs % SECS_PER_DAY
  let (year, month, day) := civilFromDays (secs / SECS_PER_DAY)
  padded 4 year ++ padded 2 month ++ padded 2 day ++ ascii "-" ++ padded 2 (within / 3600) ++
    ascii ":" ++ padded 2 (within % 3600 / 60) ++ ascii ":" ++ padded 2 (within % 60) ++
    ascii "." ++ padded 3 millis

/-- No separator stands in it. -/
theorem SOH_notMem_sendingTime (wallNs : ℕ) : SOH ∉ sendingTime wallNs := by
  have hpadded (width n : ℕ) : SOH ∉ padded width n := Send.SOH_notMem_of_digits (digits_padded ..)
  have hmark {s : String} (h : SOH ∉ ascii s) (bs : List Byte) (hbs : SOH ∉ bs) :
      SOH ∉ bs ++ ascii s := fun hmem ↦ (List.mem_append.mp hmem).elim hbs h
  have hnumber (width n : ℕ) (bs : List Byte) (hbs : SOH ∉ bs) : SOH ∉ bs ++ padded width n :=
    fun hmem ↦ (List.mem_append.mp hmem).elim hbs (hpadded width n)
  have hcolon : SOH ∉ ascii ":" := by decide
  refine hnumber _ _ _ (hmark (by decide) _ (hnumber _ _ _ (hmark hcolon _ (hnumber _ _ _
    (hmark hcolon _ (hnumber _ _ _ (hmark (by decide) _ (hnumber _ _ _ (hnumber _ _ _ ?_)))))))))
  exact hpadded _ _

/-! ## What a message says -/

def TAG_TEST_REQ_ID : ℕ := 112

def TAG_HEART_BT_INT : ℕ := 108

def TAG_TEXT : ℕ := 58

def TAG_SESSION_REJECT_REASON : ℕ := 373

def TAG_REF_TAG_ID : ℕ := 371

def U64_MAX : ℕ := 2 ^ 64 - 1

def HEARTBEAT : List Byte := ascii "0"

def TEST_REQUEST : List Byte := ascii "1"

def RESEND_REQUEST : List Byte := ascii "2"

def REJECT : List Byte := ascii "3"

def SEQUENCE_RESET : List Byte := ascii "4"

def LOGOUT : List Byte := ascii "5"

def LOGON : List Byte := ascii "A"

/-- The first value stated for a tag. -/
def fieldOf (bytes : List Byte) (tag : ℕ) : Option (List Byte) :=
  ((fields bytes).find? (·.tag = tag)).map Field.value

/-- What a session message said, for an error that an operator reads. -/
def detail (message : List Byte) : List Byte :=
  let stated (tag : ℕ) (text : List Byte) := decimal tag ++ EQUALS :: text
  let ofType := (msgType message).map (stated TAG_MSG_TYPE)
  let sequence := ((fieldOf message TAG_MSG_SEQ_NUM).bind (parseUnsigned U64_MAX)).map
    fun n ↦ stated TAG_MSG_SEQ_NUM (decimal n)
  let rest := [TAG_SESSION_REJECT_REASON, TAG_REF_TAG_ID, TAG_TEXT].filterMap fun tag ↦
    (fieldOf message tag).map fun value ↦ stated tag (lossy value)
  [SPACE].intercalate (ofType.toList ++ sequence.toList ++ rest)

inductive StreamError where
  | closed (detail : List Byte)
  | failed (detail : List Byte)
deriving DecidableEq, Repr

/-- Why a session could not carry on. -/
inductive SessionError where
  | noLogon
  | logonNotEstablished
  | sentBeforeEstablished (msgType : List Byte)
  | noHeartbeatInterval
  | unusableHeartbeatInterval (stated : List Byte) (min max : ℕ)
  | body (e : BodyError)
  | framing (e : FramingError)
  | logonRejected (detail : List Byte)
  | logonNotAnswered (grace : ℕ)
  | rejected (detail : List Byte)
  | loggedOut (detail : List Byte)
  | resendRequested (detail : List Byte)
  | silent (interval silence : ℕ)
  | stream (e : StreamError)
  | notConnected
deriving DecidableEq, Repr

/-- What the session makes of a message. -/
inductive Classified where
  | payload
  | liveness
  | testRequest (id : List Byte)
deriving DecidableEq, Repr

def classify (message : List Byte) : Except SessionError Classified :=
  match msgType message with
  | none => .error (.rejected (ascii "a message with no message type: " ++ detail message))
  | some type =>
      if type = HEARTBEAT then .ok .liveness
      else if type = TEST_REQUEST then
        .ok (.testRequest (((fieldOf message TAG_TEST_REQ_ID).map lossy).getD []))
      else if type = SEQUENCE_RESET then .ok .liveness
      else if type = LOGOUT then .error (.loggedOut (detail message))
      else if type = REJECT then .error (.rejected (detail message))
      else if type = RESEND_REQUEST then .error (.resendRequested (detail message))
      else if type = LOGON then
        .error (.rejected (ascii "a second logon on an established session: " ++ detail message))
      else .ok .payload

/-- What a message is that arrives before the logon has been answered. -/
inductive Answer where
  | established
  | keepWaiting
  | refused (detail : List Byte)
  | unrelated (detail : List Byte)
deriving DecidableEq, Repr

def answerOf (message : List Byte) : Answer :=
  match msgType message with
  | none => .unrelated (detail message)
  | some type =>
      if type = LOGON then .established
      else if type = HEARTBEAT ∨ type = TEST_REQUEST ∨ type = SEQUENCE_RESET then .keepWaiting
      else if type = LOGOUT ∨ type = REJECT then .refused (detail message)
      else .unrelated (detail message)

/-! ## The cadence -/

def LOGON_GRACE : ℕ := 10 * NANOS_PER_SEC

def MIN_HEARTBEAT : ℕ := NANOS_PER_SEC

def MAX_HEARTBEAT : ℕ := 600 * NANOS_PER_SEC

/-- The cadence that a logon body states. -/
def heartbeatFrom (body : Body) : Except SessionError ℕ :=
  match fieldOf body.rest TAG_HEART_BT_INT with
  | none => .error .noHeartbeatInterval
  | some stated =>
      let unusable := SessionError.unusableHeartbeatInterval (lossy stated) MIN_HEARTBEAT
        MAX_HEARTBEAT
      match parseUnsigned U64_MAX stated with
      | none => .error unusable
      | some seconds =>
          let interval := seconds * NANOS_PER_SEC
          if interval < MIN_HEARTBEAT ∨ MAX_HEARTBEAT < interval then .error unusable
          else .ok interval

/-- The cadence, and a fifth of it. -/
def withGrace (interval : ℕ) : ℕ := interval + interval / 5

/-! ## The state, and what is outside of it -/

inductive SessionState where
  | closed | connected | logonSent | established | loggingOut
deriving DecidableEq, Repr

inductive Incoming where
  | message (bytes : List Byte)
  | liveness
  | idle
deriving DecidableEq, Repr

structure Session where
  /-- Whether there is a stream. -/
  stream : Bool := false
  state : SessionState := .closed
  nextSequence : ℕ := 1
  heartbeat : Option ℕ := none
  decoder : Decoder := {}
  held : List Byte := []
  lastWriteNs : ℕ := 0
  lastReadNs : ℕ := 0
  testRequestOutstanding : Bool := false
deriving DecidableEq, Repr

/-- What becomes of the bytes of one write: all are out, or the stream or the grace ended it with
so many of them out. -/
inductive WriteOutcome where
  | whole
  | failed (sent : ℕ) (e : StreamError)
  | elapsed (sent : ℕ)
deriving DecidableEq, Repr

inductive ReadOutcome where
  | got (bytes : List Byte)
  | failed (e : StreamError)
deriving DecidableEq, Repr

/-- What is answered to one pass of a loop: the steady clock when a message has been taken, when
the deadlines are compared and when a write is over; the wall clock; the stream. -/
structure Answers where
  taken : ℕ := 0
  now : ℕ := 0
  wrote : ℕ := 0
  wall : ℕ := 0
  write : WriteOutcome := .whole
  read : ReadOutcome := .got []
deriving DecidableEq, Repr

/-- The messages that a session writes. -/
inductive Kind where
  | logon | body | heartbeat | testRequest | answer | logout
deriving DecidableEq, Repr

/-- What a session does, and what it finds. -/
inductive Event where
  | opened (now : ℕ)
  /-- The adapter's logon states a cadence. -/
  | stated (interval : ℕ)
  | wrote (kind : Kind) (message : List Byte) (now : ℕ)
  | cut (kind : Kind) (message : List Byte) (sent : ℕ)
  | took (message : List Byte) (now : ℕ)
  /-- No whole message has been read, and the deadlines are compared. -/
  | checks (now : ℕ)
  | awaits (now wait : ℕ)
  | reads (now wait : ℕ)
  | fed (bytes : List Byte)
  /-- The verdict, and what had been read without a message in it. -/
  | silent (buffered : Decoder) (now : ℕ)
  | closed
deriving DecidableEq, Repr

/-- What a part of a session did, what it left and what it returned. -/
structure Ran (α : Type) where
  events : List Event
  session : Session
  result : Except SessionError α

namespace Ran

variable {α β : Type}

def bind (r : Ran α) (f : Session → α → Ran β) : Ran β :=
  match r.result with
  | .error e => ⟨r.events, r.session, .error e⟩
  | .ok a =>
      let next := f r.session a
      ⟨r.events ++ next.events, next.session, next.result⟩

end Ran

namespace Session

/-! ## Writes -/

/-- Hand a framed message to the stream, and move the session past it. -/
def writeOutbound (s : Session) (kind : Kind) (outbound : List Byte) (a : Answers) : Ran Unit :=
  if ¬s.stream then ⟨[], s, .error .notConnected⟩
  else match a.write with
    | .whole =>
        ⟨[.wrote kind outbound a.wrote],
          { s with nextSequence := s.nextSequence + 1, lastWriteNs := a.wrote }, .ok ()⟩
    | .failed sent e => ⟨[.cut kind outbound sent], s, .error (.stream e)⟩
    | .elapsed sent =>
        ⟨[.cut kind outbound sent], s, .error (.stream (.failed (decimal outbound.length ++
          ascii (" bytes did not leave within 10s: the venue has stopped reading and the send " ++
            "window is full, which a socket that is still open reports as nothing at all"))))⟩

def write (s : Session) (kind : Kind) (body : Body) (resetSequence : Bool) (a : Answers) :
    Ran Unit :=
  s.writeOutbound kind (frame body s.nextSequence (sendingTime a.wall) resetSequence) a

/-- A body of the session layer's own. -/
def compose (type : List Byte) (fs : List (ℕ × List Byte)) : List Byte :=
  pushField TAG_MSG_TYPE type ++ (fs.map fun f ↦ pushField f.1 f.2).flatten

def writeComposed (s : Session) (kind : Kind) (composed : List Byte) (a : Answers) : Ran Unit :=
  match Body.parse composed with
  | .error e => ⟨[], s, .error (.body e)⟩
  | .ok body => s.write kind body false a

def sendHeartbeat (s : Session) (a : Answers) : Ran Unit :=
  s.writeComposed .heartbeat (compose HEARTBEAT []) a

def testRequest (s : Session) (a : Answers) : Ran Unit :=
  (s.writeComposed .testRequest
    (compose TEST_REQUEST [(TAG_TEST_REQ_ID, decimal s.nextSequence)]) a).bind fun s () ↦
      ⟨[], { s with testRequestOutstanding := true }, .ok ()⟩

def answerTestRequest (s : Session) (id : List Byte) (a : Answers) : Ran Unit :=
  s.writeComposed .answer (compose HEARTBEAT [(TAG_TEST_REQ_ID, id)]) a

/-- One read, appended to the decoder. -/
def read (s : Session) (a : Answers) : Ran Unit :=
  if ¬s.stream then ⟨[], s, .error .notConnected⟩
  else match a.read with
    | .failed e => ⟨[], s, .error (.stream e)⟩
    | .got bytes => ⟨[.fed bytes], { s with decoder := s.decoder.feed bytes }, .ok ()⟩

/-! ## Open -/

/-- Take the stream that a connect produced, and reset what belongs to a connection. -/
def «open» (s : Session) (now : ℕ) : Session :=
  { s with
    stream := true
    state := .connected
    nextSequence := 1
    heartbeat := none
    decoder := { s.decoder with buf := [] }
    held := []
    testRequestOutstanding := false
    lastWriteNs := now
    lastReadNs := now }

/-! ## Send -/

/-- Read the venue's answer to the logon.  No result means that it is still awaited. -/
def awaitLogon (deadline : ℕ) : Session → List Answers → Ran (Option Unit)
  | s, [] => ⟨[], s, .ok none⟩
  | s, a :: rounds =>
      match s.decoder.take with
      | .error e => ⟨[], s, .error (.framing e)⟩
      | .ok (some (message, decoder)) =>
          let s := { s with decoder, held := message }
          (⟨[.took message a.taken], s, .ok ()⟩ : Ran Unit).bind fun s () ↦
            match answerOf message with
            | .established =>
                ⟨[], { s with state := .established, lastReadNs := a.taken }, .ok (some ())⟩
            | .keepWaiting => awaitLogon deadline s rounds
            | .refused detail => ⟨[], s, .error (.logonRejected detail)⟩
            | .unrelated detail =>
                ⟨[], s, .error (.rejected (ascii ("the venue answered the logon with a message " ++
                  "that is neither a logon nor a refusal: ") ++ detail))⟩
      | .ok none =>
          if deadline ≤ a.now then ⟨[], s, .error (.logonNotAnswered LOGON_GRACE)⟩
          else
            (⟨[.awaits a.now (deadline - a.now)], s, .ok ()⟩ : Ran Unit).bind fun s () ↦
              (s.read a).bind fun s () ↦ awaitLogon deadline s rounds

/-- Send one body that the adapter wrote.  A logon is answered before this returns; `start` is the
steady clock when that begins. -/
def send (s : Session) (text : List Byte) (a : Answers) (start : ℕ) (rounds : List Answers) :
    Ran (Option Unit) :=
  match Body.parse text with
  | .error e => ⟨[], s, .error (.body e)⟩
  | .ok body =>
      match s.state with
      | .closed => ⟨[], s, .error .notConnected⟩
      | .connected =>
          if body.msgType ≠ LOGON then ⟨[], s, .error (.sentBeforeEstablished body.msgType)⟩
          else match heartbeatFrom body with
            | .error e => ⟨[], s, .error e⟩
            | .ok interval =>
                (⟨[.stated interval], { s with heartbeat := some interval }, .ok ()⟩ :
                  Ran Unit).bind fun s () ↦ (s.write .logon body true a).bind fun s () ↦
                    awaitLogon (start + LOGON_GRACE) { s with state := .logonSent } rounds
      | .logonSent => ⟨[], s, .error (.sentBeforeEstablished body.msgType)⟩
      | .loggingOut => ⟨[], s, .error (.sentBeforeEstablished body.msgType)⟩
      | .established => (s.write .body body false a).bind fun s () ↦ ⟨[], s, .ok (some ())⟩

/-! ## Receive -/

/-- What is done with a message that has been taken. -/
def deliver (s : Session) (a : Answers) : Ran (Option Incoming) :=
  match classify s.held with
  | .error e => ⟨[], s, .error e⟩
  | .ok .payload => ⟨[], s, .ok (some (.message s.held))⟩
  | .ok .liveness => ⟨[], s, .ok (some .liveness)⟩
  | .ok (.testRequest id) =>
      (s.answerTestRequest id a).bind fun s () ↦ ⟨[], s, .ok (some .liveness)⟩

/-- What is done when no whole message is there: the first deadline that has passed decides. -/
def wait (s : Session) (deadline : Option ℕ) (a : Answers) : Ran (Option Incoming) :=
  let interval := s.heartbeat.getD MIN_HEARTBEAT
  let questioned := withGrace interval
  let silence := 2 * questioned
  let heartbeatAt := s.lastWriteNs + interval
  let questionAt := s.lastReadNs + questioned
  let deadAt := s.lastReadNs + silence
  if heartbeatAt ≤ a.now then (s.sendHeartbeat a).bind fun s () ↦ ⟨[], s, .ok none⟩
  else if s.testRequestOutstanding ∧ deadAt ≤ a.now then
    ⟨[.silent s.decoder a.now], s, .error (.silent interval silence)⟩
  else if ¬s.testRequestOutstanding ∧ questionAt ≤ a.now then
    (s.testRequest a).bind fun s () ↦ ⟨[], s, .ok none⟩
  else if deadline.any (· ≤ a.now) then ⟨[], s, .ok (some .idle)⟩
  else
    let wakeAt := min heartbeatAt (if s.testRequestOutstanding then deadAt else questionAt)
    let wakeAt := (deadline.map (min wakeAt)).getD wakeAt
    (⟨[.reads a.now (wakeAt - a.now)], s, .ok ()⟩ : Ran Unit).bind fun s () ↦
      (s.read a).bind fun s () ↦ ⟨[], s, .ok none⟩

/-- One pass of the loop.  No result means another pass. -/
def turn (s : Session) (deadline : Option ℕ) (a : Answers) : Ran (Option Incoming) :=
  match s.decoder.take with
  | .error e => ⟨[], s, .error (.framing e)⟩
  | .ok (some (message, decoder)) =>
      (⟨[.took message a.taken], { s with
          decoder
          held := message
          lastReadNs := a.taken
          testRequestOutstanding := false }, .ok ()⟩ : Ran Unit).bind fun s () ↦ s.deliver a
  | .ok none => (⟨[.checks a.now], s, .ok ()⟩ : Ran Unit).bind fun s () ↦ s.wait deadline a

/-- The passes of the loop, until one has a result. -/
def turns (deadline : Option ℕ) : Session → List Answers → Ran (Option Incoming)
  | s, [] => ⟨[], s, .ok none⟩
  | s, a :: rounds => (s.turn deadline a).bind fun s incoming ↦
      match incoming with
      | some incoming => ⟨[], s, .ok (some incoming)⟩
      | none => turns deadline s rounds

/-- Wait for the next thing from the venue, for at most `budget` from `start` on.  No result means
that it is still awaited. -/
def receive (s : Session) (budget : Option ℕ) (start : ℕ) (rounds : List Answers) :
    Ran (Option Incoming) :=
  match s.state with
  | .closed => ⟨[], s, .error .notConnected⟩
  | .connected => ⟨[], s, .error .noLogon⟩
  | .logonSent => ⟨[], s, .error .logonNotEstablished⟩
  | .established => turns (budget.map (start + ·)) s rounds
  | .loggingOut => turns (budget.map (start + ·)) s rounds

/-! ## Close -/

/-- The logout, written as far as the grace lets it. -/
def logout (s : Session) (a : Answers) : List Event × Session :=
  if s.state ≠ .established then ([], s)
  else
    let s := { s with state := .loggingOut }
    match Body.parse (compose LOGOUT []) with
    | .error _ => ([], s)
    | .ok body =>
        let outbound := frame body s.nextSequence (sendingTime a.wall) false
        let next := { s with nextSequence := s.nextSequence + 1 }
        if ¬s.stream then ([], next)
        else match a.write with
          | .whole => ([.wrote .logout outbound a.wrote], next)
          | .failed sent _ => ([.cut .logout outbound sent], next)
          | .elapsed sent => ([.cut .logout outbound sent], next)

/-- Attempt an orderly logout and release the stream. -/
def close (s : Session) (a : Answers) : List Event × Session :=
  let (events, s) := s.logout a
  (events ++ [.closed], { s with
    stream := false
    state := .closed
    held := []
    decoder := { s.decoder with buf := [] }
    testRequestOutstanding := false })

end Session

/-! ## Runs -/

/-- A call of a session, with what is answered to it. -/
inductive Call where
  | «open» (now : ℕ)
  | send (text : List Byte) (a : Answers) (start : ℕ) (rounds : List Answers)
  | receive (budget : Option ℕ) (start : ℕ) (rounds : List Answers)
  | close (a : Answers)
deriving DecidableEq, Repr

def Session.call (s : Session) : Call → List Event × Session
  | .open now => ([.opened now], s.open now)
  | .send text a start rounds =>
      ((s.send text a start rounds).events, (s.send text a start rounds).session)
  | .receive budget start rounds =>
      ((s.receive budget start rounds).events, (s.receive budget start rounds).session)
  | .close a => s.close a

/-- What the calls of a session do, and what they leave. -/
def Session.calls : Session → List Call → List Event × Session
  | s, [] => ([], s)
  | s, c :: cs =>
      let (events, s) := s.call c
      let (more, s) := s.calls cs
      (events ++ more, s)

def Answers.readings (a : Answers) : List ℕ := [a.taken, a.now, a.wrote]

/-- What the steady clock reads in a call. -/
def Call.readings : Call → List ℕ
  | .open now => [now]
  | .send _ a start rounds => a.readings ++ start :: rounds.flatMap Answers.readings
  | .receive _ start rounds => start :: rounds.flatMap Answers.readings
  | .close a => a.readings

/-- The steady clock never steps back. -/
def Steady (cs : List Call) : Prop := (cs.flatMap Call.readings).Pairwise (· ≤ ·)

instance (cs : List Call) : Decidable (Steady cs) := inferInstanceAs (Decidable (List.Pairwise ..))

end EdgeMulticast.Fix
