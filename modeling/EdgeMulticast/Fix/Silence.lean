import EdgeMulticast.Fix.Session
import EdgeMulticast.Lib.Run

/-!
# When a session is silent

The deadlines of a session are kept from what it has read and written.  `Watch` is what they are of
the trace alone, and `Tracks` that the session agrees with it.

The verdict is due two graced cadences behind the last message, whenever the question was asked.
`silence_of_punctual` is when the venue had its chance all the same, and `late_question` that a
question which is late leaves it less.
-/

namespace EdgeMulticast.Fix

open EdgeMulticast.Lib

/-- What the trace of a session says of its deadlines. -/
structure Watch where
  cadence : Option ℕ := none
  lastWrite : ℕ := 0
  lastRead : ℕ := 0
  /-- When the question that is not answered was whole, and whether the stream was read since. -/
  waiting : Option (ℕ × Bool) := none
deriving DecidableEq, Repr

namespace Watch

def interval (w : Watch) : ℕ := w.cadence.getD MIN_HEARTBEAT

def note (w : Watch) : Event → Watch
  | .opened now => { lastWrite := now, lastRead := now }
  | .stated interval => { w with cadence := some interval, waiting := none }
  | .wrote kind _ now =>
      { w with
        lastWrite := now
        waiting := if kind = .testRequest then some (now, false) else w.waiting }
  | .took _ now => { w with lastRead := now, waiting := none }
  | .fed _ => { w with waiting := w.waiting.map fun asked ↦ (asked.1, true) }
  | .closed => { w with waiting := none }
  | .cut .. | .checks _ | .awaits .. | .reads .. | .silent .. => w

end Watch

def watch (events : List Event) : Watch := run Watch.note {} events

/-- No heartbeat is overdue where the stream is read. -/
def Beating (w : Watch) : Event → Prop
  | .reads now _ => now < w.lastWrite + w.interval
  | _ => True

/-- The question is whole when it is due, and it is not left without a read until the verdict is. -/
def Punctual (w : Watch) : Event → Prop
  | .wrote kind _ now => kind = .testRequest → now ≤ w.lastRead + withGrace w.interval
  | .checks now => ∀ asked ∈ w.waiting, asked.2 = false →
      now < w.lastRead + 2 * withGrace w.interval
  | _ => True

instance Punctual.decidable (w : Watch) : ∀ e, Decidable (Punctual w e)
  | .wrote .. => inferInstanceAs (Decidable (_ → _))
  | .checks _ => inferInstanceAs (Decidable (∀ asked ∈ w.waiting, _))
  | .opened _ | .stated _ | .cut .. | .took .. | .awaits .. | .reads .. | .fed _ | .silent ..
  | .closed => isTrue trivial

/-- A verdict is a graced cadence behind its question and a read, and no message is there. -/
def Questioned (w : Watch) : Event → Prop
  | .silent buffered now => buffered.take = .ok none ∧
      ∃ asked, w.waiting = some (asked, true) ∧ asked + withGrace w.interval ≤ now
  | _ => True

/-- A question that is not answered was whole when it was due. -/
def Timely (w : Watch) : Prop :=
  ∀ asked read, w.waiting = some (asked, read) → asked ≤ w.lastRead + withGrace w.interval

theorem Timely.note {w : Watch} {e : Event} (h : Timely w) (he : Punctual w e) :
    Timely (w.note e) := by
  cases e with
  | wrote kind message now =>
      intro asked read heq
      rw [Watch.note] at heq
      dsimp only at heq
      split at heq
      next hkind =>
          subst hkind
          cases heq
          exact he rfl
      next => exact h asked read heq
  | fed bytes =>
      intro asked read heq
      obtain ⟨before, hwaiting, hsame⟩ := Option.map_eq_some_iff.mp heq
      obtain ⟨rfl, -⟩ := Prod.mk.inj hsame
      exact h before.1 before.2 hwaiting
  | opened now => rintro asked read ⟨⟩
  | stated interval => rintro asked read ⟨⟩
  | took message now => rintro asked read ⟨⟩
  | closed => rintro asked read ⟨⟩
  | cut kind message sent => exact h
  | checks now => exact h
  | awaits now wait => exact h
  | reads now wait => exact h
  | silent buffered now => exact h

theorem Timely.run {w : Watch} {events : List Event} (h : Timely w)
    (hpunctual : Along Watch.note Punctual w events) : Timely (run Watch.note w events) := by
  induction events generalizing w with
  | nil => exact h
  | cons e events ih =>
      obtain ⟨he, hrest⟩ := along_cons.mp hpunctual
      exact ih (h.note he) hrest

/-! ## The session agrees with its trace -/

structure Tracks (s : Session) (w : Watch) : Prop where
  waits : w.waiting.isSome = s.testRequestOutstanding
  quiet : s.state ≠ .established → s.testRequestOutstanding = false
  never : s.state ≠ .loggingOut
  wrote : s.state ≠ .closed → w.lastWrite = s.lastWriteNs
  read : s.state = .established → w.lastRead = s.lastReadNs
  cadence : s.state ≠ .closed → w.cadence = s.heartbeat

/-- A session in one state, and its trace. -/
def In (state : SessionState) (s : Session) (w : Watch) : Prop := Tracks s w ∧ s.state = state

/-- What holds of a part of a session: an invariant behind it, and of what it does. -/
structure Keeps {α : Type} (I : Session → Watch → Prop) (w : Watch) (r : Ran α) : Prop where
  inv : I r.session (run Watch.note w r.events)
  beating : Along Watch.note Beating w r.events
  questioned : Timely w → Along Watch.note Punctual w r.events →
    Along Watch.note Questioned w r.events

variable {α β : Type} {I J : Session → Watch → Prop} {w : Watch} {s s' : Session}
  {result : Except SessionError α} {r : Ran α} {f : Session → α → Ran β} {kind : Kind} {a : Answers}
  {state : SessionState}

namespace Keeps

theorem quiet (h : I s w) : Keeps I w ⟨[], s, result⟩ := ⟨h, along_nil, fun _ _ ↦ along_nil⟩

theorem imp (h : Keeps I w r) (himp : ∀ s w, I s w → J s w) : Keeps J w r :=
  { h with inv := himp _ _ h.inv }

/-- One event that nothing is asked of. -/
theorem one {e : Event} (h : I s (w.note e)) (hbeating : Beating w e)
    (hquestioned : Questioned w e) : Keeps I w ⟨[e], s, result⟩ where
  inv := h
  beating := along_singleton.mpr hbeating
  questioned _ _ := along_singleton.mpr hquestioned

/-- One part behind the other. -/
theorem bind (h : Keeps I w r) (hstop : ∀ s w, I s w → J s w)
    (hnext : ∀ a, r.result = .ok a → Keeps J (run Watch.note w r.events) (f r.session a)) :
    Keeps J w (r.bind f) := by
  rw [Ran.bind]
  cases hresult : r.result with
  | error e =>
      dsimp only
      exact ⟨hstop _ _ h.inv, h.beating, h.questioned⟩
  | ok a =>
      have hrest := hnext a hresult
      refine ⟨?_, along_append.mpr ⟨h.beating, hrest.beating⟩, ?_⟩
      · dsimp only
        rw [run_append]
        exact hrest.inv
      · intro htimely hpunctual
        obtain ⟨hfirst, hsecond⟩ := along_append.mp hpunctual
        exact along_append.mpr ⟨h.questioned htimely hfirst,
          hrest.questioned (htimely.run hfirst) hsecond⟩

end Keeps

/-! ## Writes -/

/-- What a write does: it moves the session past the message, or leaves it. -/
inductive Wrote (s : Session) (kind : Kind) (a : Answers) : Ran Unit → Prop where
  | whole (outbound : List Byte) : Wrote s kind a ⟨[.wrote kind outbound a.wrote],
      { s with nextSequence := s.nextSequence + 1, lastWriteNs := a.wrote }, .ok ()⟩
  | refused (e : SessionError) : Wrote s kind a ⟨[], s, .error e⟩
  | cut (outbound : List Byte) (sent : ℕ) (e : SessionError) :
      Wrote s kind a ⟨[.cut kind outbound sent], s, .error e⟩

theorem wrote_writeOutbound (s : Session) (kind : Kind) (outbound : List Byte) (a : Answers) :
    Wrote s kind a (s.writeOutbound kind outbound a) := by
  rw [Session.writeOutbound]
  split
  next => exact .refused _
  next =>
      split
      next => exact .whole outbound
      next => exact .cut ..
      next => exact .cut ..

theorem wrote_writeComposed (s : Session) (kind : Kind) (composed : List Byte) (a : Answers) :
    Wrote s kind a (s.writeComposed kind composed a) := by
  rw [Session.writeComposed]
  split
  next => exact .refused _
  next => exact wrote_writeOutbound ..

/-- A write that is no question. -/
theorem Wrote.keeps {r : Ran Unit} (hr : Wrote s kind a r) (hkind : kind ≠ .testRequest)
    (h : In state s w) (hopen : state ≠ .closed) : Keeps (In state) w r := by
  obtain ⟨h, rfl⟩ := h
  cases hr with
  | whole outbound =>
      refine .one ⟨{ h with wrote := fun _ ↦ rfl, waits := ?_ }, rfl⟩ trivial trivial
      rw [Watch.note, if_neg hkind]
      exact h.waits
  | refused e => exact .quiet ⟨h, rfl⟩
  | cut outbound sent e => exact .one ⟨h, rfl⟩ trivial trivial

theorem keeps_testRequest (h : In .established s w) : Keeps (In .established) w (s.testRequest a) := by
  obtain ⟨h, hstate⟩ := h
  have hwrote := wrote_writeComposed s .testRequest
    (Session.compose TEST_REQUEST [(TAG_TEST_REQ_ID, decimal s.nextSequence)]) a
  rw [Session.testRequest]
  generalize s.writeComposed .. = written at hwrote ⊢
  cases hwrote with
  | whole outbound =>
      refine .one ⟨?_, hstate⟩ trivial trivial
      exact { h with
        waits := rfl
        quiet := fun hne ↦ absurd hstate hne
        wrote := fun _ ↦ rfl }
  | refused e => exact .quiet ⟨h, hstate⟩
  | cut outbound sent e => exact .one ⟨h, hstate⟩ trivial trivial

/-! ## Reads -/

theorem keeps_read (h : In state s w) : Keeps (In state) w (s.read a) := by
  rw [Session.read]
  split
  next => exact .quiet h
  next =>
  split
  next => exact .quiet h
  next bytes _ =>
      obtain ⟨h, hstate⟩ := h
      refine .one ⟨{ h with waits := ?_ }, hstate⟩ trivial trivial
      rw [Watch.note, Option.isSome_map]
      exact h.waits

/-- The logon is awaited in the state that it was sent in, or it established the session. -/
theorem keeps_awaitLogon (deadline : ℕ) (rounds : List Answers) (h : In .logonSent s w) :
    Keeps Tracks w (Session.awaitLogon deadline s rounds) := by
  induction rounds generalizing s w with
  | nil => exact .quiet h.1
  | cons a rounds ih =>
      rw [Session.awaitLogon]
      split
      next => exact .quiet h.1
      next message decoder _ =>
          obtain ⟨h, hstate⟩ := h
          have hquiet : s.testRequestOutstanding = false :=
            h.quiet (hstate ▸ SessionState.noConfusion)
          have htook : In .logonSent { s with decoder, held := message }
              (w.note (.took message a.taken)) := by
            refine ⟨{ h with waits := hquiet.symm, read := fun heq ↦ ?_ }, hstate⟩
            cases hstate.symm.trans heq
          refine Keeps.bind (I := In .logonSent) (.one htook trivial trivial)
            (fun _ _ h ↦ h.1) fun _ _ ↦ ?_
          dsimp only
          split
          next =>
              refine .quiet { htook.1 with quiet := ?_, never := ?_, wrote := ?_, read := ?_,
                                           cadence := ?_ }
              · exact fun hne ↦ absurd rfl hne
              · rintro ⟨⟩
              · exact fun _ ↦ htook.1.wrote (htook.2 ▸ SessionState.noConfusion)
              · exact fun _ ↦ rfl
              · exact fun _ ↦ htook.1.cadence (htook.2 ▸ SessionState.noConfusion)
          next => exact ih htook
          next => exact .quiet htook.1
          next => exact .quiet htook.1
      next =>
      split
      next => exact .quiet h.1
      next =>
          refine Keeps.bind (I := In .logonSent) (.one h trivial trivial)
            (fun _ _ h ↦ h.1) fun _ _ ↦ ?_
          have hread := keeps_read (a := a) h
          exact hread.bind (fun _ _ h ↦ h.1) fun _ _ ↦ ih hread.inv

/-! ## Passes -/

theorem keeps_deliver (h : In .established s w) : Keeps (In .established) w (s.deliver a) := by
  rw [Session.deliver]
  split
  next => exact .quiet h
  next => exact .quiet h
  next => exact .quiet h
  next id _ =>
      have hwrote : Wrote s .answer a (s.answerTestRequest id a) := wrote_writeComposed ..
      have hkeeps := hwrote.keeps Kind.noConfusion h SessionState.noConfusion
      exact hkeeps.bind (fun _ _ h ↦ h) fun _ _ ↦ .quiet hkeeps.inv

/-- The cadence of an established session is that of its trace. -/
theorem In.interval (h : In .established s w) : s.heartbeat.getD MIN_HEARTBEAT = w.interval := by
  rw [Watch.interval, h.1.cadence (h.2 ▸ SessionState.noConfusion)]

/-- What is done without a message keeps the session in step, or it is the verdict. -/
theorem keeps_wait (h : In .established s w) (deadline : Option ℕ) :
    Keeps (In .established) w (s.wait deadline a) ∨
      s.testRequestOutstanding ∧ w.lastRead + 2 * withGrace w.interval ≤ a.now ∧
        (s.wait deadline a).events = [.silent s.decoder a.now] ∧
        (s.wait deadline a).session = s := by
  have hread : w.lastRead = s.lastReadNs := h.1.read h.2
  have hwrote : w.lastWrite = s.lastWriteNs := h.1.wrote (h.2 ▸ SessionState.noConfusion)
  rw [Session.wait, h.interval, ← hread, ← hwrote]
  dsimp only
  split
  next =>
      have hbeat : Wrote s .heartbeat a (s.sendHeartbeat a) := wrote_writeComposed ..
      have hkeeps := hbeat.keeps Kind.noConfusion h SessionState.noConfusion
      exact .inl (hkeeps.bind (fun _ _ h ↦ h) fun _ _ ↦ .quiet hkeeps.inv)
  next hbeats =>
  split
  next hsilent => exact .inr ⟨hsilent.1, hsilent.2, rfl, rfl⟩
  next =>
  split
  next =>
      have hkeeps := keeps_testRequest (a := a) h
      exact .inl (hkeeps.bind (fun _ _ h ↦ h) fun _ _ ↦ .quiet hkeeps.inv)
  next =>
  split
  next => exact .inl (.quiet h)
  next =>
      refine .inl (Keeps.bind (I := In .established) (.one h ?_ trivial) (fun _ _ h ↦ h)
        fun _ _ ↦ ?_)
      · exact Nat.lt_of_not_le hbeats
      · have hkeeps := keeps_read (a := a) h
        exact hkeeps.bind (fun _ _ h ↦ h) fun _ _ ↦ .quiet hkeeps.inv

/-- **The deadlines are compared.** -/
theorem keeps_check (h : In .established s w) (hnone : s.decoder.take = .ok none)
    (deadline : Option ℕ) : Keeps (In .established) w
      ((⟨[.checks a.now], s, .ok ()⟩ : Ran Unit).bind fun s () ↦ s.wait deadline a) := by
  rcases keeps_wait (a := a) h deadline with hkeeps | ⟨houtstanding, hdead, hevents, hsession⟩
  · exact Keeps.bind (I := In .established) (.one h trivial trivial) (fun _ _ h ↦ h)
      fun _ _ ↦ hkeeps
  · rw [Ran.bind]
    dsimp only
    rw [hevents, hsession]
    refine ⟨h, ?_, fun htimely hpunctual ↦ ?_⟩
    · exact along_cons.mpr ⟨trivial, along_singleton.mpr trivial⟩
    · refine along_cons.mpr ⟨trivial, along_singleton.mpr ⟨hnone, ?_⟩⟩
      have hwaits := h.1.waits
      rw [houtstanding] at hwaits
      obtain ⟨⟨asked, read⟩, hwaiting⟩ := Option.isSome_iff_exists.mp hwaits
      cases read with
      | false =>
          have hearly := (along_cons.mp hpunctual).1 _ hwaiting rfl
          exact absurd hdead (Nat.not_le_of_lt hearly)
      | true =>
          refine ⟨asked, hwaiting, ?_⟩
          have hasked := htimely asked true hwaiting
          calc asked + withGrace w.interval
              ≤ w.lastRead + withGrace w.interval + withGrace w.interval :=
                Nat.add_le_add_right hasked _
            _ = w.lastRead + 2 * withGrace w.interval := by omega
            _ ≤ a.now := hdead

theorem keeps_turn (h : In .established s w) (deadline : Option ℕ) :
    Keeps (In .established) w (s.turn deadline a) := by
  rw [Session.turn]
  split
  next => exact .quiet h
  next message decoder _ =>
      have htook : In .established { s with
          decoder
          held := message
          lastReadNs := a.taken
          testRequestOutstanding := false } (w.note (.took message a.taken)) :=
        ⟨{ h.1 with
            waits := rfl
            quiet := fun _ ↦ rfl
            read := fun _ ↦ rfl }, h.2⟩
      exact Keeps.bind (I := In .established) (.one htook trivial trivial) (fun _ _ h ↦ h)
        fun _ _ ↦ keeps_deliver htook
  next hnone => exact keeps_check h hnone deadline

theorem keeps_turns (deadline : Option ℕ) (rounds : List Answers) (h : In .established s w) :
    Keeps (In .established) w (Session.turns deadline s rounds) := by
  induction rounds generalizing s w with
  | nil => exact .quiet h
  | cons a rounds ih =>
      rw [Session.turns]
      have hturn := keeps_turn (a := a) h deadline
      refine hturn.bind (fun _ _ h ↦ h) fun incoming _ ↦ ?_
      cases incoming with
      | none => exact ih hturn.inv
      | some incoming => exact .quiet hturn.inv

/-! ## Calls -/

theorem keeps_send (h : Tracks s w) (text : List Byte) (a : Answers) (start : ℕ)
    (rounds : List Answers) : Keeps Tracks w (s.send text a start rounds) := by
  rw [Session.send]
  split
  next => exact .quiet h
  next body _ =>
  split
  next => exact .quiet h
  next hstate =>
      split
      next => exact .quiet h
      next =>
      split
      next => exact .quiet h
      next interval _ =>
          have hquiet : s.testRequestOutstanding = false :=
            h.quiet (hstate ▸ SessionState.noConfusion)
          have hstated : In .connected { s with heartbeat := some interval }
              (w.note (.stated interval)) :=
            ⟨{ h with waits := hquiet.symm, cadence := fun _ ↦ rfl }, hstate⟩
          refine Keeps.bind (I := In .connected) (.one hstated trivial trivial)
            (fun _ _ h ↦ h.1) fun _ _ ↦ ?_
          have hwrote : Wrote { s with heartbeat := some interval } .logon a
              (Session.write { s with heartbeat := some interval } .logon body true a) :=
            wrote_writeOutbound ..
          have hkeeps := hwrote.keeps Kind.noConfusion hstated SessionState.noConfusion
          refine hkeeps.bind (fun _ _ h ↦ h.1) fun _ _ ↦ keeps_awaitLogon _ rounds ⟨?_, rfl⟩
          obtain ⟨htracks, hconnected⟩ := hkeeps.inv
          exact { htracks with
            quiet := fun _ ↦ htracks.quiet (hconnected ▸ SessionState.noConfusion)
            never := SessionState.noConfusion
            wrote := fun _ ↦ htracks.wrote (hconnected ▸ SessionState.noConfusion)
            read := by rintro ⟨⟩
            cadence := fun _ ↦ htracks.cadence (hconnected ▸ SessionState.noConfusion) }
  next => exact .quiet h
  next => exact .quiet h
  next hstate =>
      have hwrote : Wrote s .body a (s.write .body body false a) := wrote_writeOutbound ..
      have hkeeps := hwrote.keeps Kind.noConfusion ⟨h, hstate⟩ SessionState.noConfusion
      exact hkeeps.bind (fun _ _ h ↦ h.1) fun _ _ ↦ .quiet hkeeps.inv.1

theorem keeps_receive (h : Tracks s w) (budget : Option ℕ) (start : ℕ) (rounds : List Answers) :
    Keeps Tracks w (s.receive budget start rounds) := by
  rw [Session.receive]
  split
  next => exact .quiet h
  next => exact .quiet h
  next => exact .quiet h
  next hstate => exact (keeps_turns _ rounds ⟨h, hstate⟩).imp fun _ _ h ↦ h.1
  next hstate => exact absurd hstate h.never

/-- What a logout does is over before the stream is released. -/
theorem logout_events (s : Session) (a : Answers) : (s.logout a).1 = [] ∨
    ∃ e, (s.logout a).1 = [e] ∧ Beating w e ∧ Questioned w e := by
  rw [Session.logout]
  split
  next => exact .inl rfl
  next =>
  dsimp only
  split
  next => exact .inl rfl
  next =>
  split
  next => exact .inl rfl
  next =>
  split
  next => exact .inr ⟨_, rfl, trivial, trivial⟩
  next => exact .inr ⟨_, rfl, trivial, trivial⟩
  next => exact .inr ⟨_, rfl, trivial, trivial⟩

/-- What a call did, as a part of the session. -/
def called (r : List Event × Session) : Ran Unit := ⟨r.1, r.2, .ok ()⟩

theorem keeps_close (w : Watch) (s : Session) (a : Answers) : Keeps Tracks w (called (s.close a)) := by
  constructor
  · rw [called, Session.close]
    dsimp only
    rw [run_append]
    constructor
    · rfl
    · exact fun _ ↦ rfl
    · rintro ⟨⟩
    · exact fun hne ↦ absurd rfl hne
    · rintro ⟨⟩
    · exact fun hne ↦ absurd rfl hne
  · show Along Watch.note Beating w ((s.logout a).1 ++ [.closed])
    refine along_append.mpr ⟨?_, along_singleton.mpr trivial⟩
    rcases logout_events (w := w) s a with hnil | ⟨e, he, hbeating, -⟩
    · rw [hnil]
      exact along_nil
    · rw [he]
      exact along_singleton.mpr hbeating
  · show _ → _ → Along Watch.note Questioned w ((s.logout a).1 ++ [.closed])
    refine fun _ _ ↦ along_append.mpr ⟨?_, along_singleton.mpr trivial⟩
    rcases logout_events (w := w) s a with hnil | ⟨e, he, -, hquestioned⟩
    · rw [hnil]
      exact along_nil
    · rw [he]
      exact along_singleton.mpr hquestioned

theorem keeps_call (h : Tracks s w) (c : Call) : Keeps Tracks w (called (s.call c)) := by
  cases c with
  | «open» now =>
      refine .one ?_ trivial trivial
      constructor
      · rfl
      · exact fun _ ↦ rfl
      · rintro ⟨⟩
      · exact fun _ ↦ rfl
      · rintro ⟨⟩
      · exact fun _ ↦ rfl
  | send text a start rounds =>
      have hsend := keeps_send h text a start rounds
      exact ⟨hsend.inv, hsend.beating, hsend.questioned⟩
  | receive budget start rounds =>
      have hreceive := keeps_receive h budget start rounds
      exact ⟨hreceive.inv, hreceive.beating, hreceive.questioned⟩
  | close a => exact keeps_close w s a

/-- **Every run of a session keeps its trace.** -/
theorem keeps_calls (cs : List Call) (h : Tracks s w) : Keeps Tracks w (called (s.calls cs)) := by
  induction cs generalizing s w with
  | nil => exact .quiet h
  | cons c cs ih =>
      have hcall := keeps_call h c
      have hboth := hcall.bind (f := fun s () ↦ called (s.calls cs)) (fun _ _ h ↦ h)
        fun _ _ ↦ ih hcall.inv
      exact ⟨hboth.inv, hboth.beating, hboth.questioned⟩

theorem tracks_new : Tracks {} {} where
  waits := rfl
  quiet _ := rfl
  never := by rintro ⟨⟩
  wrote hne := absurd rfl hne
  read := by rintro ⟨⟩
  cadence hne := absurd rfl hne

/-! ## The verdict -/

/-- What is left of a trace behind the question that is not answered. -/
theorem asked_of_waiting {events : List Event} {asked : ℕ} {read : Bool}
    (h : (watch events).waiting = some (asked, read)) :
    ∃ before message after, events = before ++ .wrote .testRequest message asked :: after ∧
      (read → ∃ bytes, .fed bytes ∈ after) ∧ ∀ message now, .took message now ∉ after := by
  induction events using List.reverseRecOn generalizing read with
  | nil => cases h
  | append_singleton events e ih =>
      rw [watch, run_snoc] at h
      -- an event that leaves the question as it was
      have hsame (h : (watch events).waiting = some (asked, read))
          (htook : ∀ message now, e ≠ .took message now) :
          ∃ before message after, events ++ [e] = before ++ .wrote .testRequest message asked ::
            after ∧ (read → ∃ bytes, .fed bytes ∈ after) ∧ ∀ message now, .took message now ∉ after := by
        obtain ⟨before, message, after, hevents, hread, hnone⟩ := ih h
        refine ⟨before, message, after ++ [e], ?_, fun hr ↦ ?_, fun message now hmem ↦ ?_⟩
        · rw [hevents, List.append_assoc, List.cons_append]
        · obtain ⟨bytes, hbytes⟩ := hread hr
          exact ⟨bytes, List.mem_append_left _ hbytes⟩
        · rcases List.mem_append.mp hmem with hmem | hmem
          · exact hnone message now hmem
          · exact htook message now (List.mem_singleton.mp hmem).symm
      cases e with
      | wrote kind message now =>
          rw [Watch.note] at h
          dsimp only at h
          split at h
          next hkind =>
              subst hkind
              cases h
              exact ⟨events, message, [], rfl, by rintro ⟨⟩, by rintro message now ⟨⟩⟩
          next => exact hsame h (by rintro message now ⟨⟩)
      | fed bytes =>
          obtain ⟨earlier, hwaiting, hsame⟩ := Option.map_eq_some_iff.mp h
          obtain ⟨rfl, rfl⟩ := Prod.mk.inj hsame
          obtain ⟨before, message, after, hevents, -, hnone⟩ := ih hwaiting
          refine ⟨before, message, after ++ [.fed bytes], ?_, fun _ ↦ ?_, fun message now hmem ↦ ?_⟩
          · rw [hevents, List.append_assoc, List.cons_append]
          · exact ⟨bytes, List.mem_append_right _ List.mem_cons_self⟩
          · rcases List.mem_append.mp hmem with hmem | hmem
            · exact hnone message now hmem
            · cases List.mem_singleton.mp hmem
      | opened now => cases h
      | stated interval => cases h
      | took message now => cases h
      | closed => cases h
      | cut kind message sent => exact hsame h (by rintro message now ⟨⟩)
      | checks now => exact hsame h (by rintro message now ⟨⟩)
      | awaits now wait => exact hsame h (by rintro message now ⟨⟩)
      | reads now wait => exact hsame h (by rintro message now ⟨⟩)
      | silent buffered now => exact hsame h (by rintro message now ⟨⟩)

/-- The venue had its chance: a graced cadence ago a question was whole, the stream was read since,
and no message was there, then or at the verdict. -/
structure Chance (before : List Event) (buffered : Decoder) (now : ℕ) : Prop where
  asked : ∃ earlier message asked after,
    before = earlier ++ .wrote .testRequest message asked :: after ∧
      asked + withGrace (watch before).interval ≤ now ∧ (∃ bytes, .fed bytes ∈ after) ∧
      ∀ message now, .took message now ∉ after
  nothing : buffered.take = .ok none

/-- **When a silent session is one whose venue had its chance.** -/
theorem silence_of_punctual (cs : List Call) :
    (∀ before now wait, before ++ [.reads now wait] <+: (({} : Session).calls cs).1 →
      now < (watch before).lastWrite + (watch before).interval) ∧
    ((∀ before e, before ++ [e] <+: (({} : Session).calls cs).1 → Punctual (watch before) e) →
      ∀ before buffered now, before ++ [.silent buffered now] <+: (({} : Session).calls cs).1 →
        Chance before buffered now) := by
  have hkeeps := keeps_calls cs tracks_new
  refine ⟨fun before now wait hprefix ↦ hkeeps.beating before _ hprefix, ?_⟩
  intro hpunctual before buffered now hprefix
  have htimely : Timely {} := by rintro asked read ⟨⟩
  obtain ⟨hnothing, asked, hwaiting, hcadence⟩ :=
    hkeeps.questioned htimely hpunctual before _ hprefix
  obtain ⟨earlier, message, after, hbefore, hread, hnone⟩ := asked_of_waiting hwaiting
  exact ⟨⟨earlier, message, asked, after, hbefore, hcadence, hread rfl, hnone⟩, hnothing⟩

/-! ## Questions that are late -/

/-- A pass that returns nothing is followed by the next. -/
theorem turns_cons_of_again {e : List Event} (hturn : s.turn none a = ⟨e, s', .ok none⟩)
    (rounds : List Answers) : (Session.turns none s (a :: rounds)).events =
      e ++ (Session.turns none s' rounds).events := by
  rw [Session.turns, hturn]
  rfl

/-- A check that finds the session dead. -/
theorem turns_dead (h : In .established s w) (hnone : s.decoder.take = .ok none)
    (hasked : w.waiting.isSome) (hbeats : a.now < w.lastWrite + w.interval)
    (hdead : w.lastRead + 2 * withGrace w.interval ≤ a.now) (rounds : List Answers) :
    .silent s.decoder a.now ∈ (Session.turns none s (a :: rounds)).events := by
  have hoverdue : ¬s.lastWriteNs + w.interval ≤ a.now := by
    rw [← h.1.wrote (h.2 ▸ SessionState.noConfusion)]
    exact Nat.not_le_of_lt hbeats
  have hsilent : s.testRequestOutstanding ∧ s.lastReadNs + 2 * withGrace w.interval ≤ a.now := by
    rw [← h.1.waits, ← h.1.read h.2]
    exact ⟨hasked, hdead⟩
  have hwait : (s.wait none a).events = [.silent s.decoder a.now] := by
    rw [Session.wait, h.interval]
    dsimp only
    rw [if_neg hoverdue, if_pos hsilent]
  rw [Session.turns, Session.turn, hnone]
  have hmem : .silent s.decoder a.now ∈ .checks a.now :: (s.wait none a).events := by
    rw [hwait]
    exact List.mem_cons_of_mem _ List.mem_cons_self
  show .silent s.decoder a.now ∈ (Ran.bind (Ran.bind ..) _).events
  rw [Ran.bind]
  split
  next => exact hmem
  next => exact List.mem_append_left _ hmem

theorem sendHeartbeat_whole (hstream : s.stream) (now : ℕ) : ∃ outbound,
    s.sendHeartbeat { now, wrote := now } = ⟨[.wrote .heartbeat outbound now],
      { s with nextSequence := s.nextSequence + 1, lastWriteNs := now }, .ok ()⟩ := by
  have hbody : Body.parse (Session.compose HEARTBEAT []) = .ok ⟨HEARTBEAT, []⟩ := by decide
  rw [Session.sendHeartbeat, Session.writeComposed, hbody]
  exact ⟨_, if_neg (not_not_intro hstream)⟩

theorem feed_nil (d : Decoder) : d.feed [] = d := by rw [Decoder.feed, List.append_nil]

/-- A read that finds nothing leaves the session as it was. -/
theorem read_nothing (hstream : s.stream) (hread : a.read = .got []) :
    s.read a = ⟨[.fed []], s, .ok ()⟩ := by
  rw [Session.read, if_neg (not_not_intro hstream), hread]
  dsimp only
  rw [feed_nil]

/-- No whole message is there, and the session does what is due. -/
theorem turn_of_wait {e : List Event} {result : Except SessionError (Option Incoming)}
    (hnone : s.decoder.take = .ok none) (hwait : s.wait none a = ⟨e, s', result⟩) :
    s.turn none a = ⟨.checks a.now :: e, s', result⟩ := by
  rw [Session.turn, hnone]
  dsimp only [Ran.bind]
  rw [hwait]
  rfl

/-- **A question that is late leaves the venue less.**  The stream is read, nothing arrives, and
the verdict comes before the question is a graced cadence old. -/
theorem late_question (h : In .established s w) (hstream : s.stream)
    (hnone : s.decoder.take = .ok none) (hcadence : 0 < w.interval)
    (hasked : w.waiting = some (w.lastWrite, false))
    (hlate : w.lastRead + withGrace w.interval < w.lastWrite)
    (hearly : w.lastWrite < w.lastRead + 2 * withGrace w.interval) :
    ∃ rounds now, (w.lastWrite :: rounds.flatMap fun a ↦ [a.now, a.wrote]).Pairwise (· ≤ ·) ∧
      .silent s.decoder now ∈ (Session.turns none s rounds).events ∧
      now < w.lastWrite + withGrace w.interval := by
  have hwrote : w.lastWrite = s.lastWriteNs := h.1.wrote (h.2 ▸ SessionState.noConfusion)
  have hread : w.lastRead = s.lastReadNs := h.1.read h.2
  have hwaiting : w.waiting.isSome := by rw [hasked]; rfl
  have houtstanding : s.testRequestOutstanding := h.1.waits ▸ hwaiting
  obtain ⟨dead, hdead⟩ : ∃ dead, dead = w.lastRead + 2 * withGrace w.interval := ⟨_, rfl⟩
  -- the stream is read where the question was whole
  have hfirst : ∃ e, s.turn none { now := w.lastWrite, wrote := w.lastWrite } =
      ⟨e, s, .ok none⟩ := by
    have hwait : ∃ e, s.wait none { now := w.lastWrite, wrote := w.lastWrite } =
        ⟨e, s, .ok none⟩ := by
      rw [Session.wait, h.interval, ← hwrote, ← hread, houtstanding]
      dsimp only
      rw [if_neg (by omega), if_neg (by omega), if_neg (by simp), if_neg (by simp)]
      dsimp only [Ran.bind]
      rw [read_nothing hstream rfl]
      exact ⟨_, rfl⟩
    obtain ⟨e, hwait⟩ := hwait
    exact ⟨_, turn_of_wait hnone hwait⟩
  obtain ⟨e, hfirst⟩ := hfirst
  have hlast : w.lastWrite ≤ dead := hdead ▸ hearly.le
  by_cases hbeats : dead < w.lastWrite + w.interval
  · refine ⟨[{ now := w.lastWrite, wrote := w.lastWrite }, { now := dead, wrote := dead }], dead,
      by simp [hlast], ?_, by omega⟩
    rw [turns_cons_of_again hfirst]
    exact List.mem_append_right _
      (turns_dead (a := { now := dead, wrote := dead }) h hnone hwaiting hbeats hdead.ge [])
  · -- a heartbeat falls due before the verdict, and goes out at once
    obtain ⟨outbound, hbeat⟩ := sendHeartbeat_whole hstream dead
    have hsecond : ∃ e, s.turn none { now := dead, wrote := dead } =
        ⟨e, { s with nextSequence := s.nextSequence + 1, lastWriteNs := dead }, .ok none⟩ := by
      have hwait : ∃ e, s.wait none { now := dead, wrote := dead } =
          ⟨e, { s with nextSequence := s.nextSequence + 1, lastWriteNs := dead }, .ok none⟩ := by
        rw [Session.wait, h.interval, ← hwrote]
        dsimp only
        rw [if_pos (Nat.le_of_not_lt hbeats), hbeat]
        exact ⟨_, rfl⟩
      obtain ⟨e, hwait⟩ := hwait
      exact ⟨_, turn_of_wait hnone hwait⟩
    obtain ⟨e', hsecond⟩ := hsecond
    have hnext : In .established { s with nextSequence := s.nextSequence + 1, lastWriteNs := dead }
        { w with lastWrite := dead } := ⟨{ h.1 with wrote := fun _ ↦ rfl }, h.2⟩
    refine ⟨[{ now := w.lastWrite, wrote := w.lastWrite }, { now := dead, wrote := dead },
      { now := dead, wrote := dead }], dead, by simp [hlast], ?_, by omega⟩
    rw [turns_cons_of_again hfirst, turns_cons_of_again hsecond]
    refine List.mem_append_right _ (List.mem_append_right _ ?_)
    exact turns_dead (a := { now := dead, wrote := dead }) hnext hnone hwaiting
      (Nat.lt_add_of_pos_right hcadence) hdead.ge []

/-! ## Two sessions -/

/-- Every clock at so many seconds. -/
def Answers.at (seconds : ℕ) : Answers where
  taken := seconds * NANOS_PER_SEC
  now := seconds * NANOS_PER_SEC
  wrote := seconds * NANOS_PER_SEC

/-- A session of thirty seconds that is established at once. -/
def established : List Call :=
  let text := Session.compose LOGON [(98, ascii "0"), (TAG_HEART_BT_INT, ascii "30")]
  let answer := frame ⟨LOGON, []⟩ 1 (sendingTime 0) false
  [.open 0, .send text {} 0 [{ read := .got answer }, {}]]

/-- A venue that says nothing, to a session that is called in time. -/
def mute : List Call :=
  established ++ [.receive none 0
    [.at 0, .at 30, .at 30, .at 36, .at 36, .at 66, .at 66, .at 72]]

/-- A caller that comes back after a hundred seconds. -/
def stalled : List Call :=
  established ++ [.receive none (100 * NANOS_PER_SEC) [.at 100, .at 100, .at 100]]

theorem silence_mute :
    Chance (({} : Session).calls mute).1.dropLast {} (72 * NANOS_PER_SEC) := by
  have hpunctual : Along Watch.note Punctual {} (({} : Session).calls mute).1 := by decide +kernel
  exact (silence_of_punctual mute).2 hpunctual _ _ _ (by decide +kernel)

/-- A question at so many nanoseconds or later. -/
def Event.asksFrom (ns : ℕ) : Event → Bool
  | .wrote .testRequest _ now => ns ≤ now
  | _ => true

theorem silence_stalled : Steady stalled ∧
    (({} : Session).calls stalled).1.dropLast ++ [.silent {} (100 * NANOS_PER_SEC)] <+:
      (({} : Session).calls stalled).1 ∧
    ¬Chance (({} : Session).calls stalled).1.dropLast {} (100 * NANOS_PER_SEC) := by
  refine ⟨by decide +kernel, by decide +kernel, fun hchance ↦ ?_⟩
  obtain ⟨earlier, message, asked, after, hbefore, hcadence, -⟩ := hchance.asked
  have hall : ∀ e ∈ (({} : Session).calls stalled).1.dropLast,
      e.asksFrom (100 * NANOS_PER_SEC) := by decide +kernel
  have hinterval : 0 < withGrace (watch (({} : Session).calls stalled).1.dropLast).interval := by
    decide +kernel
  have hmem : .wrote .testRequest message asked ∈ (({} : Session).calls stalled).1.dropLast := by
    rw [hbefore]
    exact List.mem_append_right _ List.mem_cons_self
  have hasked : 100 * NANOS_PER_SEC ≤ asked := of_decide_eq_true (hall _ hmem)
  omega

end EdgeMulticast.Fix
