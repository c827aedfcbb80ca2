import EdgeMulticast.Ingress.Rounds

/-!
# The driver keeps its pairings

A run of the driver is one turn after another, each from one connect attempt to the next or to the
return (`Turn`).  `cycle_cases` says what one turn may do; what an adapter and an operator are promised
of it is read off its milestones.
-/

namespace EdgeMulticast.Ingress

open EdgeMulticast.Lib
open EdgeMulticast.Lib.Traced (May)

variable {W Event : Type}

namespace Call

/-- A call that tells the adapter of a connection. -/
def isSession : Call Event → Bool
  | .onConnected .. | .onDisconnected .. => true
  | _ => false

/-- A call that tells the observer of a connection. -/
def isReport : Call Event → Bool
  | .connectionState .. | .reconnect _ => true
  | _ => false

/-- A call that only a connection that was reported up has. -/
def isUp : Call Event → Bool
  | .connectionState _ true | .reconnect _ => true
  | _ => false

end Call

/-- What holds of a turn of the driver. -/
structure Turn (t : List (Call Event)) : Prop where
  /-- It is one connect attempt. -/
  connects : ∃ r rest, t = .connect r :: rest ∧ ∀ r, .connect r ∉ rest
  /-- The adapter is told of a connection once, and once of its end. -/
  paired : t.filter Call.isSession = [] ∨ ∃ connection queued result reason,
    t.filter Call.isSession =
      [.onConnected connection queued result, .onDisconnected connection reason]
  /-- Either the connection is never reported up and no reconnect is counted, or it is reported up when
  all that was queued has been sent, and then down, and one reconnect is counted. -/
  reported : (∀ call ∈ t, call.isUp = false) ∨
    ∃ before connection queued after reason,
      t = before ++ .connectionState connection true :: after ∧
      before.filter Call.isSession = [.onConnected connection queued (.ok ())] ∧
      before.filter Call.isSend = queued.map (.send · (.ok ())) ∧
      before.filter Call.isReport = [] ∧
      after.filter Call.isReport = [.connectionState connection false, .reconnect reason]
  /-- The events of a payload, and these alone, are in the scope of its receive stamp. -/
  inScope : Scoped t
  /-- The delay sequence starts over for a connection that was reported up and has delivered, unless it
  ended in `rate_limit` or in a fatal error. -/
  reset : .backoffReset ∈ t ↔ (∃ connection, .connectionState connection true ∈ t) ∧
    (∃ payload result, .onPayload payload result ∈ t) ∧
    (∀ connection, .onDisconnected connection .rateLimit ∉ t) ∧ ∀ e, e.isFatal = true → ¬Fails e t
  /-- It does so once, when all else is done. -/
  resetLast : .backoffReset ∈ t →
    ∃ before delay, t = before ++ [.backoffReset, .sleep delay] ∧ .backoffReset ∉ before
  /-- The driver returns on a fatal error alone, when all else is done. -/
  returned : ∀ e, .returned e ∈ t ↔ e.isFatal = true ∧ Fails e t
  returnedLast : ∀ e, .returned e ∈ t →
    ∃ before, t = before ++ [.returned e] ∧ ∀ e', .returned e' ∉ before

/-- A turn that has not come to its end: the connection is up. -/
structure Underway (t : List (Call Event)) : Prop where
  connects : ∃ r rest, t = .connect r :: rest ∧ ∀ r, .connect r ∉ rest
  reported : ∃ before connection queued after,
    t = before ++ .connectionState connection true :: after ∧
    t.filter Call.isSession = [.onConnected connection queued (.ok ())] ∧
    before.filter Call.isSession = [.onConnected connection queued (.ok ())] ∧
    before.filter Call.isSend = queued.map (.send · (.ok ())) ∧
    before.filter Call.isReport = [] ∧ after.filter Call.isReport = []
  inScope : Scoped t
  goesOn : .backoffReset ∉ t ∧ ∀ e, .returned e ∉ t

/-- A run that has come to `r` is one turn after the other.  The driver returns in the last of them, or
is still in it. -/
def InTurns (r : Option IngressError) (t : List (Call Event)) : Prop :=
  ∃ (done : List (List (Call Event))) (last : List (Call Event)), t = done.flatten ++ last ∧
    (∀ turn ∈ done, Turn turn ∧ ∀ e, .returned e ∉ turn) ∧
    match r with
    | some e => Turn last ∧ .returned e ∈ last
    | none => last = [] ∨ Underway last

/-! ## What one cycle does -/

/-- What telling of the end of a connection leaves. -/
def ending (connection : ConnectionId) (reason : DisconnectReason) (counted : Bool) :
    List (Call Event) :=
  .onDisconnected connection reason :: .connectionState connection false ::
    ((if reason = .rateLimit then [.rateLimited] else []) ++
      ((if counted then [.reconnect reason] else []) ++ [.shutdown]))

/-- What a cycle may come to: a connect attempt that fails, a refusal of the adapter, a queue that cannot
be sent, and a connection that is up and ends or goes on. -/
inductive Cycled : Option Cycle → List (Call Event) → Prop where
  | failed (error : IngressError) :
      Cycled (some (if error.isFatal then .fatal error else .retry))
        (.connect (.error error) :: connectFailures error)
  | declined (connection : ConnectionId) (queue : List UpstreamMessage) (error : AdapterError) :
      Cycled (some .retry) (.connect (.ok ()) :: .onConnected connection queue (.error error) ::
        .adapterError error :: ending connection .remoteClose false)
  | unsent (connection : ConnectionId) {queue : List UpstreamMessage} {error : IngressError}
      {flushed : List (Call Event)} (hflushed : Flushed queue (.error error) flushed) :
      Cycled (some (if error.isFatal then .fatal error else .retry))
        (.connect (.ok ()) :: .onConnected connection queue (.ok ()) ::
          (flushed ++ (connectFailures error ++ ending connection error.reason false)))
  | up (connection : ConnectionId) {queue : List UpstreamMessage} {stop : Stop} {delivered : Bool}
      {flushed pumped : List (Call Event)} (hflushed : Flushed queue (.ok ()) flushed)
      (hpumped : Pumped false (some (stop, delivered)) pumped) :
      Cycled (some (stop.cycle delivered))
        (.connect (.ok ()) :: .onConnected connection queue (.ok ()) ::
          (flushed ++ .connectionState connection true ::
            (pumped ++ .drained :: ending connection stop.disconnectReason true)))
  | underway (connection : ConnectionId) {queue : List UpstreamMessage}
      {flushed pumped : List (Call Event)} (hflushed : Flushed queue (.ok ()) flushed)
      (hpumped : Pumped false none pumped) :
      Cycled none (.connect (.ok ()) :: .onConnected connection queue (.ok ()) ::
        (flushed ++ .connectionState connection true :: pumped))

section

variable {env : Environment W Event} {policy : Policy} {t : List (Call Event)}

theorem of_end {connection : ConnectionId} {reason : DisconnectReason} {counted : Bool} {u : Unit}
    (h : (Driver.end env connection reason counted).May u t) :
    t = ending connection reason counted := by
  obtain ⟨_, _, _, hdisconnected, h₁, rfl⟩ := h.of_bind
  obtain ⟨_, _, _, hstate, h₂, rfl⟩ := h₁.of_bind
  obtain ⟨_, _, _, hlimited, h₃, rfl⟩ := h₂.of_bind
  obtain ⟨_, _, _, hcounted, hshutdown, rfl⟩ := h₃.of_bind
  rw [hdisconnected.of_call, hstate.of_emit, hlimited.of_emit, hcounted.of_emit, hshutdown.of_call]
  rfl

theorem cycle_cases {rounds : ℕ} {r : Option Cycle}
    (h : (Driver.cycle env policy rounds).May r t) : Cycled r t := by
  obtain ⟨connection, _, _, hconnection, h₁, rfl⟩ := h.of_bind
  obtain ⟨connected, _, _, hconnect, h₂, rfl⟩ := h₁.of_bind
  rw [hconnection.of_ask, hconnect.of_call, List.nil_append]
  cases connected with
  | error error =>
      obtain ⟨_, _, _, hcount, h₃, rfl⟩ := h₂.of_bind
      obtain ⟨rfl, rfl⟩ := h₃.of_pure
      rw [hcount.of_emit, List.append_nil]
      exact .failed error
  | ok _ =>
      obtain ⟨⟨result, queue⟩, _, _, hasked, h₃, rfl⟩ := h₂.of_bind
      rw [hasked.of_call]
      cases result with
      | error error =>
          obtain ⟨_, _, _, hcount, h₄, rfl⟩ := h₃.of_bind
          obtain ⟨_, _, _, hend, h₅, rfl⟩ := h₄.of_bind
          obtain ⟨rfl, rfl⟩ := h₅.of_pure
          rw [hcount.of_emit, of_end hend, List.append_nil]
          exact .declined connection queue error
      | ok _ =>
          obtain ⟨sent, flushed, _, hflush, h₄, rfl⟩ := h₃.of_bind
          have hflushed := flushed_of_flush hflush
          cases sent with
          | error error =>
              obtain ⟨_, _, _, hcount, h₅, rfl⟩ := h₄.of_bind
              obtain ⟨_, _, _, hend, h₆, rfl⟩ := h₅.of_bind
              obtain ⟨rfl, rfl⟩ := h₆.of_pure
              rw [hcount.of_emit, of_end hend, List.append_nil]
              exact .unsent connection hflushed
          | ok _ =>
              obtain ⟨_, _, _, hstate, h₅, rfl⟩ := h₄.of_bind
              obtain ⟨stopped, pumped, _, hpump, h₆, rfl⟩ := h₅.of_bind
              have hpumped := pumped_of_pump hpump
              rw [hstate.of_emit]
              cases stopped with
              | none =>
                  obtain ⟨rfl, rfl⟩ := h₆.of_pure
                  rw [List.append_nil]
                  exact .underway connection hflushed hpumped
              | some outcome =>
                  obtain ⟨_, _, _, hdrained, h₇, rfl⟩ := h₆.of_bind
                  obtain ⟨_, _, _, hend, h₈, rfl⟩ := h₇.of_bind
                  obtain ⟨rfl, rfl⟩ := h₈.of_pure
                  rw [hdrained.of_emit, of_end hend, List.append_nil]
                  exact .up connection hflushed hpumped

end

/-! ## The milestones of a cycle -/

/-- The milestones that a cycle passes. -/
inductive Course : Option Cycle → List (Call Event) → Prop where
  | failed (r : Option Cycle) (result : Except IngressError Unit) : Course r [.connect result]
  | unreported (r : Option Cycle) (connection : ConnectionId) (queue : List UpstreamMessage)
      (result : Except AdapterError Unit) (reason : DisconnectReason) :
      Course r [.connect (.ok ()), .onConnected connection queue result,
        .onDisconnected connection reason, .connectionState connection false]
  | up (r : Option Cycle) (connection : ConnectionId) (queue : List UpstreamMessage)
      (reason : DisconnectReason) :
      Course r [.connect (.ok ()), .onConnected connection queue (.ok ()),
        .connectionState connection true, .onDisconnected connection reason,
        .connectionState connection false, .reconnect reason]
  | underway (connection : ConnectionId) (queue : List UpstreamMessage) :
      Course none [.connect (.ok ()), .onConnected connection queue (.ok ()),
        .connectionState connection true]

section

variable {t u : List (Call Event)} {p : Call Event → Bool} {r : Option Cycle} {e : IngressError}

theorem filter_eq_nil (h : ∀ call ∈ t, p call = false) : t.filter p = [] := by
  rw [List.filter_eq_nil_iff]
  intro call hcall
  rw [h call hcall]
  exact Bool.false_ne_true

theorem Flushed.filter_eq_nil {queue : List UpstreamMessage} {sent : Except IngressError Unit}
    (h : Flushed queue sent t) (hsleep : ∀ d, p (.sleep d) = false)
    (hsend : ∀ m result, p (.send m result) = false) : t.filter p = [] :=
  Ingress.filter_eq_nil (h.none hsleep hsend)

theorem milestones_connectFailures (error : IngressError) :
    (connectFailures error : List (Call Event)).filter Call.isMilestone = [] := by
  cases error <;> rfl

theorem milestones_ending (connection : ConnectionId) (reason : DisconnectReason) (counted : Bool) :
    (ending connection reason counted : List (Call Event)).filter Call.isMilestone =
      .onDisconnected connection reason :: .connectionState connection false ::
        (if counted then [.reconnect reason] else []) := by
  cases counted <;> cases reason <;> rfl

theorem milestones_up (connection : ConnectionId) {queue : List UpstreamMessage} {stop : Stop}
    {stopped : Option (Stop × Bool)} {flushed pumped : List (Call Event)}
    (hflushed : Flushed queue (.ok ()) flushed) (hpumped : Pumped false stopped pumped) :
    (Call.connect (.ok ()) :: .onConnected connection queue (.ok ()) ::
      (flushed ++ .connectionState connection true ::
        (pumped ++ .drained :: ending connection stop.disconnectReason true))).filter
          Call.isMilestone =
      [.connect (.ok ()), .onConnected connection queue (.ok ()), .connectionState connection true,
        .onDisconnected connection stop.disconnectReason, .connectionState connection false,
        .reconnect stop.disconnectReason] := by
  rw [List.filter_cons_of_pos rfl, List.filter_cons_of_pos rfl, List.filter_append,
    hflushed.filter_eq_nil (fun _ ↦ rfl) fun _ _ ↦ rfl, List.filter_cons_of_pos rfl,
    List.filter_append, Ingress.filter_eq_nil hpumped.quiet,
    List.filter_cons_of_neg Bool.false_ne_true, milestones_ending]
  rfl

theorem Cycled.course (h : Cycled r t) : Course r (t.filter Call.isMilestone) := by
  have hflush {queue : List UpstreamMessage} {sent : Except IngressError Unit}
      {flushed : List (Call Event)} (hflushed : Flushed queue sent flushed) :
      flushed.filter Call.isMilestone = [] := hflushed.filter_eq_nil (fun _ ↦ rfl) fun _ _ ↦ rfl
  cases h with
  | failed error =>
      rw [List.filter_cons_of_pos rfl, milestones_connectFailures]
      exact .failed _ _
  | declined connection queue error =>
      rw [List.filter_cons_of_pos rfl, List.filter_cons_of_pos rfl,
        List.filter_cons_of_neg Bool.false_ne_true, milestones_ending]
      exact .unreported _ _ _ _ _
  | unsent connection hflushed =>
      rw [List.filter_cons_of_pos rfl, List.filter_cons_of_pos rfl, List.filter_append,
        List.filter_append, hflush hflushed, milestones_connectFailures, milestones_ending]
      exact .unreported _ _ _ _ _
  | up connection hflushed hpumped =>
      rw [milestones_up connection hflushed hpumped]
      exact .up _ _ _ _
  | underway connection hflushed hpumped =>
      rw [List.filter_cons_of_pos rfl, List.filter_cons_of_pos rfl, List.filter_append,
        hflush hflushed, List.filter_cons_of_pos rfl, Ingress.filter_eq_nil hpumped.quiet]
      exact .underway _ _

/-- What holds of no milestone but these is read off the milestones. -/
theorem filter_milestones (hp : ∀ call : Call Event, p call = true → call.isMilestone = true)
    (t : List (Call Event)) : t.filter p = (t.filter Call.isMilestone).filter p := by
  rw [List.filter_filter]
  congr 1
  funext call
  cases hcall : p call with
  | false => rfl
  | true => rw [hp call hcall]; rfl

theorem isMilestone_of_isSession (call : Call Event) (h : call.isSession = true) :
    call.isMilestone = true := by
  cases call <;> first | rfl | cases h

theorem isMilestone_of_isReport (call : Call Event) (h : call.isReport = true) :
    call.isMilestone = true := by
  cases call <;> first | rfl | cases h

theorem mem_milestones {call : Call Event} (hcall : call.isMilestone = true) :
    call ∈ t ↔ call ∈ t.filter Call.isMilestone := by
  rw [List.mem_filter, hcall, and_iff_left rfl]

/-- A milestone that no course has. -/
theorem Cycled.not_mem (h : Cycled r t) {call : Call Event} (hcall : call.isMilestone = true)
    (hcourse : ∀ course, Course r course → call ∉ course) : call ∉ t := by
  rw [mem_milestones hcall]
  exact hcourse _ h.course

theorem Cycled.no_reset (h : Cycled r t) : .backoffReset ∉ t :=
  h.not_mem rfl fun course hcourse ↦ by cases hcourse <;> simp

theorem Cycled.no_return (h : Cycled r t) (e : IngressError) : .returned e ∉ t :=
  h.not_mem rfl fun course hcourse ↦ by cases hcourse <;> simp

theorem Cycled.connects (h : Cycled r t) :
    ∃ result rest, t = .connect result :: rest ∧ ∀ result', .connect result' ∉ rest := by
  have hcourse := h.course
  obtain ⟨result, rest, rfl⟩ : ∃ result rest, t = .connect result :: rest := by
    cases h <;> exact ⟨_, _, rfl⟩
  refine ⟨result, rest, rfl, fun result' hmem ↦ ?_⟩
  rw [List.filter_cons_of_pos rfl] at hcourse
  have hmem' := (mem_milestones rfl).mp hmem
  generalize rest.filter Call.isMilestone = milestones at hcourse hmem'
  cases hcourse <;> simp at hmem'

theorem Cycled.paired (h : Cycled r t) (hr : r ≠ none) :
    t.filter Call.isSession = [] ∨ ∃ connection queued result reason, t.filter Call.isSession =
      [.onConnected connection queued result, .onDisconnected connection reason] := by
  rw [filter_milestones isMilestone_of_isSession]
  have hcourse := h.course
  generalize t.filter Call.isMilestone = milestones at hcourse ⊢
  cases hcourse with
  | failed => exact .inl rfl
  | unreported => exact .inr ⟨_, _, _, _, rfl⟩
  | up => exact .inr ⟨_, _, _, _, rfl⟩
  | underway => exact absurd rfl hr

/-! ## Failures and deliveries -/

theorem fails_cons {call : Call Event} :
    Fails e (call :: t) ↔ call.failure = some e ∨ Fails e t := by
  rw [Fails, List.exists_mem_cons_iff, ← Fails]

theorem not_fails (h : ∀ call ∈ t, call.failure = none) : ¬Fails e t := by
  rintro ⟨call, hcall, hfailure⟩
  rw [h call hcall] at hfailure
  cases hfailure

theorem ending_apart (connection : ConnectionId) (reason : DisconnectReason) (counted : Bool) :
    ∀ call ∈ (ending connection reason counted : List (Call Event)),
      call.failure = none ∧ call.ofPayload = false := by
  cases counted <;> cases reason <;> simp [ending, Call.failure, Call.ofPayload, Call.isForwarded]

theorem connectFailures_apart (error : IngressError) :
    ∀ call ∈ (connectFailures error : List (Call Event)),
      call.failure = none ∧ call.ofPayload = false := by
  cases error <;> simp [connectFailures, Call.failure, Call.ofPayload, Call.isForwarded]

theorem not_fails_ending (connection : ConnectionId) (reason : DisconnectReason) (counted : Bool) :
    ¬Fails e (ending connection reason counted : List (Call Event)) :=
  not_fails fun call hcall ↦ (ending_apart connection reason counted call hcall).1

theorem not_fails_connectFailures (error : IngressError) :
    ¬Fails e (connectFailures error : List (Call Event)) :=
  not_fails fun call hcall ↦ (connectFailures_apart error call hcall).1

theorem fatal_iff {error : IngressError} :
    some (if error.isFatal = true then Cycle.fatal error else .retry) = some (.fatal e) ↔
      e.isFatal = true ∧ error = e := by
  cases hfatal : error.isFatal with
  | true =>
      rw [if_pos rfl, Option.some.injEq, Cycle.fatal.injEq]
      exact ⟨fun heq ↦ ⟨heq ▸ hfatal, heq⟩, And.right⟩
  | false =>
      rw [if_neg Bool.false_ne_true]
      constructor
      · exact nofun
      · rintro ⟨he, rfl⟩
        rw [he] at hfatal
        cases hfatal

/-- A cycle is fatal exactly when the input answers with a fatal error. -/
theorem Cycled.fatal (h : Cycled r t) : r = some (.fatal e) ↔ e.isFatal = true ∧ Fails e t := by
  cases h with
  | failed error =>
      rw [fatal_iff, fails_cons, or_iff_left (not_fails_connectFailures error)]
      exact and_congr_right fun _ ↦ Option.some.injEq .. ▸ Iff.rfl
  | declined connection queue error =>
      rw [fails_cons, fails_cons, fails_cons]
      simp [Call.failure, not_fails_ending]
  | @unsent connection queue error flushed hflushed =>
      rw [fatal_iff, fails_cons, fails_cons, fails_append, fails_append, hflushed.failed]
      simp [Call.failure, not_fails_ending, not_fails_connectFailures]
  | @up connection queue stop delivered flushed pumped hflushed hpumped =>
      rw [fails_cons, fails_cons, fails_append, fails_cons, fails_append, fails_cons,
        hflushed.failed]
      simp only [Call.failure, not_fails_ending, reduceCtorEq, false_or, or_false]
      constructor
      · intro hstop
        cases stop with
        | fatal error =>
            cases hstop
            exact hpumped.fatal _ _ rfl
        | reason reason =>
            rw [Stop.cycle, Option.some.injEq] at hstop
            split at hstop
            next => cases hstop
            next => cases hstop
      · rintro ⟨hfatal, hfails⟩
        obtain ⟨d, hd⟩ := hpumped.failed e hfails
        rw [Stop.of, if_pos hfatal] at hd
        cases hd
        rfl
  | underway connection hflushed hpumped =>
      rw [fails_cons, fails_cons, fails_append, fails_cons, hflushed.failed]
      simp only [Call.failure, reduceCtorEq, false_or]
      constructor
      · intro hnone
        cases hnone
      · rintro ⟨-, hfails⟩
        obtain ⟨d, hd⟩ := hpumped.failed e hfails
        cases hd

theorem exists_delivery : (∃ payload result, .onPayload payload result ∈ t) ↔
    ∃ call ∈ t, call.isDelivery = true := by
  constructor
  · rintro ⟨payload, result, hmem⟩
    exact ⟨_, hmem, rfl⟩
  · rintro ⟨call, hmem, hdelivery⟩
    cases call with
    | onPayload payload result => exact ⟨payload, result, hmem⟩
    | _ => cases hdelivery

theorem delivery_cons {call : Call Event} (h : call.isDelivery = false) :
    (∃ call' ∈ call :: t, call'.isDelivery = true) ↔ ∃ call' ∈ t, call'.isDelivery = true := by
  rw [List.exists_mem_cons_iff, h, or_iff_right Bool.false_ne_true]

theorem delivery_append : (∃ call ∈ t ++ u, call.isDelivery = true) ↔
    (∃ call ∈ t, call.isDelivery = true) ∨ ∃ call ∈ u, call.isDelivery = true := by
  simp only [List.mem_append, or_and_right, exists_or]

/-! ## Reported up -/

theorem connectFailures_not_up (error : IngressError) :
    ∀ call ∈ (connectFailures error : List (Call Event)), call.isUp = false := by
  cases error <;> simp [connectFailures, Call.isUp]

theorem ending_not_up (connection : ConnectionId) (reason : DisconnectReason) :
    ∀ call ∈ (ending connection reason false : List (Call Event)), call.isUp = false := by
  cases reason <;> simp [ending, Call.isUp]

/-- Either the connection is not reported up, or what was queued is sent and the connection is received
from. -/
theorem Cycled.up_cases (h : Cycled r t) :
    ((∀ call ∈ t, call.isUp = false) ∧ r ≠ none ∧ r ≠ some .proven) ∨
    ∃ connection queue flushed pumped, Flushed queue (.ok ()) flushed ∧
      ((∃ stop delivered, r = some (stop.cycle delivered) ∧
        Pumped false (some (stop, delivered)) pumped ∧
        t = .connect (.ok ()) :: .onConnected connection queue (.ok ()) ::
          (flushed ++ .connectionState connection true ::
            (pumped ++ .drained :: ending connection stop.disconnectReason true))) ∨
      r = none ∧ Pumped false none pumped ∧
        t = .connect (.ok ()) :: .onConnected connection queue (.ok ()) ::
          (flushed ++ .connectionState connection true :: pumped)) := by
  cases h with
  | failed error =>
      refine .inl ⟨List.forall_mem_cons.mpr ⟨rfl, connectFailures_not_up error⟩, nofun, ?_⟩
      split <;> exact nofun
  | declined connection queue error =>
      refine .inl ⟨?_, nofun, nofun⟩
      simp only [List.forall_mem_cons]
      exact ⟨rfl, rfl, rfl, ending_not_up connection _⟩
  | unsent connection hflushed =>
      refine .inl ⟨?_, nofun, by split <;> exact nofun⟩
      simp only [List.forall_mem_cons, List.forall_mem_append]
      exact ⟨rfl, rfl, hflushed.none (fun _ ↦ rfl) fun _ _ ↦ rfl, connectFailures_not_up _,
        ending_not_up connection _⟩
  | up connection hflushed hpumped =>
      exact .inr ⟨connection, _, _, _, hflushed, .inl ⟨_, _, rfl, hpumped, rfl⟩⟩
  | underway connection hflushed hpumped =>
      exact .inr ⟨connection, _, _, _, hflushed, .inr ⟨rfl, hpumped, rfl⟩⟩

theorem Flushed.before_up {queue : List UpstreamMessage} (h : Flushed queue (.ok ()) t)
    (connection : ConnectionId) :
    let before := Call.connect (.ok ()) :: .onConnected connection queue (.ok ()) :: t
    before.filter Call.isSession = [.onConnected connection queue (.ok ())] ∧
      before.filter Call.isSend = queue.map (.send · (.ok ())) ∧
      before.filter Call.isReport = [] := by
  refine ⟨?_, h.sent rfl, h.filter_eq_nil (fun _ ↦ rfl) fun _ _ ↦ rfl⟩
  rw [List.filter_cons_of_neg Bool.false_ne_true, List.filter_cons_of_pos rfl,
    h.filter_eq_nil (fun _ ↦ rfl) fun _ _ ↦ rfl]

theorem Pumped.reports {delivered : Bool} {stopped : Option (Stop × Bool)}
    (h : Pumped delivered stopped t) : t.filter Call.isReport = [] := by
  rw [filter_milestones isMilestone_of_isReport, filter_eq_nil h.quiet, List.filter_nil]

theorem Cycled.reported (h : Cycled r t) (hr : r ≠ none) : (∀ call ∈ t, call.isUp = false) ∨
    ∃ before connection queued after reason,
      t = before ++ .connectionState connection true :: after ∧
      before.filter Call.isSession = [.onConnected connection queued (.ok ())] ∧
      before.filter Call.isSend = queued.map (.send · (.ok ())) ∧
      before.filter Call.isReport = [] ∧
      after.filter Call.isReport = [.connectionState connection false, .reconnect reason] := by
  rcases h.up_cases with ⟨hup, -⟩ | ⟨connection, queue, flushed, pumped, hflushed,
    ⟨stop, delivered, -, hpumped, rfl⟩ | ⟨rfl, -⟩⟩
  · exact .inl hup
  · obtain ⟨hsession, hsend, hreport⟩ := hflushed.before_up connection
    refine .inr ⟨_, connection, queue, _, stop.disconnectReason, rfl, hsession, hsend, hreport, ?_⟩
    rw [List.filter_append, hpumped.reports, List.filter_cons_of_neg Bool.false_ne_true,
      filter_milestones isMilestone_of_isReport, milestones_ending]
    rfl
  · exact absurd rfl hr

theorem Cycled.goingOn (h : Cycled none t) : ∃ before connection queued after,
    t = before ++ .connectionState connection true :: after ∧
    t.filter Call.isSession = [.onConnected connection queued (.ok ())] ∧
    before.filter Call.isSession = [.onConnected connection queued (.ok ())] ∧
    before.filter Call.isSend = queued.map (.send · (.ok ())) ∧
    before.filter Call.isReport = [] ∧ after.filter Call.isReport = [] := by
  cases h with
  | underway connection hflushed hpumped =>
      obtain ⟨hsession, hsend, hreport⟩ := hflushed.before_up connection
      refine ⟨_, connection, _, _, rfl, ?_, hsession, hsend, hreport, hpumped.reports⟩
      rw [← List.cons_append, ← List.cons_append, List.filter_append, hsession,
        List.filter_cons_of_neg Bool.false_ne_true, filter_milestones isMilestone_of_isSession,
        filter_eq_nil hpumped.quiet]
      rfl

theorem Cycled.inScope (h : Cycled r t) : Scoped t := by
  have hending connection reason counted :
      Scoped (ending connection reason counted : List (Call Event)) :=
    .of_apart fun call hcall ↦ (ending_apart connection reason counted call hcall).2
  have hfailures error : Scoped (connectFailures error : List (Call Event)) :=
    .of_apart fun call hcall ↦ (connectFailures_apart error call hcall).2
  cases h with
  | failed error => exact .apart rfl (hfailures error)
  | declined connection queue error =>
      exact .apart rfl (.apart rfl (.apart rfl (hending connection _ _)))
  | unsent connection hflushed =>
      exact .apart rfl (.apart rfl (hflushed.inScope.append ((hfailures _).append
        (hending connection _ _))))
  | up connection hflushed hpumped =>
      exact .apart rfl (.apart rfl (hflushed.inScope.append (.apart rfl (hpumped.inScope.append
        (.apart rfl (hending connection _ _))))))
  | underway connection hflushed hpumped =>
      exact .apart rfl (.apart rfl (hflushed.inScope.append (.apart rfl hpumped.inScope)))

theorem Stop.cycle_proven {stop : Stop} {delivered : Bool} :
    stop.cycle delivered = .proven ↔
      delivered = true ∧ stop.disconnectReason ≠ .rateLimit ∧ ∀ e, stop.cycle delivered ≠ .fatal e := by
  cases stop with
  | reason r =>
      rw [Stop.cycle, Stop.disconnectReason]
      split
      next hproven =>
          refine iff_of_true rfl ⟨hproven.1, hproven.2, nofun⟩
      next hretry =>
          refine iff_of_false nofun fun h ↦ hretry ⟨h.1, h.2.1⟩
  | fatal e => exact iff_of_false nofun fun h ↦ h.2.2 e rfl

/-- When the delay sequence starts over. -/
theorem Cycled.proven (h : Cycled r t) (hr : r ≠ none) :
    r = some .proven ↔ (∃ connection, .connectionState connection true ∈ t) ∧
      (∃ payload result, .onPayload payload result ∈ t) ∧
      (∀ connection, .onDisconnected connection .rateLimit ∉ t) ∧
      ∀ e, e.isFatal = true → ¬Fails e t := by
  have hfatal : (∀ e, e.isFatal = true → ¬Fails e t) ↔ ∀ e, r ≠ some (.fatal e) := by
    refine forall_congr' fun e ↦ ?_
    rw [ne_eq, h.fatal, not_and]
  rw [hfatal, exists_delivery]
  rcases h.up_cases with ⟨hup, hgoes, hproven⟩ | ⟨connection, queue, flushed, pumped, hflushed,
    ⟨stop, delivered, rfl, hpumped, rfl⟩ | ⟨rfl, -⟩⟩
  · refine iff_of_false hproven ?_
    rintro ⟨⟨connection, hmem⟩, -⟩
    cases hup _ hmem
  · have hup : ∃ c, .connectionState c true ∈ Call.connect (.ok ()) ::
        .onConnected connection queue (.ok ()) :: (flushed ++ .connectionState connection true ::
          (pumped ++ .drained :: ending connection stop.disconnectReason true)) :=
      ⟨connection, by simp⟩
    have hlimited : (∀ c, .onDisconnected c .rateLimit ∉ Call.connect (.ok ()) ::
        .onConnected connection queue (.ok ()) :: (flushed ++ .connectionState connection true ::
          (pumped ++ .drained :: ending connection stop.disconnectReason true))) ↔
        stop.disconnectReason ≠ .rateLimit := by
      refine (forall_congr' fun c ↦ not_congr (mem_milestones rfl)).trans ?_
      rw [milestones_up connection hflushed hpumped]
      simp [eq_comm]
    have hdelivered : (∃ call ∈ Call.connect (.ok ()) ::
        .onConnected connection queue (.ok ()) :: (flushed ++ .connectionState connection true ::
          (pumped ++ .drained :: ending connection stop.disconnectReason true)),
          call.isDelivery = true) ↔ delivered = true := by
      have hsent : ¬∃ call ∈ flushed, call.isDelivery = true := by
        rintro ⟨call, hcall, hdelivery⟩
        rw [hflushed.none (p := Call.isDelivery) (fun _ ↦ rfl) (fun _ _ ↦ rfl) call hcall] at hdelivery
        cases hdelivery
      have hended : ¬∃ call ∈ ending connection stop.disconnectReason true,
          (call : Call Event).isDelivery = true := by
        rintro ⟨call, hcall, hdelivery⟩
        rw [Call.isDelivery_of_apart (ending_apart _ _ _ call hcall).2] at hdelivery
        cases hdelivery
      rw [hpumped.delivers stop delivered rfl]
      rw [delivery_cons rfl, delivery_cons rfl, delivery_append, delivery_cons rfl, delivery_append,
        delivery_cons rfl, or_iff_right hsent, or_iff_left hended, or_iff_right Bool.false_ne_true]
    rw [Option.some.injEq, Stop.cycle_proven, hdelivered, hlimited, and_iff_right hup]
    simp only [ne_eq, Option.some.injEq]
  · exact absurd rfl hr

/-! ## Turns -/

/-- What the driver does when a cycle has come to its end. -/
inductive Closes : Cycle → List (Call Event) → Prop where
  | fatal (e : IngressError) : Closes (.fatal e) [.returned e]
  | proven (delay : Duration) : Closes .proven [.backoffReset, .sleep delay]
  | retry (delay : Duration) : Closes .retry [.sleep delay]

theorem Closes.apart {c : Cycle} (h : Closes c u) : ∀ call ∈ u, call.isSession = false ∧
    call.isReport = false ∧ call.isUp = false ∧ call.ofPayload = false ∧ call.failure = none ∧
    ∀ result, call ≠ .connect result := by
  cases h <;> simp [Call.isSession, Call.isReport, Call.isUp, Call.ofPayload, Call.isForwarded,
    Call.failure]

theorem Closes.reset_iff {c : Cycle} (h : Closes c u) : .backoffReset ∈ u ↔ c = .proven := by
  cases h <;> simp

theorem Closes.returned_iff {c : Cycle} (h : Closes c u) : .returned e ∈ u ↔ c = .fatal e := by
  cases h <;> simp [eq_comm]

/-- A cycle that has come to its end is a turn. -/
theorem Cycled.turn {c : Cycle} (h : Cycled (some c) t) (hu : Closes c u) : Turn (t ++ u) where
  connects := by
    obtain ⟨result, rest, rfl, hrest⟩ := h.connects
    refine ⟨result, rest ++ u, rfl, fun result' hmem ↦ ?_⟩
    rcases List.mem_append.mp hmem with hmem | hmem
    · exact hrest result' hmem
    · exact (hu.apart _ hmem).2.2.2.2.2 result' rfl
  paired := by
    rw [List.filter_append, filter_eq_nil fun call hcall ↦ (hu.apart call hcall).1, List.append_nil]
    exact h.paired nofun
  reported := by
    rcases h.reported nofun with hup | ⟨before, connection, queued, after, reason, rfl, hsession,
      hsend, hreport, hafter⟩
    · exact .inl (List.forall_mem_append.mpr ⟨hup, fun call hcall ↦ (hu.apart call hcall).2.2.1⟩)
    · refine .inr ⟨before, connection, queued, after ++ u, reason, ?_, hsession, hsend, hreport, ?_⟩
      · rw [List.append_assoc, List.cons_append]
      · rw [List.filter_append, hafter, filter_eq_nil fun call hcall ↦ (hu.apart call hcall).2.1,
          List.append_nil]
  inScope := h.inScope.append (.of_apart fun call hcall ↦ (hu.apart call hcall).2.2.2.1)
  reset := by
    have hmem {call : Call Event} (hcall : call.isUp = true ∨ call.ofPayload = true ∨
        call.isSession = true) : call ∈ t ++ u ↔ call ∈ t := by
      rw [List.mem_append, or_iff_left]
      intro hmem
      obtain ⟨hsession, -, hup, hpayload, -⟩ := hu.apart call hmem
      rw [hup, hpayload, hsession] at hcall
      simp at hcall
    have hfails (e : IngressError) : Fails e (t ++ u) ↔ Fails e t := by
      rw [fails_append, or_iff_left (not_fails fun call hcall ↦ (hu.apart call hcall).2.2.2.2.1)]
    rw [List.mem_append, or_iff_right h.no_reset, hu.reset_iff, ← Option.some.injEq, h.proven nofun]
    refine and_congr (exists_congr fun _ ↦ (hmem (.inl rfl)).symm) (and_congr
      (exists_congr fun _ ↦ exists_congr fun _ ↦ (hmem (.inr (.inl rfl))).symm) (and_congr
      (forall_congr' fun _ ↦ not_congr (hmem (.inr (.inr rfl))).symm) ?_))
    exact forall_congr' fun e ↦ imp_congr_right fun _ ↦ not_congr (hfails e).symm
  resetLast hreset := by
    rw [List.mem_append, or_iff_right h.no_reset] at hreset
    cases hu with
    | proven delay => exact ⟨t, delay, rfl, h.no_reset⟩
    | fatal => simp at hreset
    | retry => simp at hreset
  returned e := by
    rw [List.mem_append, or_iff_right (h.no_return e), hu.returned_iff, ← Option.some.injEq, h.fatal,
      fails_append, or_iff_left (not_fails fun call hcall ↦ (hu.apart call hcall).2.2.2.2.1)]
  returnedLast e hreturned := by
    rw [List.mem_append, or_iff_right (h.no_return e)] at hreturned
    cases hu with
    | fatal error => exact ⟨t, by rw [List.mem_singleton.mp hreturned], h.no_return⟩
    | proven => simp at hreturned
    | retry => simp at hreturned

theorem Cycled.isUnderway (h : Cycled none t) : Underway t where
  connects := h.connects
  reported := h.goingOn
  inScope := h.inScope
  goesOn := ⟨h.no_reset, h.no_return⟩

end

section

variable {env : Environment W Event} {policy : Policy} {t : List (Call Event)}

theorem of_wait {u : Unit} (h : (Driver.wait env).May u t) : ∃ delay, t = [.sleep delay] := by
  obtain ⟨delay, _, _, hdelay, hsleep, rfl⟩ := h.of_bind
  rw [hdelay.of_ask, hsleep.of_call]
  exact ⟨delay, rfl⟩

/-- **The driver keeps its pairings.**  Every run of it is one turn after the other, and each turn keeps
them: for all that the transport, the adapter and the clock may answer. -/
theorem run_inTurns (env : Environment W Event) (policy : Policy) (rounds turns : ℕ) (d : Driver W) :
    InTurns (Driver.run env policy rounds turns d).value
      (Driver.run env policy rounds turns d).trace := by
  have hrun := Traced.may_run (Driver.run env policy rounds turns) d
  generalize (Driver.run env policy rounds turns d).value = r at hrun ⊢
  generalize (Driver.run env policy rounds turns d).trace = t at hrun ⊢
  induction turns generalizing t with
  | zero =>
      obtain ⟨rfl, rfl⟩ := hrun.of_pure
      exact ⟨[], [], rfl, by simp, .inl rfl⟩
  | succ turns ih =>
      obtain ⟨cycle, cycled, _, hcycle, h₁, rfl⟩ := hrun.of_bind
      have hcycled := cycle_cases hcycle
      -- A turn that is followed by others.
      have hmore {c : Cycle} {closing rest : List (Call Event)} (hc : Cycled (some c) cycled)
          (hclosing : Closes c closing) (hfatal : ∀ e, c ≠ .fatal e)
          (hrest : (Driver.run env policy rounds turns).May r rest) :
          InTurns r (cycled ++ (closing ++ rest)) := by
        obtain ⟨done, last, rfl, hdone, hlast⟩ := ih rest hrest
        refine ⟨(cycled ++ closing) :: done, last, ?_, ?_, hlast⟩
        · rw [List.flatten_cons, List.append_assoc, List.append_assoc]
        · refine List.forall_mem_cons.mpr ⟨⟨hc.turn hclosing, fun e hmem ↦ ?_⟩, hdone⟩
          rw [List.mem_append, or_iff_right (hc.no_return e), hclosing.returned_iff] at hmem
          exact hfatal e hmem
      cases cycle with
      | none =>
          obtain ⟨rfl, rfl⟩ := h₁.of_pure
          exact ⟨[], cycled, by simp, by simp, .inr hcycled.isUnderway⟩
      | some c =>
          cases c with
          | fatal error =>
              obtain ⟨_, _, _, hreturned, h₂, rfl⟩ := h₁.of_bind
              obtain ⟨rfl, rfl⟩ := h₂.of_pure
              rw [hreturned.of_emit, List.append_nil]
              exact ⟨[], cycled ++ [.returned error], by simp, by simp,
                hcycled.turn (.fatal error), by simp⟩
          | proven =>
              obtain ⟨_, _, _, hreset, h₂, rfl⟩ := h₁.of_bind
              obtain ⟨_, _, rest, hwait, h₃, rfl⟩ := h₂.of_bind
              obtain ⟨delay, rfl⟩ := of_wait hwait
              rw [hreset.of_call, ← List.append_assoc [_]]
              exact hmore hcycled (.proven delay) nofun h₃
          | retry =>
              obtain ⟨_, _, rest, hwait, h₂, rfl⟩ := h₁.of_bind
              obtain ⟨delay, rfl⟩ := of_wait hwait
              exact hmore hcycled (.retry delay) nofun h₂

end

end EdgeMulticast.Ingress
