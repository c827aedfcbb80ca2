import EdgeMulticast.Ingress.Driver

/-!
# What a connection does while it is up

What sending a queue leaves in the trace (`Flushed`), and what receiving until the connection ends
leaves there (`Pumped`).  Every event of an adapter stands inside the scope of its payload (`Scoped`).
-/

namespace EdgeMulticast.Ingress

open EdgeMulticast.Lib
open EdgeMulticast.Lib.Traced (May)

variable {W Event : Type}

namespace Call

/-- A call that tells how a turn goes. -/
def isMilestone : Call Event → Bool
  | .connect _ | .onConnected .. | .onDisconnected .. | .connectionState .. | .reconnect _
  | .backoffReset | .returned _ => true
  | _ => false

def isSend : Call Event → Bool
  | .send .. => true
  | _ => false

/-- The adapter has been handed a payload. -/
def isDelivery : Call Event → Bool
  | .onPayload .. => true
  | _ => false

/-- The error that the input answered with. -/
def failure : Call Event → Option IngressError
  | .connect (.error e) | .send _ (.error e) | .recv (.error e) => some e
  | _ => none

/-- A call that `PayloadSink` makes for the adapter. -/
def isForwarded : Call Event → Bool
  | .upstreamMessage _ | .event _ | .desynchronised .. | .message .. => true
  | _ => false

/-- A call that belongs to the handling of a payload. -/
def ofPayload : Call Event → Bool
  | .payloadScope _ | .onPayload .. | .parseError _ => true
  | call => call.isForwarded

theorem isDelivery_of_apart {call : Call Event} (h : call.ofPayload = false) :
    call.isDelivery = false := by
  cases call with
  | onPayload => exact h
  | _ => rfl

end Call

/-- The input answered with an error. -/
def Fails (e : IngressError) (t : List (Call Event)) : Prop := ∃ call ∈ t, call.failure = some e

/-- Every receive stamp is stated before what the adapter does with its payload, and withdrawn after the
adapter has returned.  Nothing of a payload stands outside its scope. -/
inductive Scoped : List (Call Event) → Prop where
  | nil : Scoped []
  | apart {call : Call Event} {t : List (Call Event)} (hcall : call.ofPayload = false)
      (ht : Scoped t) : Scoped (call :: t)
  | payload {payload : Payload} {result : Except ParseError Unit} {body errors t : List (Call Event)}
      (hbody : ∀ call ∈ body, call.isForwarded = true)
      (herrors : ∀ call ∈ errors, ∃ e, call = .parseError e) (ht : Scoped t) :
      Scoped (.payloadScope (some payload.recvTsNs) :: (body ++
        .onPayload payload result :: (errors ++ .payloadScope none :: t)))

namespace Scoped

theorem append {t u : List (Call Event)} (ht : Scoped t) (hu : Scoped u) : Scoped (t ++ u) := by
  induction ht with
  | nil => exact hu
  | apart hcall _ ih => exact .apart hcall ih
  | payload hbody herrors _ ih =>
      simp only [List.cons_append, List.append_assoc]
      exact .payload hbody herrors ih

theorem of_apart {t : List (Call Event)} (h : ∀ call ∈ t, call.ofPayload = false) : Scoped t := by
  induction t with
  | nil => exact .nil
  | cons call t ih =>
      obtain ⟨hcall, ht⟩ := List.forall_mem_cons.mp h
      exact .apart hcall (ih ht)

end Scoped

theorem fails_append {e : IngressError} {t u : List (Call Event)} :
    Fails e (t ++ u) ↔ Fails e t ∨ Fails e u := by
  simp only [Fails, List.mem_append, or_and_right, exists_or]

/-! ## Sending a queue -/

/-- What sending a queue leaves in the trace. -/
structure Flushed (messages : List UpstreamMessage) (r : Except IngressError Unit)
    (t : List (Call Event)) : Prop where
  calls : ∀ call ∈ t, (∃ d, call = .sleep d) ∨ ∃ m result, call = .send m result
  sent : r = .ok () → t.filter Call.isSend = messages.map (.send · (.ok ()))
  failed : ∀ e, Fails e t ↔ r = .error e

namespace Flushed

variable {messages : List UpstreamMessage} {r : Except IngressError Unit} {t : List (Call Event)}

/-- A predicate that holds of no sleep and no send holds of nothing there. -/
theorem none (h : Flushed messages r t) {p : Call Event → Bool} (hsleep : ∀ d, p (.sleep d) = false)
    (hsend : ∀ m result, p (.send m result) = false) : ∀ call ∈ t, p call = false := by
  intro call hcall
  rcases h.calls call hcall with ⟨d, rfl⟩ | ⟨m, result, rfl⟩
  · exact hsleep d
  · exact hsend m result

theorem inScope (h : Flushed messages r t) : Scoped t :=
  .of_apart (h.none (fun _ ↦ rfl) fun _ _ ↦ rfl)

end Flushed

section

variable {env : Environment W Event} {policy : Policy}

theorem flushed_of_flush {messages : List UpstreamMessage} {r : Except IngressError Unit}
    {t : List (Call Event)} (h : (Driver.flush env messages).May r t) : Flushed messages r t := by
  induction messages generalizing t with
  | nil =>
      obtain ⟨rfl, rfl⟩ := h.of_pure
      exact ⟨by simp, fun _ ↦ rfl, fun e ↦ ⟨fun ⟨_, hmem, _⟩ ↦ absurd hmem List.not_mem_nil, nofun⟩⟩
  | cons m messages ih =>
      obtain ⟨nowNs, _, _, hnow, h₁, rfl⟩ := h.of_bind
      obtain ⟨wait, _, _, hwait, h₂, rfl⟩ := h₁.of_bind
      obtain ⟨_, paused, _, hpaused, h₃, rfl⟩ := h₂.of_bind
      obtain ⟨result, _, more, hsend, h₄, rfl⟩ := h₃.of_bind
      obtain rfl := hnow.of_ask
      obtain rfl := hwait.of_ask
      obtain rfl := hsend.of_call
      have hpause : paused = [] ∨ ∃ d, paused = [.sleep d] := by
        unfold Driver.pause at hpaused
        split at hpaused
        next => exact .inl hpaused.of_pure.2
        next => exact .inr ⟨_, hpaused.of_call⟩
      rw [List.nil_append, List.nil_append]
      have hcalls : ∀ call ∈ paused, ∃ d, call = .sleep d := by
        rcases hpause with rfl | ⟨d, rfl⟩
        · simp
        · simp
      have hfilter : paused.filter Call.isSend = [] := by
        rcases hpause with rfl | ⟨d, rfl⟩
        · rfl
        · rfl
      have hfails (e : IngressError) : ¬Fails e paused := by
        rintro ⟨call, hcall, hfailure⟩
        obtain ⟨d, rfl⟩ := hcalls call hcall
        cases hfailure
      cases result with
      | error error =>
          obtain ⟨rfl, rfl⟩ := h₄.of_pure
          refine ⟨fun call hcall ↦ ?_, nofun, fun e ↦ ?_⟩
          · rw [List.append_nil, List.mem_append, List.mem_singleton] at hcall
            exact hcall.imp (hcalls call) fun heq ↦ ⟨_, _, heq⟩
          · rw [List.append_nil, fails_append, or_iff_right (hfails e)]
            constructor
            · rintro ⟨call, hcall, hfailure⟩
              rw [List.mem_singleton.mp hcall] at hfailure
              exact congrArg _ (Option.some.inj hfailure)
            · rintro ⟨⟩
              exact ⟨_, List.mem_singleton_self _, rfl⟩
      | ok _ =>
          have hmore := ih h₄
          refine ⟨fun call hcall ↦ ?_, fun hok ↦ ?_, fun e ↦ ?_⟩
          · rw [List.mem_append, List.mem_append, List.mem_singleton] at hcall
            rcases hcall with hcall | rfl | hcall
            · exact .inl (hcalls call hcall)
            · exact .inr ⟨_, _, rfl⟩
            · exact hmore.calls call hcall
          · rw [List.filter_append, List.filter_append, hfilter, hmore.sent hok]
            rfl
          · rw [fails_append, fails_append, or_iff_right (hfails e), hmore.failed]
            refine or_iff_right ?_
            rintro ⟨call, hcall, hfailure⟩
            rw [List.mem_singleton.mp hcall] at hfailure
            cases hfailure

/-! ## Receiving -/

/-- What one step of the receive loop leaves in the trace. -/
structure Round (p : Pump) (r : Except Stop Pump) (t : List (Call Event)) : Prop where
  quiet : ∀ call ∈ t, call.isMilestone = false
  inScope : Scoped t
  failed : ∀ e, Fails e t → r = .error (.of e)
  fatal : ∀ e, r = .error (.fatal e) → e.isFatal = true ∧ Fails e t
  goes : ∀ q, r = .ok q →
    (q.delivered = true ↔ p.delivered = true ∨ ∃ call ∈ t, call.isDelivery = true)
  stops : ∀ s, r = .error s → ∀ call ∈ t, call.isDelivery = false

/-- A step that leaves nothing of note goes on as before. -/
theorem Round.goesOn {p q : Pump} {t : List (Call Event)}
    (hquiet : ∀ call ∈ t, call.isMilestone = false) (hapart : ∀ call ∈ t, call.ofPayload = false)
    (hfails : ∀ e, ¬Fails e t) (hq : q.delivered = p.delivered) : Round p (.ok q) t where
  quiet := hquiet
  inScope := .of_apart hapart
  failed e he := absurd he (hfails e)
  fatal := nofun
  goes := by
    rintro _ ⟨⟩
    rw [hq, or_iff_left]
    rintro ⟨call, hcall, hdelivery⟩
    rw [Call.isDelivery_of_apart (hapart call hcall)] at hdelivery
    cases hdelivery
  stops := nofun

/-- A step that ends the connection. -/
theorem Round.ends {p : Pump} {t : List (Call Event)} {stop : Stop}
    (hquiet : ∀ call ∈ t, call.isMilestone = false) (hapart : ∀ call ∈ t, call.ofPayload = false)
    (hfailed : ∀ e, Fails e t → stop = .of e)
    (hfatal : ∀ e, stop = .fatal e → e.isFatal = true ∧ Fails e t) : Round p (.error stop) t where
  quiet := hquiet
  inScope := .of_apart hapart
  failed e he := congrArg _ (hfailed e he)
  fatal e he := hfatal e (Except.error.inj he)
  goes := nofun
  stops _ _ call hcall := Call.isDelivery_of_apart (hapart call hcall)

theorem Stop.of_eq_fatal {e error : IngressError} (h : Stop.of error = .fatal e) :
    error = e ∧ e.isFatal = true := by
  unfold Stop.of at h
  split at h
  next hfatal =>
      cases h
      exact ⟨rfl, hfatal⟩
  next => cases h

/-- The stop that an answer of the input is. -/
theorem Stop.of_fails {error : IngressError} {t : List (Call Event)}
    (hfails : ∀ e, Fails e t ↔ error = e) :
    (∀ e, Fails e t → Stop.of error = .of e) ∧
      ∀ e, Stop.of error = .fatal e → e.isFatal = true ∧ Fails e t := by
  constructor
  · intro e he
    rw [(hfails e).mp he]
  · intro e he
    obtain ⟨rfl, hfatal⟩ := Stop.of_eq_fatal he
    exact ⟨hfatal, (hfails _).mpr rfl⟩

/-- What the receive itself leaves. -/
def receipt (pending : Bool) (received : Except IngressError Received) : List (Call Event) :=
  (if pending then [.drained] else []) ++ [.recv received]

theorem receipt_apart {pending : Bool} {received : Except IngressError Received} :
    ∀ call ∈ (receipt pending received : List (Call Event)),
      call.isMilestone = false ∧ call.ofPayload = false := by
  cases pending
  · simp [receipt, Call.isMilestone, Call.ofPayload, Call.isForwarded]
  · simp [receipt, Call.isMilestone, Call.ofPayload, Call.isForwarded]

theorem fails_receipt {pending : Bool} {received : Except IngressError Received} {e : IngressError} :
    Fails e (receipt pending received : List (Call Event)) ↔ received = .error e := by
  have hrecv : Fails e [(.recv received : Call Event)] ↔ received = .error e := by
    cases received with
    | error error => simp [Fails, Call.failure]
    | ok received => simp [Fails, Call.failure]
  cases pending with
  | false => exact hrecv
  | true =>
      rw [receipt, if_pos rfl, fails_append, hrecv, or_iff_right]
      simp [Fails, Call.failure]

theorem forward_forwarded {connection : ConnectionId} {calls : List (SinkCall Event)} :
    ∀ call ∈ calls.flatMap (forward connection), call.isForwarded = true := by
  intro call hcall
  obtain ⟨sinkCall, -, hcall⟩ := List.mem_flatMap.mp hcall
  cases sinkCall with
  | upstreamMessage messageType =>
      rcases List.mem_pair.mp hcall with rfl | rfl
      · rfl
      · rfl
  | event event =>
      rw [List.mem_singleton.mp hcall]
      rfl
  | desynchronised ref reason =>
      rw [List.mem_singleton.mp hcall]
      rfl
  | upstreamIdentity | payloadScope | drained => exact absurd hcall List.not_mem_nil

theorem mem_parseErrors {result : Except ParseError Unit} {call : Call Event}
    (h : call ∈ parseErrors result) : ∃ e, call = .parseError e := by
  cases result with
  | error error => exact ⟨error, List.mem_singleton.mp h⟩
  | ok _ => exact absurd h List.not_mem_nil

section

variable {connection : ConnectionId} {payload : Payload} {result : Except ParseError Unit}
  {calls : List (SinkCall Event)}

theorem handling_inScope : Scoped (handling connection payload result calls) :=
  .payload forward_forwarded (fun _ ↦ mem_parseErrors) .nil

theorem handling_quiet : ∀ call ∈ handling connection payload result calls,
    call.isMilestone = false ∧ call.failure = none := by
  intro call hcall
  rw [handling, List.mem_cons, List.mem_append, List.mem_cons, List.mem_append,
    List.mem_singleton] at hcall
  rcases hcall with rfl | hcall | rfl | hcall | rfl
  · exact ⟨rfl, rfl⟩
  · have hforwarded := forward_forwarded call hcall
    cases call <;> first | exact ⟨rfl, rfl⟩ | cases hforwarded
  · exact ⟨rfl, rfl⟩
  · obtain ⟨e, rfl⟩ := mem_parseErrors hcall
    exact ⟨rfl, rfl⟩
  · exact ⟨rfl, rfl⟩

theorem handling_delivers :
    .onPayload payload result ∈ handling connection payload result calls := by
  rw [handling]
  exact List.mem_cons_of_mem _ (List.mem_append_right _ List.mem_cons_self)

end

variable {connection : ConnectionId} {p : Pump} {t : List (Call Event)}

/-- A payload is handed over. -/
theorem Round.delivers {q : Pump} {payload : Payload} {result : Except ParseError Unit}
    {calls : List (SinkCall Event)} {count : ℕ} (hquiet : ∀ call ∈ t, call.isMilestone = false)
    (hapart : ∀ call ∈ t, call.ofPayload = false) (hfails : ∀ e, ¬Fails e t)
    (hq : q.delivered = true) :
    Round p (.ok q) (t ++ ([.bytes count] ++
      handling connection payload result calls)) where
  quiet call hcall := by
    rw [List.mem_append, List.mem_append, List.mem_singleton] at hcall
    rcases hcall with hcall | rfl | hcall
    · exact hquiet call hcall
    · rfl
    · exact (handling_quiet call hcall).1
  inScope := (Scoped.of_apart hapart).append (.apart rfl handling_inScope)
  failed e he := by
    rw [fails_append, or_iff_right (hfails e), fails_append] at he
    rcases he with ⟨call, hcall, hfailure⟩ | ⟨call, hcall, hfailure⟩
    · rw [List.mem_singleton.mp hcall] at hfailure
      cases hfailure
    · rw [(handling_quiet call hcall).2] at hfailure
      cases hfailure
  fatal := nofun
  goes := by
    rintro _ ⟨⟩
    rw [hq, eq_self, true_iff]
    exact .inr ⟨_, List.mem_append_right _ (List.mem_append_right _ handling_delivers), rfl⟩
  stops := nofun

theorem round_of_receive {r : Except Stop Pump}
    (h : (Driver.receive env policy connection p).May r t) : Round p r t := by
  obtain ⟨budget, budgeted, _, hbudget, h₁, rfl⟩ := h.of_bind
  obtain ⟨⟨pending, received⟩, _, rest, hrecv, h₂, rfl⟩ := h₁.of_bind
  have hbudgeted : budgeted = [] := by
    unfold Driver.budget at hbudget
    split at hbudget
    next => exact hbudget.of_pure.2
    next =>
        obtain ⟨_, _, _, hnow, hpure, rfl⟩ := hbudget.of_bind
        rw [hnow.of_ask, hpure.of_pure.2, List.append_nil]
  obtain rfl := hrecv.of_call
  subst hbudgeted
  change Round p r (receipt pending received ++ rest)
  have hquiet call (hcall : call ∈ (receipt pending received : List (Call Event))) :=
    (receipt_apart call hcall).1
  have hapart call (hcall : call ∈ (receipt pending received : List (Call Event))) :=
    (receipt_apart call hcall).2
  cases received with
  | error error =>
      obtain ⟨rfl, rfl⟩ := h₂.of_pure
      rw [List.append_nil]
      have hfails (e : IngressError) :
          Fails e (receipt pending (.error error) : List (Call Event)) ↔ error = e := by
        rw [fails_receipt, Except.error.injEq]
      obtain ⟨hfailed, hfatal⟩ := Stop.of_fails hfails
      exact .ends hquiet hapart hfailed hfatal
  | ok received =>
      have hfails (e : IngressError) :
          ¬Fails e (receipt pending (.ok received) : List (Call Event)) := by
        rw [fails_receipt]
        exact nofun
      cases received with
      | liveness =>
          obtain ⟨rfl, rfl⟩ := h₂.of_pure
          rw [List.append_nil]
          exact .goesOn hquiet hapart hfails rfl
      | idle =>
          obtain ⟨rfl, rfl⟩ := h₂.of_pure
          rw [List.append_nil]
          exact .ends hquiet hapart (fun e he ↦ absurd he (hfails e)) nofun
      | payload bytes tsNs =>
          obtain ⟨recvTsNs, stamped, _, hstamp, h₃, rfl⟩ := h₂.of_bind
          obtain ⟨_, _, _, hbytes, h₄, rfl⟩ := h₃.of_bind
          obtain ⟨_, handled, _, hpayload, h₅, rfl⟩ := h₄.of_bind
          obtain ⟨lastPayloadNs, _, _, hnow, h₆, rfl⟩ := h₅.of_bind
          obtain ⟨rfl, rfl⟩ := h₆.of_pure
          obtain rfl := hbytes.of_emit
          obtain rfl := hnow.of_ask
          have hstamped : stamped = [] := by
            cases tsNs with
            | none => exact hstamp.of_ask
            | some tsNs => exact hstamp.of_pure.2
          subst hstamped
          have hhandled : ∃ result calls, handled = handling connection
              { bytes, recvTsNs, connection } result calls := by
            obtain ⟨⟨result, calls⟩, _, _, hcall, hpure, rfl⟩ := hpayload.of_bind
            rw [hcall.of_call, hpure.of_pure.2, List.append_nil]
            exact ⟨result, calls, rfl⟩
          obtain ⟨result, calls, rfl⟩ := hhandled
          rw [List.nil_append, List.append_nil, List.append_nil]
          exact .delivers hquiet hapart hfails rfl

/-- The question for what is outstanding, and what is sent in answer. -/
theorem asked_apart (connection : ConnectionId) (result : Except AdapterError Unit)
    {queue : List UpstreamMessage} {r : Except IngressError Unit} (ht : Flushed queue r t) :
    (∀ call ∈ .pollUpstream connection queue result :: t, call.isMilestone = false) ∧
      (∀ call ∈ .pollUpstream connection queue result :: t, call.ofPayload = false) ∧
      ∀ e, Fails e (.pollUpstream connection queue result :: t) ↔ r = .error e := by
  refine ⟨List.forall_mem_cons.mpr ⟨rfl, ht.none (fun _ ↦ rfl) fun _ _ ↦ rfl⟩,
    List.forall_mem_cons.mpr ⟨rfl, ht.none (fun _ ↦ rfl) fun _ _ ↦ rfl⟩, fun e ↦ ?_⟩
  rw [← ht.failed, Fails, List.exists_mem_cons_iff]
  exact or_iff_right nofun

theorem round_of_outstanding {r : Except Stop Pump}
    (h : (Driver.outstanding env connection p).May r t) : Round p r t := by
  obtain ⟨nowNs, _, _, hnow, h₁, rfl⟩ := h.of_bind
  obtain rfl := hnow.of_ask
  rw [List.nil_append]
  split at h₁
  next =>
      obtain ⟨⟨result, queue⟩, _, _, hpoll, h₂, rfl⟩ := h₁.of_bind
      obtain rfl := hpoll.of_call
      cases result with
      | error error =>
          obtain ⟨_, _, _, hcount, h₃, rfl⟩ := h₂.of_bind
          obtain ⟨rfl, rfl⟩ := h₃.of_pure
          rw [hcount.of_emit, List.append_nil]
          refine .goesOn ?_ ?_ ?_ rfl
          · simp [Call.isMilestone]
          · simp [Call.ofPayload, Call.isForwarded]
          · simp [Fails, Call.failure]
      | ok _ =>
          obtain ⟨sent, flushed, _, hflush, h₃, rfl⟩ := h₂.of_bind
          obtain ⟨hquiet, hapart, hfails⟩ :=
            asked_apart connection (.ok ()) (flushed_of_flush hflush)
          cases sent with
          | error error =>
              obtain ⟨rfl, rfl⟩ := h₃.of_pure
              obtain ⟨hfailed, hfatal⟩ := Stop.of_fails fun e ↦ by rw [hfails e, Except.error.injEq]
              rw [List.append_nil]
              exact .ends hquiet hapart hfailed hfatal
          | ok _ =>
              obtain ⟨laterNs, _, _, hlater, h₄, rfl⟩ := h₃.of_bind
              obtain ⟨rfl, rfl⟩ := h₄.of_pure
              rw [hlater.of_ask, List.append_nil, List.append_nil]
              exact .goesOn hquiet hapart (fun e he ↦ absurd ((hfails e).mp he) nofun) rfl
  next =>
      obtain ⟨rfl, rfl⟩ := h₁.of_pure
      exact .goesOn (by simp) (by simp) (by simp [Fails]) rfl

/-- What receiving until the connection ends leaves in the trace, after `delivered`. -/
structure Pumped (delivered : Bool) (r : Option (Stop × Bool)) (t : List (Call Event)) : Prop where
  quiet : ∀ call ∈ t, call.isMilestone = false
  inScope : Scoped t
  failed : ∀ e, Fails e t → ∃ d, r = some (.of e, d)
  fatal : ∀ e d, r = some (.fatal e, d) → e.isFatal = true ∧ Fails e t
  delivers : ∀ s d, r = some (s, d) →
    (d = true ↔ delivered = true ∨ ∃ call ∈ t, call.isDelivery = true)

theorem Round.pumped {s : Stop} (h : Round p (.error s) t) :
    Pumped p.delivered (some (s, p.delivered)) t where
  quiet := h.quiet
  inScope := h.inScope
  failed e he := ⟨p.delivered, by rw [Except.error.inj (h.failed e he)]⟩
  fatal := by
    rintro e _ ⟨⟩
    exact h.fatal e rfl
  delivers := by
    rintro _ _ ⟨⟩
    rw [or_iff_left]
    rintro ⟨call, hcall, hdelivery⟩
    rw [h.stops s rfl call hcall] at hdelivery
    cases hdelivery

/-- A step that goes on, and what comes after it. -/
theorem Round.andThen {q : Pump} {r : Option (Stop × Bool)} {u : List (Call Event)}
    (h : Round p (.ok q) t) (hu : Pumped q.delivered r u) : Pumped p.delivered r (t ++ u) where
  quiet := List.forall_mem_append.mpr ⟨h.quiet, hu.quiet⟩
  inScope := h.inScope.append hu.inScope
  failed e he := by
    rcases fails_append.mp he with ht | hu'
    · cases h.failed e ht
    · exact hu.failed e hu'
  fatal e d hr := by
    obtain ⟨hfatal, hfails⟩ := hu.fatal e d hr
    exact ⟨hfatal, fails_append.mpr (.inr hfails)⟩
  delivers s d hr := by
    rw [hu.delivers s d hr, h.goes q rfl, or_assoc]
    simp only [List.mem_append, or_and_right, exists_or]

theorem pumped_of_pumpFrom {rounds : ℕ} {r : Option (Stop × Bool)}
    (h : (Driver.pumpFrom env policy connection rounds p).May r t) : Pumped p.delivered r t := by
  induction rounds generalizing p t with
  | zero =>
      obtain ⟨rfl, rfl⟩ := h.of_pure
      exact ⟨by simp, .nil, by simp [Fails], nofun, nofun⟩
  | succ rounds ih =>
      obtain ⟨received, _, _, hreceive, h₁, rfl⟩ := h.of_bind
      have hreceived := round_of_receive hreceive
      cases received with
      | error stop =>
          obtain ⟨rfl, rfl⟩ := h₁.of_pure
          rw [List.append_nil]
          exact hreceived.pumped
      | ok q =>
          obtain ⟨asked, _, _, houtstanding, h₂, rfl⟩ := h₁.of_bind
          have hasked := round_of_outstanding houtstanding
          cases asked with
          | error stop =>
              obtain ⟨rfl, rfl⟩ := h₂.of_pure
              rw [List.append_nil]
              exact hreceived.andThen hasked.pumped
          | ok q' => exact hreceived.andThen (hasked.andThen (ih h₂))

theorem pumped_of_pump {rounds : ℕ} {r : Option (Stop × Bool)}
    (h : (Driver.pump env policy rounds connection).May r t) : Pumped false r t := by
  obtain ⟨nowNs, _, _, hnow, h₁, rfl⟩ := h.of_bind
  rw [hnow.of_ask, List.nil_append]
  exact pumped_of_pumpFrom h₁

end

end EdgeMulticast.Ingress
