import EdgeMulticast.Ingress.Pacing
import EdgeMulticast.Lib.Run
import EdgeMulticast.Lowering.Table

/-!
# The ingress driver

`driver.rs` (`dz-ingress-core`): an `Input` driving an `Adapter`.  The driver connects, asks the adapter
what to send, receives until the connection ends, and starts over after a delay.

The transport, the adapter and the clock are an `Environment`, whose answers are free; what the driver
does to them, to the runtime's sink and to the observer is its trace of `Call`s.  Both loops of the
driver go on for as long as they are given rounds.
-/

namespace EdgeMulticast.Ingress

open EdgeMulticast.Lib
open EdgeMulticast.Lib.Traced (ask call emit)
open EdgeMulticast.Lowering (InstrumentRef)

/-! ## What is handed over -/

structure ConnectionId where
  name : List UInt8
deriving DecidableEq, Repr

inductive DisconnectReason where
  | timeout
  | remoteClose
  | rateLimit
  | authExpired
deriving DecidableEq, Repr

inductive ConnectFailureReason where
  | refused
  | unresolved
  | tls
  | timeout
  | unauthorized
  | rateLimit
  | rejected
deriving DecidableEq, Repr

inductive IngressError where
  | connect (reason : ConnectFailureReason) (detail : String)
  | ended (reason : DisconnectReason) (detail : String)
  | fatal (detail : String)
deriving DecidableEq, Repr

namespace IngressError

def disconnectReason : IngressError → Option DisconnectReason
  | .ended reason _ => some reason
  | .fatal _ => some .remoteClose
  | .connect _ _ => none

def isFatal : IngressError → Bool
  | .fatal _ => true
  | _ => false

/-- The reason that a connection ends for. -/
def reason (e : IngressError) : DisconnectReason := e.disconnectReason.getD .remoteClose

end IngressError

inductive AdapterError where
  | notReady (detail : String)
  | unknownInstrument
  | internal (detail : String)
deriving DecidableEq, Repr

inductive ParseError where
  | schema (detail : String)
  | unknownField (detail : String)
  | malformed (detail : String)
  | truncated (detail : String)
deriving DecidableEq, Repr

inductive Desync where
  | unspecified
  | venueResync
  | upstreamGap
deriving DecidableEq, Repr

inductive UpstreamMessage where
  | text (text : List UInt8)
  | binary (bytes : List UInt8)
deriving DecidableEq, Repr

inductive Received where
  | payload (bytes : List UInt8) (tsNs : Option UInt64)
  | liveness
  | idle
deriving DecidableEq, Repr

structure Payload where
  bytes : List UInt8
  recvTsNs : UInt64
  connection : ConnectionId
deriving DecidableEq, Repr

/-- What an adapter does to the sink it is handed for a payload. -/
inductive SinkCall (Event : Type) where
  | upstreamMessage (messageType : String)
  | upstreamIdentity (sid seq : Option UInt64)
  | event (event : Event)
  | desynchronised («instrument» : InstrumentRef) (reason : Desync)
  | payloadScope (recvTsNs : Option UInt64)
  | drained

/-! ## What the driver does -/

/-- What the driver does to the outside, each call with what it returned.  A call to the adapter stands
where it returns. -/
inductive Call (Event : Type) where
  -- to the input
  | connect (result : Except IngressError Unit)
  | send (message : UpstreamMessage) (result : Except IngressError Unit)
  | recv (result : Except IngressError Received)
  | shutdown
  -- to the adapter
  | onConnected (connection : ConnectionId) (queued : List UpstreamMessage)
      (result : Except AdapterError Unit)
  | onPayload (payload : Payload) (result : Except ParseError Unit)
  | pollUpstream (connection : ConnectionId) (queued : List UpstreamMessage)
      (result : Except AdapterError Unit)
  | onDisconnected (connection : ConnectionId) (reason : DisconnectReason)
  -- to the runtime's sink
  | payloadScope (recvTsNs : Option UInt64)
  | upstreamMessage (messageType : String)
  | event (event : Event)
  | desynchronised («instrument» : InstrumentRef) (reason : Desync)
  | drained
  -- to the observer
  | message (messageType : String) (connection : ConnectionId)
  | bytes (count : ℕ)
  | parseError (error : ParseError)
  | adapterError (error : AdapterError)
  | connectionState (connection : ConnectionId) (connected : Bool)
  | reconnect (reason : DisconnectReason)
  | connectFailure (reason : ConnectFailureReason)
  | rateLimited
  -- to the delay sequence and the clock, and the end
  | backoffReset
  | sleep (delay : Duration)
  | returned (error : IngressError)

/-- The transport, the adapter and the clock, on whatever state they have. -/
structure Environment (W Event : Type) where
  connection : W → ConnectionId
  connect : Duration → W → Except IngressError Unit × W
  send : UpstreamMessage → W → Except IngressError Unit × W
  /-- Whether the first poll was pending, and what the receive came to. -/
  recv : Option Duration → W → (Bool × Except IngressError Received) × W
  shutdown : W → W
  onConnected : ConnectionId → W → (Except AdapterError Unit × List UpstreamMessage) × W
  pollUpstream : ConnectionId → W → (Except AdapterError Unit × List UpstreamMessage) × W
  onPayload : Payload → W → (Except ParseError Unit × List (SinkCall Event)) × W
  onDisconnected : ConnectionId → DisconnectReason → W → W
  steadyNs : W → UInt64 × W
  wallNs : W → UInt64 × W
  sleep : Duration → W → W

structure Policy where
  connectTimeout : Duration
  backoff : BackoffPolicy
  rateLimitPerSecond : ℕ
  idleTimeout : Option Duration

/-- The driver, and the world around it. -/
structure Driver (W : Type) where
  world : W
  backoff : Backoff
  limiter : RateLimiter

/-- How often an adapter is asked for what it has outstanding: every five seconds. -/
def UPSTREAM_POLL : Duration := 5 * 10 ^ 9

/-- How one pass through connect, subscribe and receive ended. -/
inductive Cycle where
  | proven
  | retry
  | fatal (error : IngressError)

/-- Why the receive loop stopped. -/
inductive Stop where
  | reason (reason : DisconnectReason)
  | fatal (error : IngressError)

namespace Stop

/-- The stop that an error is. -/
def of (error : IngressError) : Stop :=
  if error.isFatal then .fatal error else .reason error.reason

def disconnectReason : Stop → DisconnectReason
  | .reason r => r
  | .fatal error => error.reason

/-- How a cycle ends with it. -/
def cycle (stop : Stop) (delivered : Bool) : Cycle :=
  match stop with
  | .fatal error => .fatal error
  | .reason r => if delivered ∧ r ≠ .rateLimit then .proven else .retry

end Stop

/-- What the receive loop carries around. -/
structure Pump where
  /-- The connection has delivered a payload. -/
  delivered : Bool
  lastPayloadNs : ℕ
  lastUpstreamNs : ℕ

variable {W Event : Type}

/-- What `PayloadSink` does with a call of the adapter. -/
def forward (connection : ConnectionId) : SinkCall Event → List (Call Event)
  | .upstreamMessage messageType => [.message messageType connection, .upstreamMessage messageType]
  | .event event => [.event event]
  | .desynchronised ref reason => [.desynchronised ref reason]
  | .upstreamIdentity _ _ | .payloadScope _ | .drained => []

/-- The connect failure that an error is counted as. -/
def connectFailures : IngressError → List (Call Event)
  | .connect reason _ => [.connectFailure reason]
  | _ => []

def parseErrors : Except ParseError Unit → List (Call Event)
  | .error error => [.parseError error]
  | .ok () => []

/-- What the handling of a payload comes to, when the adapter has made these calls and returned. -/
def handling (connection : ConnectionId) (payload : Payload) (result : Except ParseError Unit)
    (calls : List (SinkCall Event)) : List (Call Event) :=
  .payloadScope (some payload.recvTsNs) :: (calls.flatMap (forward connection) ++
    .onPayload payload result :: (parseErrors result ++ [.payloadScope none]))

namespace Driver

/-- A driver at its start. -/
def new (env : Environment W Event) (policy : Policy) (world : W) : Driver W :=
  let (wallNs, world) := env.wallNs world
  { world
    backoff := .new policy.backoff (Backoff.seed wallNs (env.connection world).name)
    limiter := .new policy.rateLimitPerSecond }

abbrev Program (W Event α : Type) := Traced (Driver W) (Call Event) α

/-- A step of the world alone. -/
def within {α : Type} (step : W → α × W) (d : Driver W) : α × Driver W :=
  ((step d.world).1, { d with world := (step d.world).2 })

section

variable (env : Environment W Event) (policy : Policy)

def steadyNs : Program W Event ℕ := ask fun d ↦
  let (nowNs, d) := d.within env.steadyNs
  (nowNs.toNat, d)

def sleep (delay : Duration) : Program W Event Unit :=
  call (within fun w ↦ ((), env.sleep delay w)) fun _ ↦ [.sleep delay]

def charge (nowNs : ℕ) : Program W Event Duration := ask fun d ↦
  let (wait, limiter) := d.limiter.charge nowNs
  (wait, { d with limiter })

def pause (wait : Duration) : Program W Event Unit := if wait = 0 then pure () else sleep env wait

/-- Send what the adapter queued, paced. -/
def flush : List UpstreamMessage → Program W Event (Except IngressError Unit)
  | [] => pure (.ok ())
  | message :: messages => do
      let nowNs ← steadyNs env
      let wait ← charge nowNs
      pause env wait
      match ← call (within (env.send message)) fun result ↦ [.send message result] with
      | .error error => pure (.error error)
      | .ok () => flush messages

/-- What a receive is given before silence ends the connection. -/
def budget (lastPayloadNs : ℕ) : Program W Event (Option Duration) :=
  match policy.idleTimeout with
  | none => pure none
  | some limit => do
      let nowNs ← steadyNs env
      pure (some (limit - (nowNs - lastPayloadNs)))

/-- The transport's own stamp, or the reading of the clock. -/
def stamp : Option UInt64 → Program W Event UInt64
  | some tsNs => pure tsNs
  | none => ask (within env.wallNs)

/-- Hand a payload to the adapter, inside the scope of its receive stamp. -/
def onPayload (connection : ConnectionId) (payload : Payload) : Program W Event Unit := do
  let _ ← call (within (env.onPayload payload)) fun (result, calls) ↦
    handling connection payload result calls
  pure ()

/-- One receive. -/
def receive (connection : ConnectionId) (p : Pump) : Program W Event (Except Stop Pump) := do
  let budget ← budget env policy p.lastPayloadNs
  let (_, received) ← call (within (env.recv budget)) fun (pending, received) ↦
    (if pending then [.drained] else []) ++ [.recv received]
  match received with
  | .ok (.payload bytes tsNs) =>
      let recvTsNs ← stamp env tsNs
      emit [.bytes bytes.length]
      onPayload env connection { bytes, recvTsNs, connection }
      let lastPayloadNs ← steadyNs env
      pure (.ok { p with delivered := true, lastPayloadNs })
  | .ok .liveness => pure (.ok p)
  | .ok .idle => pure (.error (.reason .timeout))
  | .error error => pure (.error (.of error))

/-- Send what the adapter has outstanding, on the cadence. -/
def outstanding (connection : ConnectionId) (p : Pump) : Program W Event (Except Stop Pump) := do
  let nowNs ← steadyNs env
  if UPSTREAM_POLL ≤ nowNs - p.lastUpstreamNs then
    let p := { p with lastUpstreamNs := nowNs }
    let (result, queue) ← call (within (env.pollUpstream connection)) fun (result, queue) ↦
      [.pollUpstream connection queue result]
    match result with
    | .error error =>
        emit [.adapterError error]
        pure (.ok p)
    | .ok () =>
        match ← flush env queue with
        | .error error => pure (.error (.of error))
        | .ok () =>
            -- The time that pacing took is not upstream silence.
            let laterNs ← steadyNs env
            let lastPayloadNs := min (p.lastPayloadNs + (laterNs - nowNs)) (2 ^ 64 - 1)
            pure (.ok { p with lastPayloadNs })
  else pure (.ok p)

/-- Receive until the connection ends, for so many rounds: why it ended, and whether it delivered a
payload. -/
def pumpFrom (connection : ConnectionId) : ℕ → Pump → Program W Event (Option (Stop × Bool))
  | 0, _ => pure none
  | rounds + 1, p => do
      match ← receive env policy connection p with
      | .error stop => pure (some (stop, p.delivered))
      | .ok p =>
          match ← outstanding env connection p with
          | .error stop => pure (some (stop, p.delivered))
          | .ok p => pumpFrom connection rounds p

def pump (rounds : ℕ) (connection : ConnectionId) : Program W Event (Option (Stop × Bool)) := do
  let nowNs ← steadyNs env
  pumpFrom env policy connection rounds ⟨false, nowNs, nowNs⟩

/-- Tell the adapter the connection is gone, record it, and release it. -/
def «end» (connection : ConnectionId) (reason : DisconnectReason) (counted : Bool) :
    Program W Event Unit := do
  call (within fun w ↦ ((), env.onDisconnected connection reason w)) fun _ ↦
    [.onDisconnected connection reason]
  emit [.connectionState connection false]
  emit (if reason = .rateLimit then [.rateLimited] else [])
  emit (if counted then [.reconnect reason] else [])
  call (within fun w ↦ ((), env.shutdown w)) fun _ ↦ [.shutdown]

/-- One connect, subscribe and receive.  There is no answer when the rounds do not reach the end of the
connection. -/
def cycle (rounds : ℕ) : Program W Event (Option Cycle) := do
  let connection ← ask (within fun w ↦ (env.connection w, w))
  match ← call (within (env.connect policy.connectTimeout)) fun result ↦ [.connect result] with
  | .error error =>
      emit (connectFailures error)
      pure (some (if error.isFatal then .fatal error else .retry))
  | .ok () =>
      let (result, queue) ← call (within (env.onConnected connection)) fun (result, queue) ↦
        [.onConnected connection queue result]
      match result with
      | .error error =>
          emit [.adapterError error]
          «end» env connection .remoteClose false
          pure (some .retry)
      | .ok () =>
          match ← flush env queue with
          | .error error =>
              emit (connectFailures error)
              «end» env connection error.reason false
              pure (some (if error.isFatal then .fatal error else .retry))
          | .ok () =>
              emit [.connectionState connection true]
              match ← pump env policy rounds connection with
              | none => pure none
              | some (stop, delivered) =>
                  emit [.drained]
                  «end» env connection stop.disconnectReason true
                  pure (some (stop.cycle delivered))

/-- The delay before the next attempt. -/
def wait : Program W Event Unit := do
  let delay ← ask fun d ↦
    let (delay, backoff) := d.backoff.nextDelay
    (delay, { d with backoff })
  sleep env delay

/-- Start the delay sequence over. -/
def reset : Program W Event Unit :=
  call (fun d ↦ ((), { d with backoff := d.backoff.reset })) fun _ ↦ [.backoffReset]

/-- Connect, subscribe, receive, reconnect, for so many turns: until something retrying cannot fix. -/
def run (rounds : ℕ) : ℕ → Program W Event (Option IngressError)
  | 0 => pure none
  | turns + 1 => do
      match ← cycle env policy rounds with
      | none => pure none
      | some (.fatal error) =>
          emit [.returned error]
          pure (some error)
      | some .proven =>
          reset
          wait env
          run rounds turns
      | some .retry =>
          wait env
          run rounds turns

end

end Driver

end EdgeMulticast.Ingress
