import EdgeMulticast.Load.Ledger
import Mathlib.Data.List.Perm.Lattice

/-!
# The column-store sink

`sink.rs` and `transport.rs` (`dz-recorder-clickhouse`): rows held across objects, split into bodies
within two bounds, sent grain by grain with a bounded number of attempts each, and the objects that
this lands.

How a row is serialised, where a table's rows are posted and what the destination answers are
parameters.  The sink keeps what it has sent and how long it has slept, which the source does not;
credentials are left out.
-/

namespace EdgeMulticast.Clickhouse

open EdgeMulticast.Lib
open EdgeMulticast.Load (ObjectId)

/-! ## Rows -/

inductive Grain where
  | datagram | era | segmentCoverage | sequenceGap | conformanceFinding | event | instrument
  | bookTop
deriving DecidableEq, Repr

namespace Grain

def all : List Grain :=
  [datagram, era, segmentCoverage, sequenceGap, conformanceFinding, event, instrument, bookTop]

def table : Grain → String
  | datagram => "datagram"
  | era => "era"
  | segmentCoverage => "segment_coverage"
  | sequenceGap => "sequence_gap"
  | conformanceFinding => "conformance_finding"
  | event => "event"
  | instrument => "instrument"
  | bookTop => "book_top"

end Grain

/-- The grains, in the order they are sent. -/
def sendOrder : List Grain :=
  [.datagram, .era, .segmentCoverage, .sequenceGap, .conformanceFinding, .instrument, .event,
    .bookTop]

theorem mem_sendOrder (g : Grain) : g ∈ sendOrder := by cases g <;> decide

theorem nodup_sendOrder : sendOrder.Nodup := by decide

/-- Everything one object derived into. -/
structure RowBatch (R : Grain → Type) where
  objectKey : String := ""
  objectSha256 : String := ""
  datagram : List (R .datagram) := []
  era : List (R .era) := []
  segmentCoverage : List (R .segmentCoverage) := []
  sequenceGap : List (R .sequenceGap) := []
  conformanceFinding : List (R .conformanceFinding) := []
  event : List (R .event) := []
  instrument : List (R .instrument) := []
  bookTop : List (R .bookTop) := []

variable {R : Grain → Type}

namespace RowBatch

/-- The rows of one grain. -/
def of (b : RowBatch R) : (g : Grain) → List (R g)
  | .datagram => b.datagram
  | .era => b.era
  | .segmentCoverage => b.segmentCoverage
  | .sequenceGap => b.sequenceGap
  | .conformanceFinding => b.conformanceFinding
  | .event => b.event
  | .instrument => b.instrument
  | .bookTop => b.bookTop

def rows (b : RowBatch R) (g : Grain) : ℕ := (b.of g).length

def len (b : RowBatch R) : ℕ := (Grain.all.map b.rows).sum

def id (b : RowBatch R) : ObjectId := ⟨b.objectKey, b.objectSha256⟩

end RowBatch

/-- What a sink took, per grain. -/
structure Written where
  rows : Grain → ℕ
  bytes : ℕ

def Written.of (b : RowBatch R) (bytes : ℕ) : Written := ⟨b.rows, bytes⟩

/-- What a post put in the store. -/
structure Landed where
  objects : List ObjectId := []
  bytesPosted : ℕ := 0
deriving DecidableEq, Repr

/-- What a sink did with one batch. -/
structure Accepted where
  accepted : Written
  landed : List ObjectId
  bytesPosted : ℕ

/-! ## What is held -/

/-- Rows accepted and not yet sent. -/
structure Held (R : Grain → Type) where
  rows : RowBatch R := {}
  objects : List ObjectId := []
  oldestNs : Option ℕ := none
  bytes : ℕ := 0

namespace Held

def take (h : Held R) (batch : RowBatch R) (nowNs : ℕ) : Held R :=
  { h with
    objects := if batch.id ∈ h.objects then h.objects else h.objects ++ [batch.id]
    oldestNs := some (h.oldestNs.getD nowNs)
    rows := { h.rows with
      datagram := h.rows.datagram ++ batch.datagram
      era := h.rows.era ++ batch.era
      segmentCoverage := h.rows.segmentCoverage ++ batch.segmentCoverage
      sequenceGap := h.rows.sequenceGap ++ batch.sequenceGap
      conformanceFinding := h.rows.conformanceFinding ++ batch.conformanceFinding
      event := h.rows.event ++ batch.event
      instrument := h.rows.instrument ++ batch.instrument
      bookTop := h.rows.bookTop ++ batch.bookTop } }

def len (h : Held R) : ℕ := h.rows.len

def isEmpty (h : Held R) : Bool := h.objects.isEmpty

/-- Whether what is held has to go now: for its rows, or for the age of the oldest. -/
def due (h : Held R) (nowNs minRows maxDelayNs : ℕ) : Bool :=
  if h.isEmpty then false
  else if minRows ≤ h.len then true
  else h.oldestNs.any fun oldest ↦ min maxDelayNs (2 ^ 64 - 1) ≤ nowNs - oldest

theorem of_take (h : Held R) (batch : RowBatch R) (nowNs : ℕ) (g : Grain) :
    (h.take batch nowNs).rows.of g = h.rows.of g ++ batch.of g := by
  cases g <;> rfl

end Held

/-! ## The destination -/

structure Response where
  status : UInt16
  body : String
deriving DecidableEq, Repr

inductive TransportError where
  | unreachable (url message : String)
  | refused (url : String) (status : UInt16) (body : String)
deriving DecidableEq, Repr

namespace TransportError

/-- Whether sending the same bytes again could plausibly succeed. -/
def isWorthRetrying : TransportError → Bool
  | unreachable .. => true
  | refused _ status _ => 500 ≤ status || status == 429

def text : TransportError → String
  | unreachable url message => url ++ ": " ++ message
  | refused url status body => url ++ ": HTTP " ++ toString status ++ ": " ++ body

end TransportError

abbrev Answer := Except TransportError Response

/-- Somewhere a statement and a body can be posted, and what it remembers between two requests. -/
structure Transport (τ : Type) where
  post : τ → String → List Byte → Answer × τ
  postAll : τ → String → List (List Byte) → List Answer × τ
  concurrency : ℕ

/-- Bodies sent together get one answer each. -/
def Transport.AnswersAll {τ : Type} (T : Transport τ) : Prop :=
  ∀ t url bodies, (T.postAll t url bodies).1.length = bodies.length

/-- The settings of a sink. -/
structure ClickHouseConfig where
  insertMinRows : ℕ
  insertMaxRows : ℕ
  insertMaxBytes : ℕ
  insertMaxDelayNs : ℕ
  attempts : ℕ
  /-- Where the rows of a table are posted. -/
  insertUrl : String → String

/-- Why a sink failed.  What a serialiser reports is a parameter. -/
inductive RowSinkError (ε : Type) where
  | encode (grain : Grain) (source : ε)
  | rejected (objectKey : String) (attempts : ℕ) (last : String)
deriving DecidableEq, Repr

/-- The objects an insert carried, for an error to name. -/
def describe : List ObjectId → String
  | [] => "no object"
  | [one] => one.key
  | many => toString many.length ++ " objects including " ++
      ", ".intercalate ((many.take 3).map ObjectId.key)

/-- One request's worth of rows. -/
structure Body where
  bytes : List Byte := []
  rows : ℕ := 0
deriving DecidableEq, Repr

/-- A body with one more line. -/
def Body.add (body : Body) (line : List Byte) : Body :=
  ⟨body.bytes ++ line ++ [10], body.rows + 1⟩

/-- What a sink is built with. -/
structure Destination (R : Grain → Type) (ε τ : Type) where
  config : ClickHouseConfig
  transport : Transport τ
  encode : (g : Grain) → R g → Except ε (List Byte)

/-- What the destination sees of a sink. -/
inductive Event where
  | sent (grain : Grain) (url : String) (body : Body) (answer : Answer)
  | slept (ms : ℕ)

/-- A sink, and what it has sent. -/
structure ClickHouseSink (R : Grain → Type) (τ : Type) where
  transport : τ
  batchesFailed : ℕ := 0
  lastError : Option String := none
  held : Held R := {}
  bytesPosted : ℕ := 0
  sent : List Event := []

def FIRST_BACKOFF : ℕ := 250

def MAX_BACKOFF : ℕ := 4000

/-- A list in pieces of a length. -/
def chunks {α : Type*} (n : ℕ) (xs : List α) : List (List α) :=
  if _h : xs = [] ∨ n = 0 then []
  else xs.take n :: chunks n (xs.drop n)
termination_by xs.length
decreasing_by
  have : xs.length ≠ 0 := fun h' ↦ _h (.inl (List.length_eq_zero_iff.mp h'))
  rw [List.length_drop]
  omega

theorem flatten_chunks {α : Type*} {n : ℕ} (hn : n ≠ 0) (xs : List α) :
    (chunks n xs).flatten = xs := by
  induction xs using chunks.induct n with
  | case1 xs h => rw [chunks, dif_pos h, List.flatten_nil, h.resolve_right hn]
  | case2 xs h ih => rw [chunks, dif_neg h, List.flatten_cons, ih, List.take_append_drop]

namespace Destination

variable {ε τ : Type} (D : Destination R ε τ)

/-! ## Bodies -/

/-- Whether a body has no room for one more line. -/
def full (body : Body) (line : List Byte) : Bool :=
  0 < body.rows && (D.config.insertMaxRows ≤ body.rows ||
    D.config.insertMaxBytes < body.bytes.length + line.length + 1)

/-- Splits the rows of a grain behind a body that has been begun. -/
def bodiesFrom (g : Grain) (current : Body) : List (R g) → Except (RowSinkError ε) (List Body)
  | [] => .ok (if 0 < current.rows then [current] else [])
  | row :: rows =>
      match D.encode g row with
      | .error source => .error (.encode g source)
      | .ok line =>
          if D.full current line then
            (current :: ·) <$> bodiesFrom g (Body.add {} line) rows
          else bodiesFrom g (current.add line) rows

/-- Splits one grain's rows into bodies no larger than the bounds. -/
def bodies (g : Grain) (rows : List (R g)) : Except (RowSinkError ε) (List Body) :=
  D.bodiesFrom g {} rows

/-! ## One body -/

def url (g : Grain) : String := D.config.insertUrl g.table

/-- One attempt. -/
def attempt (g : Grain) (body : Body) (s : ClickHouseSink R τ) : Answer × ClickHouseSink R τ :=
  let answered := D.transport.post s.transport (D.url g) body.bytes
  (answered.1, { s with
    transport := answered.2, sent := s.sent ++ [.sent g (D.url g) body answered.1] })

/-- The sink that has seen an attempt fail. -/
def failed (g : Grain) (e : TransportError) (s : ClickHouseSink R τ) : ClickHouseSink R τ :=
  { s with lastError := some (g.table ++ ": " ++ e.text) }

/-- Takes a body from its first attempt to landed or refused, with this many attempts left. -/
def settle (g : Grain) (body : Body) :
    ℕ → ℕ → Answer → ClickHouseSink R τ → Except TransportError Unit × ClickHouseSink R τ
  | _, _, .ok _, s => (.ok (), s)
  | 0, _, .error e, s =>
      (.error e, { failed g e s with batchesFailed := s.batchesFailed + 1 })
  | left + 1, backoff, .error e, s =>
      if e.isWorthRetrying then
        let again := D.attempt g body { failed g e s with sent := s.sent ++ [.slept backoff] }
        settle g body left (min (backoff * 2) MAX_BACKOFF) again.1 again.2
      else (.error e, { failed g e s with batchesFailed := s.batchesFailed + 1 })

/-- Sends one body, retrying while the failure is one a retry could fix. -/
def send (g : Grain) (body : Body) (s : ClickHouseSink R τ) :
    Except TransportError Unit × ClickHouseSink R τ :=
  let first := D.attempt g body s
  D.settle g body (D.config.attempts - 1) FIRST_BACKOFF first.1 first.2

/-! ## One grain -/

def rejected (objects : List ObjectId) (e : TransportError) : RowSinkError ε :=
  .rejected (describe objects) D.config.attempts e.text

/-- Sends bodies one after the other until one is refused.  What is told is how long they were. -/
def sendAll (g : Grain) (objects : List ObjectId) :
    List Body → ClickHouseSink R τ → Except (RowSinkError ε) ℕ × ClickHouseSink R τ
  | [], s => (.ok 0, s)
  | body :: bodies, s =>
      match D.send g body s with
      | (.error e, s) => (.error (D.rejected objects e), s)
      | (.ok (), s) =>
          match sendAll g objects bodies s with
          | (.error e, s) => (.error e, s)
          | (.ok bytes, s) => (.ok (body.bytes.length + bytes), s)

/-- Takes bodies that were sent together to landed, each on its own, until one is refused. -/
def settleAll (g : Grain) (objects : List ObjectId) :
    List (Body × Answer) → ClickHouseSink R τ → Except (RowSinkError ε) ℕ × ClickHouseSink R τ
  | [], s => (.ok 0, s)
  | (body, first) :: firsts, s =>
      match D.settle g body (D.config.attempts - 1) FIRST_BACKOFF first s with
      | (.error e, s) => (.error (D.rejected objects e), s)
      | (.ok (), s) =>
          match settleAll g objects firsts s with
          | (.error e, s) => (.error e, s)
          | (.ok bytes, s) => (.ok (body.bytes.length + bytes), s)

/-- The first attempts of bodies that are sent together. -/
def attemptAll (g : Grain) (bodies : List Body) (s : ClickHouseSink R τ) :
    List Answer × ClickHouseSink R τ :=
  let answered := D.transport.postAll s.transport (D.url g) (bodies.map Body.bytes)
  (answered.1, { s with
    transport := answered.2
    sent := s.sent ++ (bodies.zip answered.1).map fun x ↦ .sent g (D.url g) x.1 x.2 })

/-- Sends a chunk of bodies at a time until one of them is refused. -/
def sendChunks (g : Grain) (objects : List ObjectId) :
    List (List Body) → ClickHouseSink R τ → Except (RowSinkError ε) ℕ × ClickHouseSink R τ
  | [], s => (.ok 0, s)
  | chunk :: chunks, s =>
      let firsts := D.attemptAll g chunk s
      match D.settleAll g objects (chunk.zip firsts.1) firsts.2 with
      | (.error e, s) => (.error e, s)
      | (.ok bytes, s) =>
          match sendChunks g objects chunks s with
          | (.error e, s) => (.error e, s)
          | (.ok more, s) => (.ok (bytes + more), s)

def writeGrain (g : Grain) (rows : List (R g)) (objects : List ObjectId)
    (s : ClickHouseSink R τ) : Except (RowSinkError ε) ℕ × ClickHouseSink R τ :=
  match D.bodies g rows with
  | .error e => (.error e, s)
  | .ok bodies =>
      if D.transport.concurrency ≤ 1 then D.sendAll g objects bodies s
      else D.sendChunks g objects (chunks D.transport.concurrency bodies) s

/-! ## Everything held -/

/-- Sends the rows of the grains in turn until one of them fails. -/
def writeGrains (rows : RowBatch R) (objects : List ObjectId) :
    List Grain → ClickHouseSink R τ → Except (RowSinkError ε) ℕ × ClickHouseSink R τ
  | [], s => (.ok 0, s)
  | g :: grains, s =>
      match D.writeGrain g (rows.of g) objects s with
      | (.error e, s) => (.error e, s)
      | (.ok bytes, s) =>
          match writeGrains rows objects grains s with
          | (.error e, s) => (.error e, s)
          | (.ok more, s) => (.ok (bytes + more), s)

/-- Posts everything held, and says what landed.  It is taken out first, so a failure leaves nothing
held. -/
def post (s : ClickHouseSink R τ) : Except (RowSinkError ε) Landed × ClickHouseSink R τ :=
  if s.held.isEmpty then (.ok {}, s)
  else
    match D.writeGrains s.held.rows s.held.objects sendOrder { s with held := {} } with
    | (.error e, s') => (.error e, s')
    | (.ok bytes, s') => (.ok ⟨s.held.objects, bytes⟩, s')

/-- The same, with what it sent added to the running total. -/
def posted (s : ClickHouseSink R τ) : Except (RowSinkError ε) Landed × ClickHouseSink R τ :=
  match D.post s with
  | (.error e, s) => (.error e, s)
  | (.ok landed, s) => (.ok landed, { s with bytesPosted := s.bytesPosted + landed.bytesPosted })

def isDue (s : ClickHouseSink R τ) (nowNs : ℕ) : Bool :=
  s.held.due nowNs D.config.insertMinRows D.config.insertMaxDelayNs

def postIfDue (nowNs : ℕ) (s : ClickHouseSink R τ) :
    Except (RowSinkError ε) Landed × ClickHouseSink R τ :=
  if D.isDue s nowNs then D.posted s else (.ok {}, s)

def writeBatch (rows : RowBatch R) (nowNs : ℕ) (s : ClickHouseSink R τ) :
    Except (RowSinkError ε) Accepted × ClickHouseSink R τ :=
  let accepted := Written.of rows 0
  match D.postIfDue nowNs { s with held := s.held.take rows nowNs } with
  | (.error e, s) => (.error e, s)
  | (.ok landed, s) => (.ok ⟨accepted, landed.objects, landed.bytesPosted⟩, s)

def flush (_nowNs : ℕ) (s : ClickHouseSink R τ) :
    Except (RowSinkError ε) Landed × ClickHouseSink R τ :=
  D.posted s

end Destination

/-! ## What has been acknowledged -/

/-- The body of a grain that a request landed. -/
def Event.landed (g : Grain) : Event → Option Body
  | .sent grain _ body (.ok _) => if grain = g then some body else none
  | _ => none

/-- The bodies of a grain that have landed, in the order of their answers. -/
def acked (g : Grain) (events : List Event) : List Body := events.filterMap (Event.landed g)

@[simp] theorem acked_nil (g : Grain) : acked g [] = [] := rfl

theorem acked_append (g : Grain) (events events' : List Event) :
    acked g (events ++ events') = acked g events ++ acked g events' :=
  List.filterMap_append

@[simp] theorem acked_slept (g : Grain) (ms : ℕ) : acked g [.slept ms] = [] := rfl

@[simp] theorem acked_sent_ok (g : Grain) (url : String) (body : Body) (r : Response) :
    acked g [.sent g url body (.ok r)] = [body] := by
  simp [acked, Event.landed]

@[simp] theorem acked_sent_error (g g' : Grain) (url : String) (body : Body) (e : TransportError) :
    acked g [.sent g' url body (.error e)] = [] := rfl

namespace Destination

variable {ε τ : Type} (D : Destination R ε τ)

/-- A request that carries one of these bodies of a grain to the grain's own table. -/
def IsOf (g : Grain) (bodies : List Body) : Event → Prop
  | .sent grain url body _ => grain = g ∧ url = D.url g ∧ body ∈ bodies
  | .slept _ => True

/-- Between two states of a sink these were sent, all of one grain, and what is held is the same. -/
structure Tells (g : Grain) (bodies : List Body) (s s' : ClickHouseSink R τ)
    (events : List Event) : Prop where
  sent : s'.sent = s.sent ++ events
  held : s'.held = s.held
  only : ∀ e ∈ events, D.IsOf g bodies e

namespace Tells

variable {D} {g : Grain} {bodies : List Body} {s s' s'' : ClickHouseSink R τ} {events events' : List Event}

theorem refl (s : ClickHouseSink R τ) : D.Tells g bodies s s [] :=
  ⟨(List.append_nil _).symm, rfl, fun _ h ↦ absurd h List.not_mem_nil⟩

theorem trans (h : D.Tells g bodies s s' events) (h' : D.Tells g bodies s' s'' events') :
    D.Tells g bodies s s'' (events ++ events') where
  sent := by rw [h'.sent, h.sent, List.append_assoc]
  held := h'.held.trans h.held
  only e he := (List.mem_append.mp he).elim (h.only e) (h'.only e)

end Tells

section

variable (g : Grain) {bodies : List Body} (body : Body) (hbody : body ∈ bodies)
  (s : ClickHouseSink R τ)

include hbody

theorem attempt_tells : D.Tells g bodies s (D.attempt g body s).2
    [.sent g (D.url g) body (D.attempt g body s).1] where
  sent := rfl
  held := rfl
  only e he := by
    rw [List.mem_singleton.mp he]
    exact ⟨rfl, rfl, hbody⟩

/-- A body is settled by exactly one landing, its first attempt's among them. -/
theorem settle_spec (left backoff : ℕ) (first : Answer) (s : ClickHouseSink R τ) :
    ∃ events, D.Tells g bodies s (D.settle g body left backoff first s).2 events ∧
      ((D.settle g body left backoff first s).1 = .ok () →
        acked g [.sent g (D.url g) body first] ++ acked g events = [body]) := by
  induction left generalizing backoff first s with
  | zero =>
      cases first with
      | ok r => exact ⟨[], Tells.refl s, fun _ ↦ by simp⟩
      | error e => exact ⟨[], ⟨(List.append_nil _).symm, rfl, by simp⟩, fun h ↦ nomatch h⟩
  | succ left ih =>
      cases first with
      | ok r => exact ⟨[], Tells.refl s, fun _ ↦ by simp⟩
      | error e =>
          rw [settle]
          split
          next =>
              have hslept : D.Tells g bodies s { failed g e s with sent := s.sent ++ [.slept backoff] }
                  [.slept backoff] :=
                ⟨rfl, rfl, fun e he ↦ by rw [List.mem_singleton.mp he]; trivial⟩
              obtain ⟨events, htells, hacked⟩ := ih (min (backoff * 2) MAX_BACKOFF)
                (D.attempt g body { failed g e s with sent := s.sent ++ [.slept backoff] }).1
                (D.attempt g body { failed g e s with sent := s.sent ++ [.slept backoff] }).2
              refine ⟨_, (hslept.trans (D.attempt_tells g body hbody _)).trans htells, fun h ↦ ?_⟩
              rw [acked_append, acked_append, acked_slept, acked_sent_error, List.nil_append,
                List.nil_append]
              exact hacked h
          next => exact ⟨[], ⟨(List.append_nil _).symm, rfl, by simp⟩, fun h ↦ nomatch h⟩

theorem send_spec : ∃ events, D.Tells g bodies s (D.send g body s).2 events ∧
    ((D.send g body s).1 = .ok () → acked g events = [body]) := by
  obtain ⟨events, htells, hacked⟩ := D.settle_spec g body hbody (D.config.attempts - 1) FIRST_BACKOFF
    (D.attempt g body s).1 (D.attempt g body s).2
  refine ⟨_, (D.attempt_tells g body hbody s).trans htells, fun h ↦ ?_⟩
  rw [acked_append]
  exact hacked h

end

section

variable (g : Grain) {bodies : List Body} (objects : List ObjectId)

theorem sendAll_spec (todo : List Body) (hsub : todo ⊆ bodies) (s : ClickHouseSink R τ) :
    ∃ events, D.Tells g bodies s (D.sendAll g objects todo s).2 events ∧
      ∀ bytes, (D.sendAll g objects todo s).1 = .ok bytes → acked g events = todo := by
  induction todo generalizing s with
  | nil => exact ⟨[], Tells.refl s, fun _ _ ↦ rfl⟩
  | cons body todo ih =>
      obtain ⟨hbody, hsub⟩ := List.cons_subset.mp hsub
      obtain ⟨events, htells, hacked⟩ := D.send_spec g body hbody s
      rw [sendAll]
      generalize D.send g body s = sent at htells hacked
      obtain ⟨e | ⟨⟨⟩⟩, s'⟩ := sent
      · exact ⟨events, htells, fun _ h ↦ nomatch h⟩
      · obtain ⟨rest, hrest, hackedRest⟩ := ih hsub s'
        dsimp only
        generalize D.sendAll g objects todo s' = sent at hrest hackedRest
        obtain ⟨e | bytes, s''⟩ := sent
        · exact ⟨_, htells.trans hrest, fun _ h ↦ nomatch h⟩
        · refine ⟨_, htells.trans hrest, fun _ _ ↦ ?_⟩
          rw [acked_append, hacked rfl, hackedRest bytes rfl, List.singleton_append]

/-- The requests of bodies that were sent together. -/
def together (firsts : List (Body × Answer)) : List Event :=
  firsts.map fun x ↦ .sent g (D.url g) x.1 x.2

theorem settleAll_spec (firsts : List (Body × Answer)) (hsub : ∀ x ∈ firsts, x.1 ∈ bodies)
    (s : ClickHouseSink R τ) :
    ∃ events, D.Tells g bodies s (D.settleAll g objects firsts s).2 events ∧
      ∀ bytes, (D.settleAll g objects firsts s).1 = .ok bytes →
        (acked g (D.together g firsts) ++ acked g events).Perm (firsts.map Prod.fst) := by
  induction firsts generalizing s with
  | nil => exact ⟨[], Tells.refl s, fun _ _ ↦ List.Perm.refl _⟩
  | cons x firsts ih =>
      obtain ⟨body, first⟩ := x
      obtain ⟨hbody, hsub⟩ := List.forall_mem_cons.mp hsub
      obtain ⟨events, htells, hacked⟩ :=
        D.settle_spec g body hbody (D.config.attempts - 1) FIRST_BACKOFF first s
      rw [settleAll]
      generalize D.settle g body (D.config.attempts - 1) FIRST_BACKOFF first s = settled
        at htells hacked
      obtain ⟨e | ⟨⟨⟩⟩, s'⟩ := settled
      · exact ⟨events, htells, fun _ h ↦ nomatch h⟩
      · obtain ⟨rest, hrest, hackedRest⟩ := ih hsub s'
        dsimp only
        generalize D.settleAll g objects firsts s' = settled at hrest hackedRest
        obtain ⟨e | bytes, s''⟩ := settled
        · exact ⟨_, htells.trans hrest, fun _ h ↦ nomatch h⟩
        · refine ⟨_, htells.trans hrest, fun _ _ ↦ ?_⟩
          have hcons : D.together g ((body, first) :: firsts) =
              [.sent g (D.url g) body first] ++ D.together g firsts := rfl
          rw [hcons, acked_append, acked_append, List.append_assoc]
          refine ((List.perm_append_comm_assoc (acked g (D.together g firsts)) (acked g events)
            (acked g rest)).append_left (acked g [.sent g (D.url g) body first])).trans ?_
          rw [← List.append_assoc, hacked rfl]
          exact (hackedRest bytes rfl).cons body

theorem attemptAll_tells (todo : List Body) (hsub : todo ⊆ bodies) (s : ClickHouseSink R τ) :
    D.Tells g bodies s (D.attemptAll g todo s).2
      (D.together g (todo.zip (D.attemptAll g todo s).1)) where
  sent := rfl
  held := rfl
  only e he := by
    obtain ⟨x, hx, rfl⟩ := List.mem_map.mp he
    exact ⟨rfl, rfl, hsub (List.of_mem_zip hx).1⟩

theorem sendChunks_spec (hall : D.transport.AnswersAll) (pieces : List (List Body))
    (hsub : ∀ piece ∈ pieces, piece ⊆ bodies) (s : ClickHouseSink R τ) :
    ∃ events, D.Tells g bodies s (D.sendChunks g objects pieces s).2 events ∧
      ∀ bytes, (D.sendChunks g objects pieces s).1 = .ok bytes →
        (acked g events).Perm pieces.flatten := by
  induction pieces generalizing s with
  | nil => exact ⟨[], Tells.refl s, fun _ _ ↦ List.Perm.refl _⟩
  | cons piece pieces ih =>
      obtain ⟨hpiece, hsub⟩ := List.forall_mem_cons.mp hsub
      have hfirsts := D.attemptAll_tells g piece hpiece s
      obtain ⟨events, htells, hacked⟩ := D.settleAll_spec g objects
        (piece.zip (D.attemptAll g piece s).1) (fun x hx ↦ hpiece (List.of_mem_zip hx).1)
        (D.attemptAll g piece s).2
      have hlength : (D.attemptAll g piece s).1.length = piece.length :=
        (hall _ _ _).trans (List.length_map _)
      rw [List.map_fst_zip hlength.ge] at hacked
      rw [sendChunks]
      generalize D.settleAll g objects (piece.zip (D.attemptAll g piece s).1)
        (D.attemptAll g piece s).2 = settled at htells hacked
      obtain ⟨e | bytes, s'⟩ := settled
      · exact ⟨_, hfirsts.trans htells, fun _ h ↦ nomatch h⟩
      · obtain ⟨rest, hrest, hackedRest⟩ := ih hsub s'
        dsimp only
        generalize D.sendChunks g objects pieces s' = sent at hrest hackedRest
        obtain ⟨e | more, s''⟩ := sent
        · exact ⟨_, (hfirsts.trans htells).trans hrest, fun _ h ↦ nomatch h⟩
        · refine ⟨_, (hfirsts.trans htells).trans hrest, fun _ _ ↦ ?_⟩
          rw [acked_append, acked_append, List.flatten_cons]
          exact (hacked bytes rfl).append (hackedRest more rfl)

end

/-- Every body of the rows has landed, once. -/
def Complete (g : Grain) (rows : List (R g)) (events : List Event) : Prop :=
  ∃ bodies, D.bodies g rows = .ok bodies ∧ (acked g events).Perm bodies

theorem Complete.of_acked {D : Destination R ε τ} {g : Grain} {rows : List (R g)}
    {events events' : List Event} (h : D.Complete g rows events)
    (heq : acked g events' = acked g events) : D.Complete g rows events' := by
  obtain ⟨bodies, hbodies, hperm⟩ := h
  exact ⟨bodies, hbodies, heq ▸ hperm⟩

/-- A request for one of the bodies of a grain's rows. -/
def Carried (rows : (g : Grain) → List (R g)) (g : Grain) (e : Event) : Prop :=
  ∃ bodies, D.bodies g (rows g) = .ok bodies ∧ D.IsOf g bodies e

/-- A grain that is written has each of its bodies landed once. -/
theorem writeGrain_spec (hall : D.transport.AnswersAll) (rows : RowBatch R)
    (objects : List ObjectId) (g : Grain) (s : ClickHouseSink R τ) :
    ∃ events, (D.writeGrain g (rows.of g) objects s).2.sent = s.sent ++ events ∧
      (D.writeGrain g (rows.of g) objects s).2.held = s.held ∧
      (∀ e ∈ events, D.Carried rows.of g e) ∧
      ∀ bytes, (D.writeGrain g (rows.of g) objects s).1 = .ok bytes →
        D.Complete g (rows.of g) events := by
  rw [writeGrain]
  cases hbodies : D.bodies g (rows.of g) with
  | error e => exact ⟨[], (List.append_nil _).symm, rfl, by simp, fun _ h ↦ nomatch h⟩
  | ok bodies =>
      dsimp only
      split
      next =>
          obtain ⟨events, htells, hacked⟩ :=
            D.sendAll_spec g objects bodies (List.Subset.refl bodies) s
          exact ⟨events, htells.sent, htells.held, fun e he ↦ ⟨bodies, hbodies, htells.only e he⟩,
            fun bytes h ↦ ⟨bodies, hbodies, .of_eq (hacked bytes h)⟩⟩
      next hmany =>
          have hflat := flatten_chunks (n := D.transport.concurrency) (by omega) bodies
          obtain ⟨events, htells, hacked⟩ := D.sendChunks_spec g objects hall
            (chunks D.transport.concurrency bodies)
            (fun piece hpiece body hbody ↦
              hflat ▸ List.mem_flatten.mpr ⟨piece, hpiece, hbody⟩) s
          rw [hflat] at hacked
          exact ⟨events, htells.sent, htells.held, fun e he ↦ ⟨bodies, hbodies, htells.only e he⟩,
            fun bytes h ↦ ⟨bodies, hbodies, hacked bytes h⟩⟩

/-- Nothing of another grain lands. -/
theorem Carried.landed_of_ne {rows : (g : Grain) → List (R g)} {g g' : Grain} {e : Event}
    (h : D.Carried rows g e) (hne : g ≠ g') : e.landed g' = none := by
  obtain ⟨bodies, -, hof⟩ := h
  cases e with
  | slept => rfl
  | sent grain url body answer =>
      cases answer with
      | error => rfl
      | ok r =>
          obtain ⟨rfl, -, -⟩ := hof
          exact if_neg hne

theorem Carried.acked_of_ne {rows : (g : Grain) → List (R g)} {g g' : Grain} {events : List Event}
    (h : ∀ e ∈ events, D.Carried rows g e) (hne : g ≠ g') : acked g' events = [] :=
  List.filterMap_eq_nil_iff.mpr fun e he ↦ (h e he).landed_of_ne D hne

/-! ## Grain by grain -/

/-- Nothing of a grain is sent before everything of the grains ahead of it has landed. -/
def InTurn (rows : (g : Grain) → List (R g)) (grains : List Grain) (events : List Event) : Prop :=
  ∀ before g url body answer after, events = before ++ .sent g url body answer :: after →
    ∀ g', [g', g].Sublist grains → D.Complete g' (rows g') before

/-- The grains are written in turn, each with all of its bodies landed before the next is begun. -/
theorem writeGrains_spec (hall : D.transport.AnswersAll) (rows : RowBatch R)
    (objects : List ObjectId) (grains : List Grain) (hnodup : grains.Nodup)
    (s : ClickHouseSink R τ) :
    ∃ events, (D.writeGrains rows objects grains s).2.sent = s.sent ++ events ∧
      (D.writeGrains rows objects grains s).2.held = s.held ∧
      (∀ e ∈ events, ∃ g ∈ grains, D.Carried rows.of g e) ∧ D.InTurn rows.of grains events ∧
      ∀ bytes, (D.writeGrains rows objects grains s).1 = .ok bytes →
        ∀ g ∈ grains, D.Complete g (rows.of g) events := by
  induction grains generalizing s with
  | nil =>
      refine ⟨[], (List.append_nil _).symm, rfl, by simp, ?_, by simp⟩
      exact fun before g url body answer after h ↦ absurd h (by simp)
  | cons g grains ih =>
      obtain ⟨hnotin, hnodup⟩ := List.nodup_cons.mp hnodup
      obtain ⟨events, hsent, hheld, hcarried, hcomplete⟩ :=
        D.writeGrain_spec hall rows objects g s
      -- what is sent of the first grain has no grain ahead of it
      have hfirst : D.InTurn rows.of (g :: grains) events := by
        rintro before g₁ url body answer after rfl g' hsub
        obtain ⟨bodies, -, rfl, -, -⟩ := hcarried (.sent g₁ url body answer) (by simp)
        rcases List.sublist_cons_iff.mp hsub with hsub | ⟨r, hr, hsub⟩
        · exact absurd (hsub.subset (by simp)) hnotin
        · obtain ⟨rfl, rfl⟩ := List.cons.inj hr
          exact absurd (hsub.subset (List.mem_singleton_self _)) hnotin
      have hof : ∀ e ∈ events, ∃ g' ∈ g :: grains, D.Carried rows.of g' e :=
        fun e he ↦ ⟨g, List.mem_cons_self, hcarried e he⟩
      rw [writeGrains]
      generalize D.writeGrain g (rows.of g) objects s = wrote at hsent hheld hcomplete
      obtain ⟨e | bytes, s'⟩ := wrote
      · exact ⟨events, hsent, hheld, hof, hfirst, fun _ h ↦ nomatch h⟩
      · obtain ⟨rest, hsent', hheld', hcarried', hturn, hcomplete'⟩ := ih hnodup s'
        have hdone := hcomplete bytes rfl
        have hsents : (D.writeGrains rows objects grains s').2.sent = s.sent ++ (events ++ rest) := by
          rw [hsent', hsent, List.append_assoc]
        have hofs : ∀ e ∈ events ++ rest, ∃ g' ∈ g :: grains, D.Carried rows.of g' e := by
          intro e he
          rcases List.mem_append.mp he with he | he
          · exact hof e he
          · obtain ⟨g', hg', hc⟩ := hcarried' e he
            exact ⟨g', List.mem_cons_of_mem g hg', hc⟩
        -- what has landed of a grain is what its own part has landed
        have hother {g' : Grain} (hg' : g' ∈ grains) : acked g' events = [] :=
          Carried.acked_of_ne D hcarried fun heq ↦ hnotin (heq ▸ hg')
        have hown {more : List Event} (hmore : more ⊆ rest) : acked g more = [] :=
          List.filterMap_eq_nil_iff.mpr fun e he ↦ by
            obtain ⟨g', hg', hc⟩ := hcarried' e (hmore he)
            exact hc.landed_of_ne D fun heq ↦ hnotin (heq ▸ hg')
        have hlater {more after : List Event} {g₁ g' : Grain} {url : String} {body : Body}
            {answer : Answer} (heq : more ++ .sent g₁ url body answer :: after = rest)
            (hsub : [g', g₁].Sublist (g :: grains)) :
            D.Complete g' (rows.of g') (events ++ more) := by
          have hmore : more ⊆ rest := heq ▸ List.subset_append_left _ _
          rcases List.sublist_cons_iff.mp hsub with hsub | ⟨r, hr, -⟩
          · refine (hturn more g₁ url body answer after heq.symm g' hsub).of_acked ?_
            rw [acked_append, hother (hsub.subset List.mem_cons_self), List.nil_append]
          · obtain ⟨rfl, -⟩ := List.cons.inj hr
            refine hdone.of_acked ?_
            rw [acked_append, hown hmore, List.append_nil]
        have hturns : D.InTurn rows.of (g :: grains) (events ++ rest) := by
          intro before g₁ url body answer after heq g' hsub
          obtain ⟨more, rfl, hrest⟩ | ⟨part, rfl, hpart⟩ := List.append_eq_append_iff.mp heq
          · exact hlater hrest.symm hsub
          · cases part with
            | nil =>
                have hnow := hlater (show [] ++ _ = rest from hpart) hsub
                rwa [List.append_nil, List.append_nil] at hnow
            | cons e part =>
                obtain ⟨rfl, -⟩ := List.cons.inj hpart
                exact hfirst before g₁ url body answer part rfl g' hsub
        dsimp only
        generalize D.writeGrains rows objects grains s' = wrote at hsents hheld' hcomplete'
        obtain ⟨e | more, s''⟩ := wrote
        · exact ⟨_, hsents, hheld'.trans hheld, hofs, hturns, fun _ h ↦ nomatch h⟩
        · refine ⟨_, hsents, hheld'.trans hheld, hofs, hturns, fun _ _ g' hg' ↦ ?_⟩
          rcases List.mem_cons.mp hg' with rfl | hg'
          · refine hdone.of_acked ?_
            rw [acked_append, hown (List.Subset.refl rest), List.append_nil]
          · refine (hcomplete' more rfl g' hg').of_acked ?_
            rw [acked_append, hother hg', List.nil_append]

/-! ## The split -/

/-- What a body holds of a grain's rows, and that it is within the bounds unless it is one row. -/
structure Fills (g : Grain) (group : List (R g)) (body : Body) : Prop where
  lines : ∃ lines, group.mapM (D.encode g) = .ok lines ∧ body.bytes = lines.flatMap (· ++ [10])
  rows : body.rows = group.length
  fits : group.length ≤ 1 ∨
    (body.rows ≤ D.config.insertMaxRows ∧ body.bytes.length ≤ D.config.insertMaxBytes)

namespace Fills

variable {D} {g : Grain} {group : List (R g)} {body : Body} {row : R g} {line : List Byte}

theorem empty : D.Fills g [] {} := ⟨⟨[], rfl, rfl⟩, rfl, .inl (Nat.zero_le 1)⟩

theorem add (h : D.Fills g group body) (hline : D.encode g row = .ok line)
    (hroom : D.full body line = false) : D.Fills g (group ++ [row]) (body.add line) where
  lines := by
    obtain ⟨lines, hlines, hbytes⟩ := h.lines
    refine ⟨lines ++ [line], ?_, ?_⟩
    · rw [List.mapM_append, hlines]
      simp [hline]
      rfl
    · simp [Body.add, hbytes]
  rows := by simp [Body.add, h.rows]
  fits := by
    simp only [full, Bool.and_eq_false_iff, decide_eq_false_iff_not, Bool.or_eq_false_iff] at hroom
    rcases hroom with hnone | ⟨hrows, hbytes⟩
    · refine .inl ?_
      rw [List.length_append, ← h.rows]
      simpa using hnone
    · refine .inr ⟨?_, ?_⟩
      · dsimp only [Body.add]
        omega
      · simp only [Body.add, List.length_append, List.length_singleton]
        omega

end Fills

/-- The rows of a grain are split into pieces, in order, and each body holds its piece. -/
theorem bodiesFrom_spec {g : Grain} (rows : List (R g)) {begun : List (R g)} {current : Body}
    {bodies : List Body} (hbegun : D.Fills g begun current)
    (h : D.bodiesFrom g current rows = .ok bodies) :
    ∃ groups : List (List (R g)), groups.flatten = begun ++ rows ∧
      List.Forall₂ (fun group body ↦ group ≠ [] ∧ D.Fills g group body) groups bodies := by
  induction rows generalizing begun current bodies with
  | nil =>
      rw [bodiesFrom] at h
      obtain rfl := Except.ok.inj h
      split
      next hrows =>
          refine ⟨[begun], by simp, .cons ⟨fun hnil ↦ ?_, hbegun⟩ .nil⟩
          rw [hbegun.rows, hnil] at hrows
          exact absurd hrows (Nat.lt_irrefl 0)
      next hrows =>
          have hnil : begun = [] := List.length_eq_zero_iff.mp (by rw [← hbegun.rows]; omega)
          exact ⟨[], by simp [hnil], .nil⟩
  | cons row rows ih =>
      rw [bodiesFrom] at h
      cases hline : D.encode g row with
      | error source =>
          rw [hline] at h
          cases h
      | ok line =>
          rw [hline] at h
          dsimp only at h
          split at h
          next hfull =>
              cases hrest : D.bodiesFrom g (Body.add {} line) rows with
              | error e =>
                  rw [hrest] at h
                  cases h
              | ok rest =>
                  rw [hrest] at h
                  obtain rfl := Except.ok.inj h
                  obtain ⟨groups, hflat, hfills⟩ := ih (Fills.empty.add hline rfl) hrest
                  refine ⟨begun :: groups, by rw [List.flatten_cons, hflat]; rfl,
                    .cons ⟨fun hnil ↦ ?_, hbegun⟩ hfills⟩
                  have hsome := (Bool.and_eq_true_iff.mp hfull).1
                  rw [hbegun.rows, hnil] at hsome
                  cases hsome
          next hroom =>
              obtain ⟨groups, hflat, hfills⟩ := ih (hbegun.add hline (by simpa using hroom)) h
              exact ⟨groups, by rw [hflat, List.append_assoc]; rfl, hfills⟩

theorem bodies_spec {g : Grain} {rows : List (R g)} {bodies : List Body}
    (h : D.bodies g rows = .ok bodies) :
    ∃ groups : List (List (R g)), groups.flatten = rows ∧
      List.Forall₂ (fun group body ↦ group ≠ [] ∧ D.Fills g group body) groups bodies :=
  D.bodiesFrom_spec rows Fills.empty h

end Destination

/-! ## What is held belongs to what was handed over -/

/-- The rows of several batches, grain by grain. -/
def rowsOf (batches : List (RowBatch R)) (g : Grain) : List (R g) := batches.flatMap (·.of g)

/-- A buffer that holds these batches, and nothing else. -/
structure Held.Of (h : Held R) (batches : List (RowBatch R)) : Prop where
  nodup : h.objects.Nodup
  mem_objects : ∀ id, id ∈ h.objects ↔ id ∈ batches.map RowBatch.id
  rows : h.rows.of = rowsOf batches

namespace Held.Of

variable {h : Held R} {batches : List (RowBatch R)}

theorem empty : ({} : Held R).Of [] where
  nodup := List.nodup_nil
  mem_objects _ := Iff.rfl
  rows := funext fun g ↦ by cases g <;> rfl

theorem take (hof : h.Of batches) (batch : RowBatch R) (nowNs : ℕ) :
    (h.take batch nowNs).Of (batches ++ [batch]) where
  nodup := by
    dsimp only [Held.take]
    split
    next => exact hof.nodup
    next hnew => exact List.nodup_append.mpr ⟨hof.nodup, List.nodup_singleton _,
      fun id hid id' hid' heq ↦ hnew (by rwa [← List.mem_singleton.mp hid', ← heq])⟩
  mem_objects id := by
    rw [List.map_append, List.mem_append, ← hof.mem_objects]
    dsimp only [Held.take]
    split
    next hthere =>
        simp only [List.map_cons, List.map_nil, List.mem_singleton]
        exact ⟨.inl, fun h' ↦ h'.elim (fun h'' ↦ h'') fun heq ↦ heq ▸ hthere⟩
    next => rw [List.mem_append]; rfl
  rows := funext fun g ↦ by
    rw [Held.of_take, hof.rows]
    simp [rowsOf]

theorem isEmpty_iff (hof : h.Of batches) : h.isEmpty = true ↔ batches = [] := by
  rw [Held.isEmpty, List.isEmpty_iff, List.eq_nil_iff_forall_not_mem]
  constructor
  · intro hnone
    cases batches with
    | nil => rfl
    | cons b batches => exact absurd ((hof.mem_objects b.id).mpr (by simp)) (hnone b.id)
  · rintro rfl id hid
    simpa using (hof.mem_objects id).mp hid

end Held.Of

/-! ## Calls -/

inductive Call (R : Grain → Type) where
  | writeBatch (rows : RowBatch R) (nowNs : ℕ)
  | postIfDue (nowNs : ℕ)
  | flush (nowNs : ℕ)

/-- What a call hands over. -/
def Call.batches : Call R → List (RowBatch R)
  | .writeBatch rows _ => [rows]
  | .postIfDue _ | .flush _ => []

/-- A call, the objects it reported landed or why it failed, and what it sent. -/
structure Record (R : Grain → Type) (ε : Type) where
  call : Call R
  outcome : Except (RowSinkError ε) (List ObjectId)
  events : List Event

namespace Record

variable {ε : Type}

def landed (r : Record R ε) : List ObjectId := r.outcome.toOption.getD []

/-- Whether a call left nothing of what was handed over in the sink. -/
def settles (r : Record R ε) : Bool :=
  match r.outcome with
  | .ok landed => !landed.isEmpty
  | .error _ => true

end Record

/-- The batches handed over since the last call that landed or lost what was held. -/
def pending {ε : Type} (records : List (Record R ε)) : List (RowBatch R) :=
  records.foldl (fun held r ↦ if r.settles then [] else held ++ r.call.batches) []

/-- Once, if an object is among those handed over. -/
def among (id : ObjectId) (batches : List (RowBatch R)) : ℕ :=
  if id ∈ batches.map RowBatch.id then 1 else 0

theorem among_append_le (id : ObjectId) (batches batches' : List (RowBatch R)) :
    among id (batches ++ batches') ≤ among id batches + (batches'.map RowBatch.id).count id := by
  simp only [among, List.map_append, List.mem_append]
  by_cases hnew : id ∈ batches'.map RowBatch.id
  · have hpos := List.count_pos_iff.mpr hnew
    split <;> omega
  · simp only [hnew, or_false]
    omega

/-- How often an object was handed over. -/
def handovers {ε : Type} (id : ObjectId) (records : List (Record R ε)) : ℕ :=
  (records.flatMap fun r ↦ r.call.batches.map RowBatch.id).count id

/-- How often an object was reported landed. -/
def landings {ε : Type} (id : ObjectId) (records : List (Record R ε)) : ℕ :=
  (records.flatMap Record.landed).count id

/-- A sink and the record of its calls. -/
structure Trace (R : Grain → Type) (ε τ : Type) where
  sink : ClickHouseSink R τ
  records : List (Record R ε) := []

namespace Destination

variable {ε τ : Type} (D : Destination R ε τ)

def call (c : Call R) (s : ClickHouseSink R τ) :
    Except (RowSinkError ε) (List ObjectId) × ClickHouseSink R τ :=
  match c with
  | .writeBatch rows nowNs =>
      ((D.writeBatch rows nowNs s).1.map Accepted.landed, (D.writeBatch rows nowNs s).2)
  | .postIfDue nowNs =>
      ((D.postIfDue nowNs s).1.map Landed.objects, (D.postIfDue nowNs s).2)
  | .flush nowNs => ((D.flush nowNs s).1.map Landed.objects, (D.flush nowNs s).2)

/-- One call, with what it sends on a record of its own. -/
def step (t : Trace R ε τ) (c : Call R) : Trace R ε τ :=
  let called := D.call c { t.sink with sent := [] }
  ⟨called.2, t.records ++ [⟨c, called.1, called.2.sent⟩]⟩

/-- What a call made of the batches that the sink then had: it held them and sent nothing, or it sent
them, and landed them all or holds nothing. -/
inductive Outcome (batches : List (RowBatch R)) :
    Except (RowSinkError ε) (List ObjectId) → List Event → Held R → Prop
  | kept {held : Held R} (hof : held.Of batches) : Outcome batches (.ok []) [] held
  | landed {objects : List ObjectId} {events : List Event} (hsome : batches ≠ [])
      (hnodup : objects.Nodup) (hmem : ∀ id, id ∈ objects ↔ id ∈ batches.map RowBatch.id)
      (hcarried : ∀ e ∈ events, ∃ g, D.Carried (rowsOf batches) g e)
      (hturn : D.InTurn (rowsOf batches) sendOrder events)
      (hcomplete : ∀ g, D.Complete g (rowsOf batches g) events) :
      Outcome batches (.ok objects) events {}
  | lost {e : RowSinkError ε} {events : List Event}
      (hcarried : ∀ e ∈ events, ∃ g, D.Carried (rowsOf batches) g e)
      (hturn : D.InTurn (rowsOf batches) sendOrder events) :
      Outcome batches (.error e) events {}

theorem post_spec (hall : D.transport.AnswersAll) {batches : List (RowBatch R)}
    {s : ClickHouseSink R τ} (hof : s.held.Of batches) (hsent : s.sent = []) :
    D.Outcome batches ((D.post s).1.map Landed.objects) (D.post s).2.sent (D.post s).2.held := by
  rw [post]
  split
  next hempty =>
      dsimp only
      rw [hsent]
      exact .kept hof
  next hsome =>
      obtain ⟨events, hevents, hheld, hcarried, hturn, hcomplete⟩ := D.writeGrains_spec hall
        s.held.rows s.held.objects sendOrder nodup_sendOrder { s with held := {} }
      rw [hof.rows] at hcarried hturn hcomplete
      have hcarried' : ∀ e ∈ events, ∃ g, D.Carried (rowsOf batches) g e := fun e he ↦
        have ⟨g, _, hc⟩ := hcarried e he
        ⟨g, hc⟩
      have hevents' := hevents.trans
        (show s.sent ++ events = events by rw [hsent, List.nil_append])
      generalize D.writeGrains s.held.rows s.held.objects sendOrder { s with held := {} } = wrote
        at hevents' hheld hcomplete
      obtain ⟨e | bytes, s'⟩ := wrote
      · dsimp only at hevents' hheld ⊢
        rw [hevents', hheld]
        exact .lost hcarried' hturn
      · dsimp only at hevents' hheld ⊢
        rw [hevents', hheld]
        exact .landed (fun hnil ↦ hsome (hof.isEmpty_iff.mpr hnil)) hof.nodup hof.mem_objects
          hcarried' hturn fun g ↦ hcomplete bytes rfl g (mem_sendOrder g)

theorem posted_spec (hall : D.transport.AnswersAll) {batches : List (RowBatch R)}
    {s : ClickHouseSink R τ} (hof : s.held.Of batches) (hsent : s.sent = []) :
    D.Outcome batches ((D.posted s).1.map Landed.objects) (D.posted s).2.sent
      (D.posted s).2.held := by
  have h := D.post_spec hall hof hsent
  rw [posted]
  generalize D.post s = r at h
  obtain ⟨e | landed, s'⟩ := r
  · exact h
  · exact h

theorem postIfDue_spec (hall : D.transport.AnswersAll) {batches : List (RowBatch R)}
    {s : ClickHouseSink R τ} (hof : s.held.Of batches) (hsent : s.sent = []) (nowNs : ℕ) :
    D.Outcome batches ((D.postIfDue nowNs s).1.map Landed.objects) (D.postIfDue nowNs s).2.sent
      (D.postIfDue nowNs s).2.held := by
  rw [postIfDue]
  split
  next => exact D.posted_spec hall hof hsent
  next =>
      dsimp only
      rw [hsent]
      exact .kept hof

theorem call_spec (hall : D.transport.AnswersAll) {batches : List (RowBatch R)}
    {s : ClickHouseSink R τ} (hof : s.held.Of batches) (hsent : s.sent = []) (c : Call R) :
    D.Outcome (batches ++ c.batches) (D.call c s).1 (D.call c s).2.sent (D.call c s).2.held := by
  cases c with
  | writeBatch rows nowNs =>
      have h := D.postIfDue_spec hall (s := { s with held := s.held.take rows nowNs })
        (hof.take rows nowNs) hsent nowNs
      dsimp only [call, writeBatch]
      generalize D.postIfDue nowNs { s with held := s.held.take rows nowNs } = posted at h
      obtain ⟨e | landed, s'⟩ := posted
      · exact h
      · exact h
  | postIfDue nowNs =>
      rw [Call.batches, List.append_nil]
      exact D.postIfDue_spec hall hof hsent nowNs
  | flush nowNs =>
      rw [Call.batches, List.append_nil]
      exact D.posted_spec hall hof hsent

/-! ## Runs -/

/-- The record of one more call. -/
def next (t : Trace R ε τ) (c : Call R) : Record R ε :=
  ⟨c, (D.call c { t.sink with sent := [] }).1, (D.call c { t.sink with sent := [] }).2.sent⟩

theorem step_records (t : Trace R ε τ) (c : Call R) :
    (D.step t c).records = t.records ++ [D.next t c] := rfl

end Destination

section

variable {ε : Type} (records : List (Record R ε)) (r : Record R ε)

theorem pending_concat : pending (records ++ [r]) =
    if r.settles then [] else pending records ++ r.call.batches := by
  rw [pending, List.foldl_concat]
  rfl

theorem handovers_concat (id : ObjectId) : handovers id (records ++ [r]) =
    handovers id records + (r.call.batches.map RowBatch.id).count id := by
  simp [handovers]

theorem landings_concat (id : ObjectId) : landings id (records ++ [r]) =
    landings id records + r.landed.count id := by
  simp [landings]

end

namespace Destination

variable {ε τ : Type} (D : Destination R ε τ)

/-- A call that settles leaves nothing pending, and reports each object once that was. -/
theorem Outcome.settled {D : Destination R ε τ} {batches : List (RowBatch R)} {held : Held R}
    {r : Record R ε} (h : D.Outcome batches r.outcome r.events held) :
    held.Of (if r.settles then [] else batches) ∧
      ∀ id, r.landed.count id + among id (if r.settles then [] else batches) ≤ among id batches := by
  obtain ⟨c, outcome, events⟩ := r
  dsimp only at h
  cases h with
  | kept hof => exact ⟨hof, fun id ↦ by simp [Record.landed, Record.settles, Except.toOption]⟩
  | @landed objects _ hsome hnodup hmem =>
      have hobjects : objects ≠ [] := by
        obtain ⟨b, batches, rfl⟩ := List.exists_cons_of_ne_nil hsome
        exact List.ne_nil_of_mem ((hmem b.id).mpr (by simp))
      have hsettles : Record.settles (⟨c, .ok objects, events⟩ : Record R ε) = true := by
        simp [Record.settles, hobjects]
      rw [hsettles]
      refine ⟨Held.Of.empty, fun id ↦ ?_⟩
      have hcount : objects.count id = among id batches := by
        rw [hnodup.count, among]
        exact if_congr (hmem id) rfl rfl
      exact hcount.le
  | lost => exact ⟨Held.Of.empty, fun id ↦ Nat.zero_le _⟩

/-- What a run of calls keeps: the sink holds what is pending, and an object has been handed over
for each time it was reported landed, and once more while it is pending. -/
structure Sound (t : Trace R ε τ) : Prop where
  held : t.sink.held.Of (pending t.records)
  counted : ∀ id, landings id t.records + among id (pending t.records) ≤ handovers id t.records

namespace Sound

variable {D} {t : Trace R ε τ}

theorem start (s : τ) : Sound (⟨{ transport := s }, []⟩ : Trace R ε τ) where
  held := Held.Of.empty
  counted _ := Nat.le_refl 0

theorem outcome (h : Sound t) (hall : D.transport.AnswersAll) (c : Call R) :
    D.Outcome (pending t.records ++ c.batches) (D.next t c).outcome (D.next t c).events
      (D.step t c).sink.held :=
  D.call_spec hall (s := { t.sink with sent := [] }) h.held rfl c

theorem step (h : Sound t) (hall : D.transport.AnswersAll) (c : Call R) :
    Sound (D.step t c) := by
  obtain ⟨hheld, hcount⟩ := (h.outcome hall c).settled
  have hpending : pending (D.step t c).records =
      if (D.next t c).settles then [] else pending t.records ++ c.batches :=
    pending_concat t.records (D.next t c)
  refine ⟨hpending ▸ hheld, fun id ↦ ?_⟩
  have hbefore := h.counted id
  have hnow := hcount id
  have hnew := among_append_le id (pending t.records) c.batches
  rw [hpending, step_records, landings_concat, handovers_concat,
    show (D.next t c).call = c from rfl]
  omega

end Sound

theorem sound_run (hall : D.transport.AnswersAll) (start : τ) (calls : List (Call R)) :
    Sound (run D.step (⟨{ transport := start }, []⟩ : Trace R ε τ) calls) :=
  run_induction (P := Sound) calls (Sound.start start) fun _ c _ h ↦ h.step hall c

namespace Outcome

variable {D} {batches : List (RowBatch R)} {held : Held R} {r : Record R ε}

theorem carried (h : D.Outcome batches r.outcome r.events held) :
    ∀ e ∈ r.events, ∃ g, D.Carried (rowsOf batches) g e := by
  obtain ⟨c, outcome, events⟩ := r
  dsimp only at h ⊢
  cases h with
  | kept => exact fun e he ↦ absurd he List.not_mem_nil
  | landed _ _ _ hcarried => exact hcarried
  | lost hcarried => exact hcarried

theorem inTurn (h : D.Outcome batches r.outcome r.events held) :
    D.InTurn (rowsOf batches) sendOrder r.events := by
  obtain ⟨c, outcome, events⟩ := r
  dsimp only at h ⊢
  cases h with
  | kept => exact fun before g url body answer after heq ↦ absurd heq (by simp)
  | landed _ _ _ _ hturn => exact hturn
  | lost _ hturn => exact hturn

theorem credited (h : D.Outcome batches r.outcome r.events held) (hsome : r.landed ≠ []) :
    r.landed.Nodup ∧ (∀ id, id ∈ r.landed ↔ id ∈ batches.map RowBatch.id) ∧
      ∀ g, D.Complete g (rowsOf batches g) r.events := by
  obtain ⟨c, outcome, events⟩ := r
  dsimp only at h ⊢
  cases h with
  | kept => exact absurd rfl hsome
  | landed _ hnodup hmem _ _ hcomplete => exact ⟨hnodup, hmem, hcomplete⟩
  | lost => exact absurd rfl hsome

theorem held_of_error (h : D.Outcome batches r.outcome r.events held) {e : RowSinkError ε}
    (he : r.outcome = .error e) : held = {} := by
  obtain ⟨c, outcome, events⟩ := r
  dsimp only at h he
  cases h with
  | kept => cases he
  | landed => rfl
  | lost => rfl

end Outcome

/-- The credit of a sink, behind every run and for any call `c` that comes next.  With `batches` for
what was pending and what `c` hands over, and `r` for the record of `c`:

* what `c` reports landed is every object of the batches, each once, and then every body that the
  rows of the batches are split into has been answered Ok, once, in every grain;
* whatever `c` comes to, it sends bodies of these rows only, each to its own grain's table, and no
  body of a grain before all those of the earlier grains were answered Ok;
* if `c` fails, the sink holds nothing;
* an object has been reported landed no more often than it was handed over;
* a split leaves out, repeats and moves no row, and a body keeps the bounds or is a single row. -/
theorem credit_accounted (hall : D.transport.AnswersAll) (start : τ) (calls : List (Call R))
    (c : Call R) :
    let t := run D.step (⟨{ transport := start }, []⟩ : Trace R ε τ) calls
    let r := D.next t c
    let batches := pending t.records ++ c.batches
    (r.landed ≠ [] → r.landed.Nodup ∧ (∀ id, id ∈ r.landed ↔ ∃ b ∈ batches, b.id = id) ∧
      ∀ g, ∃ bodies, D.bodies g (rowsOf batches g) = .ok bodies ∧
        (acked g r.events).Perm bodies) ∧
    (∀ g url body answer, .sent g url body answer ∈ r.events →
      url = D.url g ∧ ∃ bodies, D.bodies g (rowsOf batches g) = .ok bodies ∧ body ∈ bodies) ∧
    (∀ before g url body answer after, r.events = before ++ .sent g url body answer :: after →
      ∀ earlier, [earlier, g].Sublist sendOrder →
        ∃ bodies, D.bodies earlier (rowsOf batches earlier) = .ok bodies ∧
          (acked earlier before).Perm bodies) ∧
    (∀ e, r.outcome = .error e → (D.step t c).sink.held = {}) ∧
    (∀ id, landings id (t.records ++ [r]) ≤ handovers id (t.records ++ [r])) ∧
    ∀ g rows bodies, D.bodies g rows = .ok bodies →
      ∃ groups : List (List (R g)), groups.flatten = rows ∧
        List.Forall₂ (fun group body ↦ group ≠ [] ∧ D.Fills g group body) groups bodies := by
  intro t r batches
  have hsound : Sound t := D.sound_run hall start calls
  have hout : D.Outcome batches r.outcome r.events (D.step t c).sink.held :=
    hsound.outcome hall c
  refine ⟨fun hsome ↦ ?_, fun g url body answer hmem ↦ ?_, hout.inTurn,
    fun e he ↦ hout.held_of_error he,
    fun id ↦ Nat.le_of_add_right_le ((hsound.step hall c).counted id),
    fun g rows bodies h ↦ D.bodies_spec h⟩
  · obtain ⟨hnodup, hmem, hcomplete⟩ := hout.credited hsome
    exact ⟨hnodup, fun id ↦ (hmem id).trans List.mem_map, hcomplete⟩
  · obtain ⟨g', bodies, hbodies, hg, hurl, hbody⟩ := hout.carried _ hmem
    subst hg
    exact ⟨hurl, bodies, hbodies, hbody⟩

end Destination

/-- A destination that is out of reach at every second request, for rows that are one byte each. -/
def faltering : Destination (fun _ ↦ Byte) Unit ℕ where
  config :=
    { insertMinRows := 2, insertMaxRows := 2, insertMaxBytes := 100, insertMaxDelayNs := 1000
      attempts := 3, insertUrl := fun table ↦ table }
  transport :=
    { post := fun n url _ ↦
        (if n % 2 = 0 then .error (.unreachable url "reset") else .ok ⟨200, ""⟩, n + 1)
      postAll := fun n _ bodies ↦ (bodies.map fun _ ↦ .ok ⟨200, ""⟩, n)
      concurrency := 1 }
  encode := fun _ b ↦ .ok [b]

def captured : RowBatch (fun _ ↦ Byte) :=
  { objectKey := "a", objectSha256 := "b", datagram := [49, 50, 51], era := [52] }

/-- Three rows in two bodies and a fourth in one, each sent twice, and the object has landed. -/
theorem credit_accounted_faltering :
    (faltering.next ⟨{ transport := 0 }, []⟩ (.writeBatch captured 5)).landed = [⟨"a", "b"⟩] ∧
      landings ⟨"a", "b"⟩
          ([faltering.next ⟨{ transport := 0 }, []⟩ (.writeBatch captured 5)]) ≤
        handovers ⟨"a", "b"⟩
          ([faltering.next ⟨{ transport := 0 }, []⟩ (.writeBatch captured 5)]) :=
  ⟨by decide, (faltering.credit_accounted (fun _ _ _ ↦ List.length_map _) 0 []
    (.writeBatch captured 5)).2.2.2.2.1 ⟨"a", "b"⟩⟩

end EdgeMulticast.Clickhouse
