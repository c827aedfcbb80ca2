import EdgeMulticast.Refdata.Definition
import EdgeMulticast.Uds.Record

/-!
# Adapters

`adapter.rs`, `sink.rs` and `error.rs` (`dz-adapter-core`): what a venue's adapter offers, and what
it makes of a payload.  What an adapter does is any state machine's doing.
-/

namespace EdgeMulticast.Venue

open EdgeMulticast.Lib
open EdgeMulticast.Lowering (Desync InstrumentRef)
open EdgeMulticast.Refdata (InstrumentSpec Strike)
open EdgeMulticast.Uds (Event)

/-- What an adapter asks of a listing sink, by the handles it is answered with. -/
inductive Poll (α : Type) where
  | done (adapter : α)
  | listOn (shard : String) (spec : InstrumentSpec) (next : Option InstrumentRef → Poll α)
  | delist (h : InstrumentRef) (next : Poll α)
  | strike (h : InstrumentRef) (stated : Strike) (next : Poll α)

/-- What an adapter tells an event sink. -/
inductive SinkCall where
  | upstreamMessage
  | upstreamIdentity (sid seq : Option UInt64)
  | payloadScope (recvTsNs : Option ℕ)
  | desynchronised (h : InstrumentRef) (reason : Desync)
  | event (e : Event)

structure Payload where
  bytes : List Byte
  recvTsNs : ℕ
  connection : ℕ

/-- Why a payload is refused. -/
inductive ParseError where
  | schema (detail : String)
  | unknownField (detail : String)
  | malformed (detail : String)
  | truncated (detail : String)
deriving DecidableEq, Repr

namespace ParseError

/-- The label that a refusal is counted under. -/
def asStr : ParseError → String
  | schema _ => "schema"
  | unknownField _ => "unknown_field"
  | malformed _ => "malformed"
  | truncated _ => "truncated"

def text : ParseError → String
  | schema detail => "unsupported upstream schema: " ++ detail
  | unknownField detail => "unknown upstream field: " ++ detail
  | malformed detail => "malformed upstream payload: " ++ detail
  | truncated detail => "truncated upstream payload: " ++ detail

end ParseError

/-- A venue's adapter: what it offers, and what it makes of a payload, with the reason if it refuses
it. -/
structure Adapter (α : Type) where
  pollListings : α → Poll α
  onPayload : α → Payload → List SinkCall × Option ParseError × α

end EdgeMulticast.Venue
