import EdgeMulticast.Lib.Reading
import EdgeMulticast.Lib.Text
import EdgeMulticast.Lowering.Depth

/-!
# Event records

The record encoding of `dz-adapter-uds`: one normalized event, length-delimited and versioned.  A
record names its instrument by the venue's symbol, and the reader resolves it against the handles it
holds.

A record is its length (four bytes), a version, a kind, and a body whose fields follow one another
without any padding.  `decode` reads the fields of one kind and refuses a body with bytes left over;
`write` appends a record to a buffer.
-/

namespace EdgeMulticast.Uds

open EdgeMulticast.Lib
open EdgeMulticast.Lib.Reading (byte word16 word64 tagged)
open EdgeMulticast.Lowering (Aggressor ClearScope InstrumentRef Presence Scalar Side TradeFlags)

/-! ## What is stated -/

/-- One side of a quote. -/
inductive SideUpdate where
  | gone
  | present (px qty : Scalar) (sourceCount : Option UInt16)
deriving DecidableEq

inductive Event where
  | quote («instrument» : InstrumentRef) (sourceTsNs : UInt64) (bid ask : SideUpdate)
      (venueUpdateId : Option UInt64)
  | trade («instrument» : InstrumentRef) (sourceTsNs : UInt64) (px qty : Scalar)
      (aggressor : Aggressor) (tradeId : Option UInt64) (cumulativeVolume : Option Scalar)
      (flags : TradeFlags)
  | level («instrument» : InstrumentRef) (sourceTsNs : UInt64) (side : Side) (px qty : Scalar)
      (orderCount : Option UInt16) (presence : Presence)
  | clear («instrument» : InstrumentRef) (sourceTsNs : UInt64) (scope : ClearScope)
deriving DecidableEq

def VERSION : Byte := 1

/-- The length, the version and the kind. -/
def HEADER : ℕ := 4 + 1 + 1

def KIND_QUOTE : Byte := 1

def KIND_TRADE : Byte := 2

def KIND_LEVEL : Byte := 3

def KIND_CLEAR : Byte := 4

/-- A quote that carries the venue's update counter. -/
def KIND_QUOTE_UPDATE_ID : Byte := 5

def SCALAR_TEXT : Byte := 0

def SCALAR_FIXED : Byte := 1

def SIDE_GONE : Byte := 0

def SIDE_PRESENT : Byte := 1

def SCOPE_ENTIRE_SIDE : Byte := 0

def SCOPE_BOTH_SIDES : Byte := 1

def SCOPE_FROM_PRICE : Byte := 2

def ABSENT : Byte := 0

def PRESENT : Byte := 1

/-- Why a record could not be read. -/
inductive RecordError where
  | truncated
  | version (found : Byte)
  | kind (found : Byte)
  | malformed (detail : String)
deriving DecidableEq, Repr

/-! ## The reader -/

/-- A reader over the bytes of one record. -/
abbrev Reader (α : Type) := Reading RecordError α

namespace Reader

def take (n : ℕ) : Reader (List Byte) := Reading.take .truncated n

def u8 : Reader Byte := byte .truncated

def u16 : Reader UInt16 := word16 .truncated

def u64 : Reader UInt64 := word64 .truncated

def i64 : Reader Int64 := UInt64.toInt64 <$> u64

def i8 : Reader Int8 := UInt8.toInt8 <$> u8

def str : Reader (List Byte) := do
  let len ← u16
  let bytes ← take len.toNat
  if isUtf8 bytes then pure bytes else throw (.malformed "a text field is not utf-8")

def scalar : Reader Scalar := do
  let tag ← u8
  if tag = SCALAR_TEXT then
    let text ← str
    pure (.text text)
  else if tag = SCALAR_FIXED then
    let mantissa ← i64
    let exponent ← i8
    pure (.fixed mantissa exponent)
  else throw (.malformed "a scalar tag is outside its range")

/-- A field behind a presence tag. -/
def optional {α : Type} (field : Reader α) : Reader (Option α) := do
  let tag ← u8
  if tag = ABSENT then pure none
  else if tag = PRESENT then
    let a ← field
    pure (some a)
  else throw (.malformed "a presence tag is outside its range")

def optionalU16 : Reader (Option UInt16) := optional u16

def optionalU64 : Reader (Option UInt64) := optional u64

def optionalScalar : Reader (Option Scalar) := optional scalar

def sideUpdate : Reader SideUpdate := do
  let tag ← u8
  if tag = SIDE_GONE then pure .gone
  else if tag = SIDE_PRESENT then
    let px ← scalar
    let qty ← scalar
    let sourceCount ← optionalU16
    pure (.present px qty sourceCount)
  else throw (.malformed "a side tag is outside its range")

def side : Reader Side :=
  tagged .truncated (fun b ↦ if b = 0 then some .bid else if b = 1 then some .ask else none)
    (.malformed "a side is outside its range")

def aggressor : Reader Aggressor :=
  tagged .truncated (fun b ↦ if b = 0 then some .unknown else if b = 1 then some .buy
      else if b = 2 then some .sell else none)
    (.malformed "an aggressor is outside its range")

def presence : Reader Presence :=
  tagged .truncated (fun b ↦ if b = 0 then some .unknown else if b = 1 then some .new
      else if b = 2 then some .change else none)
    (.malformed "a presence is outside its range")

def tradeFlags : Reader TradeFlags :=
  tagged .truncated (fun b ↦ if b &&& 0xf8 ≠ 0 then none
      else some ⟨b &&& 0x01 ≠ 0, b &&& 0x02 ≠ 0, b &&& 0x04 ≠ 0⟩)
    (.malformed "a trade flags byte sets a bit nobody defined")

def clearScope : Reader ClearScope := do
  let tag ← u8
  if tag = SCOPE_ENTIRE_SIDE then
    let s ← side
    pure (.entireSide s)
  else if tag = SCOPE_BOTH_SIDES then pure .bothSides
  else if tag = SCOPE_FROM_PRICE then
    let s ← side
    let px ← scalar
    pure (.fromPrice s px)
  else throw (.malformed "a clear scope tag is outside its range")

/-- The fields of an event of a kind, behind its symbol and its time. -/
def event (kind : Byte) («instrument» : InstrumentRef) (sourceTsNs : UInt64) : Reader Event :=
  if kind = KIND_QUOTE then do
    let bid ← sideUpdate
    let ask ← sideUpdate
    pure (.quote «instrument» sourceTsNs bid ask none)
  else if kind = KIND_QUOTE_UPDATE_ID then do
    let bid ← sideUpdate
    let ask ← sideUpdate
    let id ← u64
    pure (.quote «instrument» sourceTsNs bid ask (some id))
  else if kind = KIND_TRADE then do
    let px ← scalar
    let qty ← scalar
    let aggressor ← aggressor
    let tradeId ← optionalU64
    let cumulativeVolume ← optionalScalar
    let flags ← tradeFlags
    pure (.trade «instrument» sourceTsNs px qty aggressor tradeId cumulativeVolume flags)
  else if kind = KIND_LEVEL then do
    let side ← side
    let px ← scalar
    let qty ← scalar
    let orderCount ← optionalU16
    let presence ← presence
    pure (.level «instrument» sourceTsNs side px qty orderCount presence)
  else if kind = KIND_CLEAR then do
    let scope ← clearScope
    pure (.clear «instrument» sourceTsNs scope)
  else throw (.kind kind)

end Reader

/-- The length a record declares. -/
def declared (bytes : List Byte) : ℕ := ofLE (bytes.take 4)

/-- How many bytes the record at the front occupies, if all of it is there. -/
def recordLen (bytes : List Byte) : Option ℕ :=
  if 4 ≤ bytes.length then
    let total := declared bytes + 4
    if total ≤ bytes.length then some total else none
  else none

/-- The version, the kind, the symbol and its event, if the reader holds a handle for it. -/
def readBody (resolve : List Byte → Option InstrumentRef) : Reader (Option Event) := do
  let version ← Reader.u8
  if version ≠ VERSION then throw (.version version)
  else
    let kind ← Reader.u8
    let symbol ← Reader.str
    match resolve symbol with
    | none => pure none
    | some handle =>
        let sourceTsNs ← Reader.u64
        let event ← Reader.event kind handle sourceTsNs
        pure (some event)

/-- Read one record, resolving its symbol to a handle. -/
def decode (bytes : List Byte) (resolve : List Byte → Option InstrumentRef) :
    Except RecordError (Option Event) :=
  if bytes.length < HEADER then .error .truncated
  else if bytes.length < 4 + declared bytes then .error .truncated
  else do
    let (event, rest) ← readBody resolve ((bytes.drop 4).take (declared bytes))
    -- a record of another instrument is not looked at any further
    if event.isSome && !rest.isEmpty then
      .error (.malformed "the body carries more bytes than this event's shape")
    else .ok event

/-! ## The writer -/

namespace RecordWriter

def str (text : List Byte) : List Byte :=
  let len := if text.length < 2 ^ 16 then text.length else 2 ^ 16 - 1
  le16 (UInt16.ofNat len) ++ text.take len

def scalar : Scalar → List Byte
  | .text text => SCALAR_TEXT :: str text
  | .fixed mantissa exponent => SCALAR_FIXED :: (le64 mantissa.toUInt64 ++ [exponent.toUInt8])

def optional {α : Type} (field : α → List Byte) : Option α → List Byte
  | none => [ABSENT]
  | some a => PRESENT :: field a

def side : Side → Byte
  | .bid => 0
  | .ask => 1

def aggressor : Aggressor → Byte
  | .unknown => 0
  | .buy => 1
  | .sell => 2

def presence : Presence → Byte
  | .unknown => 0
  | .new => 1
  | .change => 2

def tradeFlags (flags : TradeFlags) : Byte :=
  (if flags.block then 0x01 else 0) ||| (if flags.sweep then 0x02 else 0) |||
    (if flags.cross then 0x04 else 0)

def sideUpdate : SideUpdate → List Byte
  | .gone => [SIDE_GONE]
  | .present px qty sourceCount =>
      SIDE_PRESENT :: (scalar px ++ scalar qty ++ optional le16 sourceCount)

def clearScope : ClearScope → List Byte
  | .entireSide s => [SCOPE_ENTIRE_SIDE, side s]
  | .bothSides => [SCOPE_BOTH_SIDES]
  | .fromPrice s px => SCOPE_FROM_PRICE :: side s :: scalar px

/-- The body of a record, behind its length. -/
def body (symbol : List Byte) : Event → List Byte
  | .quote _ sourceTsNs bid ask none =>
      VERSION :: KIND_QUOTE :: (str symbol ++ le64 sourceTsNs ++ sideUpdate bid ++ sideUpdate ask)
  | .quote _ sourceTsNs bid ask (some id) =>
      VERSION :: KIND_QUOTE_UPDATE_ID ::
        (str symbol ++ le64 sourceTsNs ++ sideUpdate bid ++ sideUpdate ask ++ le64 id)
  | .trade _ sourceTsNs px qty a tradeId cumulativeVolume flags =>
      VERSION :: KIND_TRADE ::
        (str symbol ++ le64 sourceTsNs ++ scalar px ++ scalar qty ++ [aggressor a] ++
          optional le64 tradeId ++ optional scalar cumulativeVolume ++ [tradeFlags flags])
  | .level _ sourceTsNs s px qty orderCount p =>
      VERSION :: KIND_LEVEL ::
        (str symbol ++ le64 sourceTsNs ++ [side s] ++ scalar px ++ scalar qty ++
          optional le16 orderCount ++ [presence p])
  | .clear _ sourceTsNs scope =>
      VERSION :: KIND_CLEAR :: (str symbol ++ le64 sourceTsNs ++ clearScope scope)

/-- Append the record of an event.  Every event has its arm, so no event is refused, and there is no
record only where the length of one does not fit its field. -/
def write (symbol : List Byte) (event : Event) (out : List Byte) : Option (List Byte) :=
  let body := body symbol event
  if body.length < 2 ^ 32 then some (out ++ le32 (UInt32.ofNat body.length) ++ body) else none

end RecordWriter

/-! ## The adapter -/

/-- Why a payload could not be read to its end. -/
inductive ParseError where
  | truncated (detail : String)
  | malformed (detail : String)
deriving DecidableEq, Repr

/-- What the records of a payload hand to the runtime: upstream messages, and events. -/
structure Fed where
  messages : ℕ := 0
  events : List Event := []
  error : Option ParseError := none
deriving DecidableEq

/-- One payload, which is one or more records.  Every record is at least as long as its length
field, so there are at most as many as bytes. -/
def payloadFrom (resolve : List Byte → Option InstrumentRef) : ℕ → List Byte → Fed
  | 0, _ => {}
  | fuel + 1, bytes =>
      if bytes = [] then {}
      else match recordLen bytes with
        | none => { error := some (.truncated "a record is split across payloads") }
        | some len =>
            let fed := payloadFrom resolve fuel (bytes.drop len)
            match decode (bytes.take len) resolve with
            | .ok (some event) =>
                { fed with messages := fed.messages + 1, events := event :: fed.events }
            | .ok none => { fed with messages := fed.messages + 1 }
            -- a version or a kind of a newer writer is stepped over
            | .error (.version _) | .error (.kind _) => { fed with messages := fed.messages + 1 }
            | .error .truncated =>
                { messages := 1, error := some (.truncated "a record declared more than it held") }
            | .error (.malformed detail) =>
                { messages := 1, error := some (.malformed detail) }

def onPayload (resolve : List Byte → Option InstrumentRef) (bytes : List Byte) : Fed :=
  payloadFrom resolve bytes.length bytes

end EdgeMulticast.Uds
