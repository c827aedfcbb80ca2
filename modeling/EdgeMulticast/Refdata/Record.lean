import EdgeMulticast.Lib.Text
import EdgeMulticast.Refdata.Definition

/-!
# The record of a registry

`state.rs` (`dz-publisher-refdata`): what a registry keeps across restarts, as a base that is
written whole and lines that are appended to it, and how it is read back.

The loader's hash maps index the entries that it has read so far, and are lookups in those entries
here.
-/

namespace EdgeMulticast.Refdata

open EdgeMulticast.Lib

def U16_MAX : ℕ := 2 ^ 16 - 1

def U32_MAX : ℕ := 2 ^ 32 - 1

def FORMAT_TAG : List Byte := ascii "dz-refdata-state"

def FORMAT_VERSION_V1 : ℕ := 1

def FORMAT_VERSION : ℕ := 2

def FORMAT_VERSION_DERIVED : ℕ := 3

def FORMAT_VERSION_KEYED : ℕ := 4

def SYMBOL_IS_KEY : List Byte := ascii "-"

def MAX_VENUE_KEY_LEN : ℕ := 256

/-- The fewest bytes of padding that prove a Symbol was not cut. -/
def WHOLE_SYMBOL_PADDING : ℕ := 4

def FIRST_INSTRUMENT_ID : ℕ := 1

inductive IdAllocation where
  | sequential | derived | derivedKey
deriving DecidableEq, Repr

inductive Identity where
  | symbol | venueKey
deriving DecidableEq, Repr

inductive VenueKeys where
  | symbol | stated
deriving DecidableEq, Repr

namespace IdAllocation

def isDerived : IdAllocation → Bool
  | .sequential => false
  | .derived | .derivedKey => true

def version : IdAllocation → ℕ
  | .sequential => FORMAT_VERSION
  | .derived => FORMAT_VERSION_DERIVED
  | .derivedKey => FORMAT_VERSION_KEYED

def tag : IdAllocation → List Byte
  | .sequential => ascii "sequential"
  | .derived => ascii "derived"
  | .derivedKey => ascii "derived_key"

def fromTag (text : List Byte) : Option IdAllocation :=
  [sequential, derived, derivedKey].find? (·.tag = text)

end IdAllocation

namespace VenueKeys

def tag : VenueKeys → List Byte
  | .symbol => ascii "symbol"
  | .stated => ascii "stated"

def fromTag (text : List Byte) : Option VenueKeys := [symbol, stated].find? (·.tag = text)

end VenueKeys

def layoutVersion (allocation : IdAllocation) (keyed : Bool) : ℕ :=
  if keyed then FORMAT_VERSION_KEYED else allocation.version

/-! ## Keys and Symbols -/

abbrev SymbolKey := Vector Byte SYMBOL_LEN

abbrev RecallKey := List Byte

def isVenueKey (key : List Byte) : Bool :=
  1 ≤ key.length && key.length ≤ MAX_VENUE_KEY_LEN && 0 ∉ key

/-- A Symbol without the padding at its end. -/
def unpadded (symbol : SymbolKey) : List Byte :=
  (symbol.toList.reverse.dropWhile (· = 0)).reverse

/-- Whether a Symbol cannot have been cut from a longer name, and is a key. -/
def symbolIsWhole (symbol : SymbolKey) : Bool :=
  let kept := unpadded symbol
  kept ≠ [] && WHOLE_SYMBOL_PADDING ≤ SYMBOL_LEN - kept.length && 0 ∉ kept

/-- What a record holds for a key beside its Symbol: nothing where the Symbol says it. -/
def venueKeyField (key : List Byte) (symbol : SymbolKey) : Option (List Byte) :=
  if symbolIsWhole symbol && unpadded symbol = key then none else some key

structure Entry where
  instrumentId : ℕ
  symbol : SymbolKey
  venueKey : Option (List Byte) := none
  /-- The second it was last published, where it was not published when this was written. -/
  delistedAt : Option ℕ := none
deriving DecidableEq

/-- What a keyed record recalls an entry by. -/
def Entry.key (e : Entry) : List Byte := e.venueKey.getD (unpadded e.symbol)

/-! ## Derived identifiers -/

/-- One entry of the table of CRC-32, reflected. -/
def crc32Entry (index : ℕ) : ℕ :=
  (List.range 8).foldl (fun crc _ ↦ if crc % 2 = 1 then crc / 2 ^^^ 0xEDB88320 else crc / 2) index

def crc32 (bytes : List Byte) : ℕ :=
  U32_MAX ^^^ bytes.foldl
    (fun crc b ↦ crc / 256 ^^^ crc32Entry ((crc ^^^ b.toNat) % 256)) U32_MAX

def deriveInstrumentId (symbol : SymbolKey) : ℕ := crc32 (unpadded symbol)

def deriveInstrumentIdFromKey (venueKey : List Byte) : ℕ := crc32 venueKey

/-- The identifier that an allocation derives for an entry, if it derives one. -/
def derivation (allocation : IdAllocation) (e : Entry) : Option ℕ :=
  match allocation with
  | .sequential => none
  | .derived => some (deriveInstrumentId e.symbol)
  | .derivedKey => some (deriveInstrumentIdFromKey e.key)

/-! ## Writing -/

/-- Everything that has to survive a restart. -/
structure StateRecord where
  sourceId : ℕ
  nextId : ℕ
  entries : List Entry
  allocation : IdAllocation
  keyed : Option VenueKeys
deriving DecidableEq

/-- The text of an entry's Instrument ID and Symbol. -/
def entryText (instrumentId : ℕ) (symbol : SymbolKey) : List Byte :=
  decimal instrumentId ++ SPACE :: hex symbol.toList

def venueKeyText : Option (List Byte) → List Byte
  | none => SYMBOL_IS_KEY
  | some key => hex key

/-- An appended line. -/
def encodeLine (instrumentId : ℕ) (symbol : SymbolKey) : List Byte :=
  entryText instrumentId symbol ++ [NEWLINE]

/-- An appended line of a keyed record. -/
def encodeKeyedLine (instrumentId : ℕ) (symbol : SymbolKey) (venueKey : Option (List Byte)) :
    List Byte :=
  entryText instrumentId symbol ++ SPACE :: venueKeyText venueKey ++ [NEWLINE]

namespace StateRecord

def empty (sourceId : ℕ) : StateRecord := ⟨sourceId, FIRST_INSTRUMENT_ID, [], .sequential, none⟩

/-- The fields of a header behind its entry count. -/
def headerTail (r : StateRecord) : List (List Byte) :=
  match r.keyed with
  | some venueKeys => [r.allocation.tag, venueKeys.tag]
  | none => if r.allocation = .derived then [IdAllocation.derived.tag] else []

def headerFields (r : StateRecord) : List (List Byte) :=
  [FORMAT_TAG, decimal (layoutVersion r.allocation r.keyed.isSome), decimal r.sourceId,
    decimal r.nextId, decimal r.entries.length] ++ r.headerTail

def header (r : StateRecord) : List Byte := [SPACE].intercalate r.headerFields ++ [NEWLINE]

/-- The fields of a base entry behind its Symbol. -/
def entryTail (keyed : Bool) (e : Entry) : List (List Byte) :=
  (if keyed then [venueKeyText (venueKeyField e.key e.symbol)] else []) ++
    (e.delistedAt.map decimal).toList

def baseLine (keyed : Bool) (e : Entry) : List Byte :=
  [SPACE].intercalate (decimal e.instrumentId :: hex e.symbol.toList :: entryTail keyed e) ++
    [NEWLINE]

/-- The bytes of a base: its entries in the order of their identifiers. -/
def encode (r : StateRecord) : List Byte :=
  r.header ++
    ((r.entries.mergeSort (·.instrumentId ≤ ·.instrumentId)).map (baseLine r.keyed.isSome)).flatten

end StateRecord

/-! ## Reading -/

inductive RecordError where
  | notOurFormat
  | unsupportedVersion (found : ℕ)
  | malformed (line : ℕ) (what : String)
  | duplicateId (instrumentId : ℕ)
  | duplicateSymbol (first second : ℕ)
  | duplicateVenueKey (first second : ℕ)
  | badVenueKey (line : ℕ)
  | unresolvedVenueKey (line instrumentId : ℕ)
  | restatedUnderAnotherVenueKey (line instrumentId : ℕ)
  | idNotBelowNext (instrumentId nextId : ℕ)
  | appendedOutOfOrder (line instrumentId nextId : ℕ)
  | restatedUnderAnotherSymbol (line instrumentId : ℕ)
  | notDerived (line instrumentId : ℕ)
  | mintedBelowFloor (line instrumentId floor : ℕ)
  | zeroId
deriving DecidableEq, Repr

structure Loaded where
  record : StateRecord
  version : ℕ
  /-- How many entries the base held. -/
  base : ℕ
  /-- How many complete appended lines followed it. -/
  appended : ℕ
  /-- Whether a final line with no newline was dropped. -/
  torn : Bool
  /-- How many bytes were read. -/
  complete : ℕ
deriving DecidableEq

def Loaded.needsRewrite (l : Loaded) (identity : Identity) : Bool :=
  l.version ≠ layoutVersion l.record.allocation (identity = .venueKey)

/-- What is read, or the line is malformed. -/
def orMalformed {α : Type} (line : ℕ) (what : String) : Option α → Except RecordError α
  | none => .error (.malformed line what)
  | some a => .ok a

structure Header where
  version : ℕ
  sourceId : ℕ
  nextId : ℕ
  /-- How many entries the base holds.  Version 1 has no count: every line is the base. -/
  base : Option ℕ
  allocation : IdAllocation
  keyed : Option VenueKeys
deriving DecidableEq

namespace Header

/-- The allocation and the venue keys that the fields behind the entry count name. -/
def parseTail (version : ℕ) (fields : List (List Byte)) :
    Except RecordError (IdAllocation × Option VenueKeys) := do
  let (named, rest) ←
    if version = FORMAT_VERSION_DERIVED then
      if fields.head? = some IdAllocation.derived.tag then
        .ok ((IdAllocation.derived, none), fields.tail)
      else .error (.malformed 1 "a version 3 header does not name its allocation")
    else if version = FORMAT_VERSION_KEYED then do
      let allocation ← orMalformed 1 "a version 4 header does not name its allocation"
        (fields.head?.bind IdAllocation.fromTag)
      let venueKeys ← orMalformed 1 "a version 4 header does not name its venue keys"
        (fields.tail.head?.bind VenueKeys.fromTag)
      .ok ((allocation, some venueKeys), fields.tail.tail)
    else .ok ((.sequential, none), fields)
  if rest = [] then .ok named
  else .error (.malformed 1 "the header carries more fields than this format has")

def parse (header : List Byte) : Except RecordError Header := do
  let fields := (trimNewlines header).splitOn SPACE
  let number (i max : ℕ) : Option ℕ := fields[i]?.bind (parseUnsigned max)
  if fields.head? ≠ some FORMAT_TAG then .error .notOurFormat
  else match number 1 U32_MAX with
    | none => .error .notOurFormat
    | some version =>
        if version ∉ [FORMAT_VERSION, FORMAT_VERSION_V1, FORMAT_VERSION_DERIVED,
            FORMAT_VERSION_KEYED] then
          .error (.unsupportedVersion version)
        else if stripNewline header = none then
          .error (.malformed 1 "the header is not a complete line")
        else do
          let sourceId ← orMalformed 1 "the header has no readable Source ID" (number 2 U16_MAX)
          let nextId ← orMalformed 1 "the header has no readable next_id" (number 3 U32_MAX)
          let base ←
            if version = FORMAT_VERSION_V1 then .ok none
            else (orMalformed 1 "the header has no readable entry count"
              (number 4 USIZE_MAX)).map some
          let (allocation, keyed) ←
            parseTail version (fields.drop (if base = none then 4 else 5))
          return { version, sourceId, nextId, base, allocation, keyed }

end Header

def decodeSymbol (text : List Byte) : Option SymbolKey :=
  if text.length = SYMBOL_LEN * 2 then
    (unhex text).bind fun bytes ↦
      if h : bytes.length = SYMBOL_LEN then some ⟨bytes.toArray, h⟩ else none
  else none

def decodeVenueKey (text : List Byte) : Option (List Byte) :=
  if text.length % 2 = 0 then (unhex text).bind fun key ↦ if isVenueKey key then some key else none
  else none

/-- Whether a line without its newline is what an append writes, cut short. -/
def startsAnAppendedLine (tail : List Byte) (keyed : Bool) : Bool :=
  let (id, behind) := splitOnce tail
  let (symbol, key) := ((behind.map splitOnce).getD ([], none))
  let isHex (text : List Byte) : Bool := text.all fun b ↦ (nibble b).isSome
  let idFits := id ≠ [] && id.length ≤ (decimal U32_MAX).length && id.all isDigit
  let symbolFits := symbol.length ≤ SYMBOL_LEN * 2 && isHex symbol
  let keyFits := match key with
    | none => true
    | some key =>
        keyed && symbol.length = SYMBOL_LEN * 2 &&
          (key = SYMBOL_IS_KEY || key.length ≤ MAX_VENUE_KEY_LEN * 2 && isHex key)
  idFits && symbolFits && keyFits

/-- The second that an entry's last field states. -/
def parseTimestamp (version : ℕ) (inBase : Bool) (line : ℕ) :
    Option (List Byte) → Except RecordError (Option ℕ)
  | none => .ok none
  | some stated =>
      if version = FORMAT_VERSION_V1 then
        .error (.malformed line "a version 1 entry carries a timestamp")
      else if !inBase then .error (.malformed line "an appended line carries a timestamp")
      else (orMalformed line "an entry's timestamp is not a number"
        (parseUnsigned U64_MAX stated)).map some

/-- The venue key that an entry's third field states. -/
def parseVenueKey (line instrumentId : ℕ) (symbol : SymbolKey) :
    Option (List Byte) → Except RecordError (Option (List Byte))
  | none => .ok none
  | some text =>
      if text = SYMBOL_IS_KEY then
        if symbolIsWhole symbol then .ok none else .error (.unresolvedVenueKey line instrumentId)
      else match decodeVenueKey text with
        | none => .error (.badVenueKey line)
        | some key => .ok (some key)

def parseEntry (h : Header) (inBase : Bool) (line : ℕ) (text : List Byte) :
    Except RecordError Entry := do
  let fields := text.splitOn SPACE
  let symbolText ← orMalformed line "an entry is not `Instrument ID` then `Symbol`" fields[1]?
  let keyText ←
    if h.keyed.isSome then
      (orMalformed line "a version 4 entry is not `Instrument ID`, `Symbol` then venue key"
        fields[2]?).map some
    else .ok none
  let rest := fields.drop (if h.keyed.isSome then 3 else 2)
  let delistedAt ← parseTimestamp h.version inBase line rest.head?
  if 1 < rest.length then
    .error (.malformed line "an entry carries more fields than this format has")
  else do
    let instrumentId ← orMalformed line "an entry's Instrument ID is not a number"
      (fields.head?.bind (parseUnsigned U32_MAX))
    if instrumentId = 0 then .error .zeroId
    else do
      let symbol ← orMalformed line "an entry's Symbol is not 64 hexadecimal bytes"
        (decodeSymbol symbolText)
      let venueKey ← parseVenueKey line instrumentId symbol keyText
      return { instrumentId, symbol, venueKey, delistedAt }

/-- Refuse an entry whose key the record holds already. -/
def hold (keyed : Bool) (entries : List Entry) (entry : Entry) : Except RecordError Unit :=
  if keyed then
    match entries.find? (·.key = entry.key) with
    | some first => .error (.duplicateVenueKey first.instrumentId entry.instrumentId)
    | none => .ok ()
  else match entries.find? (·.symbol = entry.symbol) with
    | some first => .error (.duplicateSymbol first.instrumentId entry.instrumentId)
    | none => .ok ()

/-- What has been read of a record. -/
structure Loading where
  entries : List Entry := []
  runningNext : ℕ
  read : ℕ := 0
  appended : ℕ := 0
  torn : Bool := false
  complete : ℕ
deriving DecidableEq

namespace Loading

/-- One more entry, of an identifier that is new. -/
def push (l : Loading) (h : Header) (entry : Entry) : Except RecordError Loading := do
  hold h.keyed.isSome l.entries entry
  return { l with entries := l.entries ++ [entry] }

/-- One entry of the base. -/
def takeBase (l : Loading) (h : Header) (line : ℕ) (entry : Entry) : Except RecordError Loading :=
  if h.allocation.isDerived ∧ h.nextId ≤ entry.instrumentId ∧
      some entry.instrumentId ≠ derivation h.allocation entry then
    .error (.notDerived line entry.instrumentId)
  else if ¬h.allocation.isDerived ∧ h.nextId ≤ entry.instrumentId then
    .error (.idNotBelowNext entry.instrumentId h.nextId)
  else if l.entries.any (·.instrumentId = entry.instrumentId) then
    .error (.duplicateId entry.instrumentId)
  else l.push h entry

/-- One appended line: a restatement of an identifier that is known, or a mint. -/
def takeAppended (l : Loading) (h : Header) (line : ℕ) (entry : Entry) :
    Except RecordError Loading :=
  match l.entries.findIdx? (·.instrumentId = entry.instrumentId) with
  | some i =>
      match l.entries[i]? with
      | none => .ok l
      | some known =>
          if known.symbol ≠ entry.symbol then
            .error (.restatedUnderAnotherSymbol line entry.instrumentId)
          else if known.key ≠ entry.key then
            .error (.restatedUnderAnotherVenueKey line entry.instrumentId)
          else .ok { l with entries := l.entries.set i { known with delistedAt := none } }
  | none =>
      if h.allocation.isDerived then
        -- a derived mint: the floor does not move
        if some entry.instrumentId ≠ derivation h.allocation entry then
          .error (.notDerived line entry.instrumentId)
        else if entry.instrumentId < h.nextId then
          .error (.mintedBelowFloor line entry.instrumentId h.nextId)
        else l.push h entry
      else if entry.instrumentId = l.runningNext then do
        let l ← l.push h entry
        if l.runningNext + 1 ≤ U32_MAX then .ok { l with runningNext := l.runningNext + 1 }
        else .error (.malformed line "an appended line mints past the ID space")
      else .error (.appendedOutOfOrder line entry.instrumentId l.runningNext)

/-- One complete line behind the header. -/
def take (l : Loading) (h : Header) (line : ℕ) (text : List Byte) : Except RecordError Loading := do
  let inBase := h.base.all (l.read < ·)
  let entry ← parseEntry h inBase line text
  let next : Loading := { l with
    read := l.read + 1
    appended := if inBase then l.appended else l.appended + 1
    complete := l.complete + text.length + 1 }
  if inBase then next.takeBase h line entry else next.takeAppended h line entry

/-- The lines behind the header. -/
def lines (h : Header) : ℕ → Loading → List (List Byte) → Except RecordError Loading
  | _, l, [] => .ok l
  | line, l, raw :: raws =>
      match stripNewline raw with
      | some text => do
          let l ← l.take h line text
          lines h (line + 1) l raws
      | none =>
          if h.base.all (l.read < ·) then
            .error (.malformed line "a base entry is not a complete line")
          else if !startsAnAppendedLine raw h.keyed.isSome then
            .error (.malformed line
              "a final line with no newline is not the start of an appended line")
          else .ok { l with torn := true }

end Loading

/-- Read a record, and what reading it found. -/
def StateRecord.load (bytes : List Byte) : Except RecordError Loaded := do
  if !isUtf8 bytes then .error .notOurFormat
  else match linesOf bytes with
    | [] => .error .notOurFormat
    | header :: raws => do
        let h ← Header.parse header
        let l ← Loading.lines h 2 { runningNext := h.nextId, complete := header.length } raws
        if h.base.any (l.read < ·) then
          .error (.malformed (l.read + 2) "the base is shorter than its header counts")
        else return {
          record := {
            sourceId := h.sourceId
            nextId := l.runningNext
            entries := l.entries
            allocation := h.allocation
            keyed := h.keyed }
          version := h.version
          base := l.read - l.appended
          appended := l.appended
          torn := l.torn
          complete := l.complete }

end EdgeMulticast.Refdata
