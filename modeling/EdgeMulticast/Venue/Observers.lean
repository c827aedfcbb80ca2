import EdgeMulticast.Lowering.TopOfBook
import EdgeMulticast.Lowering.Unscaled
import EdgeMulticast.Venue.Fold

/-!
# Two observers of one market

The recorder of the multicast feed reads an event off the wire, after the publisher lowered it; the
recorder of the venue folds the event itself.  Both key the top they hold, and a race between the
two pairs on the keys.

The two hold one book of an instrument as long as every number is published as it is stated
(`keepsPrice`, `keepsQty`) and no side is quoted as nothing at a price of zero, which the wire has
no other spelling for than that of a side that is gone.
-/

namespace EdgeMulticast.Venue

open Std (ExtTreeMap)
open EdgeMulticast.Lib
open EdgeMulticast.Lowering
open EdgeMulticast.Recorder (Channel Top bookKey)
open EdgeMulticast.Uds (Event SideUpdate)

/-! ## The two paths of an event -/

/-- What an event is published as. -/
inductive Message where
  | quote (m : Codec.Quote)
  | trade (m : Codec.Trade)
  | level (m : Codec.LevelUpdate)
  | clear (m : Codec.BookClear)
deriving DecidableEq

/-- The message that an event is lowered to, on the feed that carries its kind. -/
def lower (d : DepthLowering) (instruments : InstrumentTable) :
    Event → Except LoweringError Message × DepthLowering
  | .quote h sourceTsNs bid ask venueUpdateId =>
      ((lowerQuote d.sourceId instruments h sourceTsNs bid ask venueUpdateId).map .quote, d)
  | .trade h sourceTsNs px qty aggressor tradeId cumulativeVolume flags =>
      ((d.lowerTrade instruments h sourceTsNs px qty aggressor tradeId cumulativeVolume flags).map
        .trade, d)
  | .level h sourceTsNs side px qty orderCount presence =>
      let lowered := d.lowerLevel instruments h sourceTsNs side px qty orderCount presence
      (lowered.1.map .level, lowered.2)
  | .clear h sourceTsNs scope =>
      let lowered := d.lowerClear instruments h sourceTsNs scope
      (lowered.1.map .clear, lowered.2)

def readQuote (m : Codec.Quote) : Recorder.Quote where
  instrumentId := m.instrumentId.toNat
  bidPrice := m.bidPrice.toInt
  bidQty := m.bidQty.toNat
  askPrice := m.askPrice.toInt
  askQty := m.askQty.toNat
  bidSourceCount := m.bidSourceCount.toNat
  askSourceCount := m.askSourceCount.toNat
  sourceTimestampNs := m.sourceTimestampNs.toNat

def readLevel (m : Codec.LevelUpdate) : Recorder.LevelUpdate where
  instrumentId := m.instrumentId.toNat
  side := m.side.toNat
  priceRaw := m.priceRaw.toInt
  qtyRaw := m.qtyRaw.toNat
  timestampNs := m.timestampNs.toNat

def readClear (m : Codec.BookClear) : Recorder.BookClear where
  instrumentId := m.instrumentId.toNat
  clearSide := m.clearSide.toNat
  scope := m.scope.toNat
  fromPriceRaw := m.fromPriceRaw.toInt
  timestampNs := m.timestampNs.toNat

/-- A message, applied to the book of its channel. -/
def apply (book : Recorder.Book) (channel : Channel) : Message → Recorder.Book
  | .quote m => (book.quote channel (readQuote m)).1
  | .trade _ => book
  | .level m => (book.level channel (readLevel m)).1
  | .clear m => (book.clear channel (readClear m)).1

/-- The instrument that an event is of. -/
def handleOf : Event → InstrumentRef
  | .quote h .. => h
  | .trade h .. => h
  | .level h .. => h
  | .clear h .. => h

/-- The event, as an adapter that holds another handle for the instrument states it. -/
def onHandle (h : InstrumentRef) : Event → Event
  | .quote _ sourceTsNs bid ask venueUpdateId => .quote h sourceTsNs bid ask venueUpdateId
  | .trade _ sourceTsNs px qty aggressor tradeId cumulativeVolume flags =>
      .trade h sourceTsNs px qty aggressor tradeId cumulativeVolume flags
  | .level _ sourceTsNs side px qty orderCount presence =>
      .level h sourceTsNs side px qty orderCount presence
  | .clear _ sourceTsNs scope => .clear h sourceTsNs scope

/-- The publisher, the book that is derived from its feed, and the book of the venue. -/
structure Observers where
  lowering : DepthLowering
  book : Recorder.Book
  fold : Fold

/-- What the two books are kept of: the instruments of the publisher, the channel it publishes on,
and the handle of the venue's fold. -/
structure Market where
  instruments : InstrumentTable
  channel : Channel
  handle : InstrumentRef

namespace Market

variable (m : Market)

/-- One event on both paths, or nothing where the lowering refuses it. -/
def observe (s : Observers) (e : Event) : Option Observers :=
  match lower s.lowering m.instruments e with
  | (.error _, _) => none
  | (.ok message, lowering) =>
      some ⟨lowering, apply s.book m.channel message, s.fold.event (onHandle m.handle e)⟩

def observeAll (s : Observers) (events : List Event) : Option Observers :=
  events.foldlM m.observe s

/-- The top that the recorder of the feed holds. -/
def bookTop (s : Observers) (inst : Lowering.Instrument) : Top :=
  (s.book.book ⟨m.channel, inst.instrumentId.toNat⟩).top

/-- The top that the recorder of the venue holds. -/
def foldTop (s : Observers) : Option Top := (s.fold.instruments[m.handle.index.toNat]?).map (·.top)

/-- The two hold one book. -/
def Agree (s : Observers) (inst : Lowering.Instrument) : Prop :=
  (m.foldTop s).map bookKey = some (bookKey (m.bookTop s inst))

end Market

/-! ## What an event has to be -/

/-- A side is published as it is stated, and is no quote of nothing at zero. -/
def keepsSide (inst : Lowering.Instrument) : SideUpdate → Bool
  | .gone => true
  | .present px qty _ => inst.keepsPrice px && inst.keepsQty qty && !(px.isZero && qty.isZero)

/-- The price that bounds a clear is published as it is stated. -/
def keepsScope (inst : Lowering.Instrument) : ClearScope → Bool
  | .fromPrice _ px => inst.keepsPrice px
  | .entireSide _ => true
  | .bothSides => true

/-- The numbers of an event are published as they are stated. -/
def keeps (inst : Lowering.Instrument) : Event → Bool
  | .quote _ _ bid ask _ => keepsSide inst bid && keepsSide inst ask
  | .trade .. => true
  | .level _ _ _ px qty _ _ => inst.keepsPrice px && inst.keepsQty qty
  | .clear _ _ scope => keepsScope inst scope

def isQuote : Event → Bool
  | .quote .. => true
  | _ => false

def isDelta : Event → Bool
  | .level .. => true
  | .clear .. => true
  | _ => false

end EdgeMulticast.Venue
