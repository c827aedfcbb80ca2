import EdgeMulticast.Venue.Observers

/-!
# The two observers hold one book

What an event makes of the two books of `Venue.Observers`, for a quote and for a delta, and from it
what a run of events does.  A quote states both sides of the two books at once; deltas keep the one
book equal to the other, level by level.
-/

namespace EdgeMulticast.Venue

open Std (ExtTreeMap)
open EdgeMulticast.Lib
open EdgeMulticast.Lowering
open EdgeMulticast.Recorder (InstrumentBook Top bookKey bookKey_congr sideOfQuote)
open EdgeMulticast.Uds (Event SideUpdate)

/-! ## Numbers on the wire -/

theorem toInt_wire {r : ℤ} (h : I64_MIN ≤ r ∧ r ≤ I64_MAX) : (Int64.ofInt r).toInt = r := by
  rw [I64_MIN, I64_MAX] at h
  exact Int64.toInt_ofInt_of_le (by omega) (by omega)

theorem toNat_wire {r : ℤ} (h : 0 ≤ r ∧ r ≤ U64_MAX) : (UInt64.ofNat r.toNat).toNat = r.toNat := by
  rw [U64_MAX] at h
  exact UInt64.toNat_ofNat_of_lt' (by rw [UInt64.size]; omega)

theorem toOption_of_ok {ε α : Type} {x : Except ε α} {a : α} (h : x = .ok a) :
    x.toOption = some a := by
  rw [h]
  rfl

/-! ## Quotes -/

theorem toList_singleton (px : ℤ) (r : Resting) :
    ((∅ : Levels).insert px r).toList = [(px, r)] := by
  have hlength : ((∅ : Levels).insert px r).toList.length = 1 := by
    rw [ExtTreeMap.length_toList, ExtTreeMap.size_insert, ExtTreeMap.size_empty]
    rfl
  obtain ⟨x, hx⟩ := List.length_eq_one_iff.mp hlength
  have hmem : (px, r) ∈ ((∅ : Levels).insert px r).toList :=
    ExtTreeMap.mem_toList_iff_getElem?_eq_some.mpr ExtTreeMap.getElem?_insert_self
  rw [hx, List.mem_singleton] at hmem
  rw [hx, ← hmem]

/-- A side that is seeded is the whole of its side. -/
theorem toList_seedSide (entry : Option (ℤ × Resting)) :
    (seedSide (sideAt entry)).toList = entry.toList := by
  cases entry with
  | none => exact ExtTreeMap.toList_eq_nil_iff.mpr rfl
  | some entry => exact toList_singleton entry.1 entry.2

theorem topOfLevels_quote (held : Instrument) (bid ask : Option (ℤ × Resting)) :
    (held.quote (sideAt bid) (sideAt ask)).topOfLevels = ⟨sideAt bid, sideAt ask⟩ := by
  rw [Instrument.topOfLevels, Instrument.quote, toList_seedSide, toList_seedSide]
  cases bid <;> cases ask <;> rfl

/-- **One side of a quote on its two paths**: what the wire carries of it is read as the side that
the fold states, up to the spelling of a missing count. -/
theorem sideOf_lowered {inst : Lowering.Instrument} {side : SideUpdate} {wire : Sides}
    {s : LoweredSide} (hlower : lowerSide inst side wire = .ok s)
    (hkeeps : keepsSide inst side = true) :
    ∃ entry, sideOf side inst.priceExponent inst.qtyExponent = some (sideAt entry) ∧
      (sideAt entry).asStated =
        (Recorder.sideOfQuote (Int64.ofInt s.price).toInt (UInt64.ofNat s.qty.toNat).toNat
          s.sourceCount.toNat).asStated := by
  rcases lowerSide_cases hlower with ⟨rfl, rfl⟩ | ⟨px, qty, count, price, raw, rfl, hpx, hqty, rfl⟩
  · exact ⟨none, rfl, rfl⟩
  · rw [keepsSide, Bool.and_eq_true, Bool.and_eq_true, Bool.not_eq_true', Bool.and_eq_false_iff]
      at hkeeps
    obtain ⟨⟨hkeepsPx, hkeepsQty⟩, hne⟩ := hkeeps
    obtain ⟨hfits, hzero, hsame⟩ := priceFor_spec hpx
    obtain ⟨hfits', hzero', hsame'⟩ := qtyFor_spec hqty
    refine ⟨some (price, ⟨raw.toNat, (count.map UInt16.toNat).filter fun n ↦ decide (n ≠ 0)⟩), ?_, ?_⟩
    · rw [sideOf, toOption_of_ok (hsame.mpr hkeepsPx), toOption_of_ok (hsame'.mpr hkeepsQty)]
      rfl
    · have hstated : ¬(price = 0 ∧ raw.toNat = 0) := by
        rintro ⟨hp, hq⟩
        have hraw : raw = 0 := by omega
        rw [hzero.mp hp, hzero'.mp hraw] at hne
        exact hne.elim Bool.noConfusion Bool.noConfusion
      rw [toInt_wire hfits, toNat_wire hfits', sideOfQuote, if_neg hstated]
      cases count with
      | none => rfl
      | some count =>
          rw [sideAt, Recorder.Side.asStated, Recorder.Side.asStated, Option.map_some,
            Option.getD_some, Option.filter_filter]
          congr 2
          funext n
          rw [Bool.and_self]

/-! ## Deltas -/

/-- The levels of a depth feed, as the fold holds them: no count rests with one. -/
def asResting (levels : Recorder.Levels) : Levels := levels.map fun _ qty ↦ ⟨qty, none⟩

theorem asResting_empty : asResting ∅ = ∅ := by
  refine ExtTreeMap.ext_getElem? fun k ↦ ?_
  rw [asResting, ExtTreeMap.getElem?_map, ExtTreeMap.getElem?_empty, ExtTreeMap.getElem?_empty]
  rfl

theorem asResting_insert (levels : Recorder.Levels) (px : ℤ) (qty : ℕ) :
    asResting (levels.insert px qty) = (asResting levels).insert px ⟨qty, none⟩ := by
  refine ExtTreeMap.ext_getElem? fun k ↦ ?_
  rw [asResting, ExtTreeMap.getElem?_map, getElem?_insert_eq, getElem?_insert_eq, asResting,
    ExtTreeMap.getElem?_map]
  split <;> rfl

theorem asResting_erase (levels : Recorder.Levels) (px : ℤ) :
    asResting (levels.erase px) = (asResting levels).erase px := by
  refine ExtTreeMap.ext_getElem? fun k ↦ ?_
  rw [asResting, ExtTreeMap.getElem?_map, getElem?_erase_eq, getElem?_erase_eq, asResting,
    ExtTreeMap.getElem?_map]
  split <;> rfl

theorem asResting_filter (levels : Recorder.Levels) (p : ℤ → Bool) :
    asResting (levels.filter fun px _ ↦ p px) = (asResting levels).filter fun px _ ↦ p px := by
  refine ExtTreeMap.ext_getElem? fun k ↦ ?_
  rw [asResting, ExtTreeMap.getElem?_map, ExtTreeMap.getElem?_filter', ExtTreeMap.getElem?_filter',
    asResting, ExtTreeMap.getElem?_map]
  cases levels[k]? with
  | none => rfl
  | some qty => cases p k <;> rfl

theorem applyLevel_asResting (levels : Recorder.Levels) (px : ℤ) (qty : ℕ) :
    applyLevel (asResting levels) px qty =
      asResting (if qty = 0 then levels.erase px else levels.insert px qty) := by
  rw [applyLevel]
  split
  next => exact (asResting_erase levels px).symm
  next => exact (asResting_insert levels px qty).symm

/-- The fold holds the levels of the book. -/
def Mirrors (held : Instrument) (book : InstrumentBook) : Prop :=
  held.bids = asResting book.bids ∧ held.asks = asResting book.asks

theorem topOfLevels_mirrors {held : Instrument} {book : InstrumentBook}
    (h : Mirrors held book) : held.topOfLevels = book.recomputeTop.top := by
  rw [Instrument.topOfLevels, h.1, h.2, asResting, asResting, ExtTreeMap.toList_map,
    ExtTreeMap.toList_map, List.getLast?_map, List.head?_map, InstrumentBook.recomputeTop]
  cases book.bids.toList.getLast? with
  | none => cases book.asks.toList.head? <;> rfl
  | some bid => cases book.asks.toList.head? <;> rfl

/-- A level that is published as it is stated moves the two books alike. -/
theorem mirrors_level {held : Instrument} {book : InstrumentBook} (h : Mirrors held book)
    (side : Lowering.Side) (l : Recorder.LevelUpdate) (hside : l.side = side.byte.toNat) :
    Mirrors (held.level side l.priceRaw l.qtyRaw) (book.applyLevel l) := by
  obtain ⟨hbids, hasks⟩ := h
  cases side with
  | bid =>
      have hbid : l.side = Recorder.sideBid := hside
      rw [Instrument.level, InstrumentBook.applyLevel, if_pos hbid]
      refine ⟨?_, hasks⟩
      change applyLevel held.bids _ _ = _
      rw [hbids]
      exact applyLevel_asResting ..
  | ask =>
      have hne : l.side ≠ Recorder.sideBid := by
        rw [hside]
        decide
      rw [Instrument.level, InstrumentBook.applyLevel, if_neg hne]
      refine ⟨hbids, ?_⟩
      change applyLevel held.asks _ _ = _
      rw [hasks]
      exact applyLevel_asResting ..

/-- What a clear leaves of one side, on the two paths. -/
theorem clearSide_asResting (levels : Recorder.Levels) (fromPrice : Option ℤ) (isBid : Bool) :
    asResting (Recorder.clearSide levels fromPrice isBid) =
      match fromPrice with
      | none => ∅
      | some bound => (asResting levels).filter fun price _ ↦
          if isBid then decide (bound < price) else decide (price < bound) := by
  cases fromPrice with
  | none => exact asResting_empty
  | some bound => exact asResting_filter levels _

theorem applyClear_bids (book : InstrumentBook) (c : Recorder.BookClear) :
    (book.applyClear c).bids =
      if c.clearSide = Recorder.clearBid ∨ c.clearSide = Recorder.clearBoth then
        Recorder.clearSide book.bids
          (if c.scope = Recorder.scopeFromPrice then some c.fromPriceRaw else none) true
      else book.bids := by
  simp only [InstrumentBook.applyClear]
  split <;> split <;> rfl

theorem applyClear_asks (book : InstrumentBook) (c : Recorder.BookClear) :
    (book.applyClear c).asks =
      if c.clearSide = Recorder.clearAsk ∨ c.clearSide = Recorder.clearBoth then
        Recorder.clearSide book.asks
          (if c.scope = Recorder.scopeFromPrice then some c.fromPriceRaw else none) false
      else book.asks := by
  simp only [InstrumentBook.applyClear]
  split <;> split <;> rfl

/-- A clear that is published as it is stated leaves the two books alike. -/
theorem mirrors_clear {inst : Lowering.Instrument} {held : Instrument} {book : InstrumentBook}
    (h : Mirrors held book) (hexp : held.priceExp = inst.priceExponent) {scope : ClearScope}
    {fields : Byte × Byte × ℤ} (hfields : DepthLowering.clearFields inst scope = .ok fields)
    (hkeeps : keepsScope inst scope = true) {c : Recorder.BookClear}
    (hside : c.clearSide = fields.1.toNat) (hscope : c.scope = fields.2.1.toNat)
    (hfrom : c.fromPriceRaw = fields.2.2) :
    ∃ held', held.clear scope = some held' ∧ Mirrors held' (book.applyClear c) := by
  obtain ⟨hbids, hasks⟩ := h
  cases scope with
  | bothSides =>
      cases hfields
      refine ⟨_, rfl, ?_, ?_⟩
      · rw [applyClear_bids, hside, hscope, if_pos (.inr rfl)]
        exact asResting_empty.symm
      · rw [applyClear_asks, hside, hscope, if_pos (.inr rfl)]
        exact asResting_empty.symm
  | entireSide side =>
      cases hfields
      cases side with
      | bid =>
          refine ⟨_, rfl, ?_, ?_⟩
          · rw [applyClear_bids, hside, hscope, if_pos (.inl rfl)]
            exact asResting_empty.symm
          · rw [applyClear_asks, hside, if_neg (by decide)]
            exact hasks
      | ask =>
          refine ⟨_, rfl, ?_, ?_⟩
          · rw [applyClear_bids, hside, if_neg (by decide)]
            exact hbids
          · rw [applyClear_asks, hside, hscope, if_pos (.inl rfl)]
            exact asResting_empty.symm
  | fromPrice side px =>
      rw [DepthLowering.clearFields] at hfields
      cases hraw : priceFor inst px "from_price" with
      | error e =>
          rw [hraw] at hfields
          cases hfields
      | ok raw =>
          rw [hraw] at hfields
          cases hfields
          have hbound := toOption_of_ok ((priceFor_spec hraw).2.2.mpr hkeeps)
          rw [← hexp] at hbound
          cases side with
          | bid =>
              refine ⟨_, by rw [Instrument.clear, hbound]; rfl, ?_, ?_⟩
              · rw [applyClear_bids, hside, hscope, if_pos (.inl rfl), hfrom, clearSide_asResting,
                  ← hbids]
                rfl
              · have hother : ¬(Lowering.Side.bid.byte.toNat = Recorder.clearAsk ∨
                    Lowering.Side.bid.byte.toNat = Recorder.clearBoth) := by decide
                rw [applyClear_asks, hside, if_neg hother]
                exact hasks
          | ask =>
              refine ⟨_, by rw [Instrument.clear, hbound]; rfl, ?_, ?_⟩
              · have hother : ¬(Lowering.Side.ask.byte.toNat = Recorder.clearBid ∨
                    Lowering.Side.ask.byte.toNat = Recorder.clearBoth) := by decide
                rw [applyClear_bids, hside, if_neg hother]
                exact hbids
              · rw [applyClear_asks, hside, hscope, if_pos (.inl rfl), hfrom, clearSide_asResting,
                  ← hasks]
                rfl

/-- An event leaves an instrument the exponents it was listed with. -/
theorem level_exponents (held : Instrument) (side : Lowering.Side) (px : ℤ) (qty : ℕ) :
    (held.level side px qty).priceExp = held.priceExp ∧
      (held.level side px qty).qtyExp = held.qtyExp := by
  cases side <;> exact ⟨rfl, rfl⟩

theorem clear_exponents {held held' : Instrument} {scope : ClearScope}
    (h : held.clear scope = some held') :
    held'.priceExp = held.priceExp ∧ held'.qtyExp = held.qtyExp := by
  cases scope with
  | bothSides =>
      cases h
      exact ⟨rfl, rfl⟩
  | entireSide side => cases side <;> (cases h; exact ⟨rfl, rfl⟩)
  | fromPrice side px =>
      obtain ⟨bound, _, h⟩ := Option.bind_eq_some_iff.mp h
      cases side <;> (cases h; exact ⟨rfl, rfl⟩)

/-! ## What is published of a delta -/

section

variable {d : DepthLowering} {instruments : InstrumentTable} {h : InstrumentRef}
  {inst : Lowering.Instrument}

theorem lowerLevel_eq_ok {sourceTsNs : UInt64} {side : Lowering.Side} {px qty : Scalar}
    {orderCount : Option UInt16} {presence : Presence} {l : Codec.LevelUpdate}
    (hget : instruments.get h = .ok inst)
    (hl : (d.lowerLevel instruments h sourceTsNs side px qty orderCount presence).1 = .ok l) :
    ∃ priceRaw qtyRaw, priceFor inst px "price" = .ok priceRaw ∧ qtyFor inst qty "qty" = .ok qtyRaw ∧
      l.instrumentId = inst.instrumentId ∧ l.side = side.byte ∧ l.priceRaw = Int64.ofInt priceRaw ∧
      l.qtyRaw = UInt64.ofNat qtyRaw.toNat := by
  rw [DepthLowering.lowerLevel, hget] at hl
  dsimp only at hl
  cases hprice : priceFor inst px "price" with
  | error e =>
      rw [hprice] at hl
      cases hl
  | ok priceRaw =>
      rw [hprice] at hl
      dsimp only at hl
      cases hqty : qtyFor inst qty "qty" with
      | error e =>
          rw [hqty] at hl
          cases hl
      | ok qtyRaw =>
          rw [hqty] at hl
          cases hl
          exact ⟨priceRaw, qtyRaw, rfl, rfl, rfl, rfl, rfl, rfl⟩

theorem lowerClear_eq_ok {sourceTsNs : UInt64} {scope : ClearScope} {c : Codec.BookClear}
    (hget : instruments.get h = .ok inst)
    (hc : (d.lowerClear instruments h sourceTsNs scope).1 = .ok c) :
    ∃ fields, DepthLowering.clearFields inst scope = .ok fields ∧
      c.instrumentId = inst.instrumentId ∧ c.clearSide = fields.1 ∧ c.scope = fields.2.1 ∧
      c.fromPriceRaw = Int64.ofInt fields.2.2 := by
  rw [DepthLowering.lowerClear, hget] at hc
  dsimp only at hc
  cases hfields : DepthLowering.clearFields inst scope with
  | error e =>
      rw [hfields] at hc
      cases hc
  | ok fields =>
      rw [hfields] at hc
      cases hc
      exact ⟨fields, rfl, rfl, rfl, rfl, rfl⟩

theorem clearFields_fits {scope : ClearScope} {fields : Byte × Byte × ℤ}
    (h : DepthLowering.clearFields inst scope = .ok fields) :
    I64_MIN ≤ fields.2.2 ∧ fields.2.2 ≤ I64_MAX := by
  cases scope with
  | bothSides =>
      cases h
      decide
  | entireSide side =>
      cases h
      change I64_MIN ≤ 0 ∧ 0 ≤ I64_MAX
      decide
  | fromPrice side px =>
      rw [DepthLowering.clearFields] at h
      cases hraw : priceFor inst px "from_price" with
      | error e =>
          rw [hraw] at h
          cases h
      | ok raw =>
          rw [hraw] at h
          cases h
          exact (priceFor_spec hraw).1

end

/-! ## One event -/

namespace Market

variable {m : Market} {inst : Lowering.Instrument} {s s' : Observers} {held : Instrument}

/-- The fold maps a payload and holds the instrument, at the exponents that the publisher has. -/
structure Watches (m : Market) (inst : Lowering.Instrument) (s : Observers) (held : Instrument) :
    Prop where
  inPayload : s.fold.inPayload.isSome
  holds : s.fold.instruments[m.handle.index.toNat]? = some held
  priceExp : held.priceExp = inst.priceExponent
  qtyExp : held.qtyExp = inst.qtyExponent

theorem Watches.agree_iff (hw : Watches m inst s held) :
    m.Agree s inst ↔ bookKey held.top = bookKey (m.bookTop s inst) := by
  rw [Agree, foldTop, hw.holds]
  exact Option.some_inj

theorem observe_eq_some {e : Event} (h : m.observe s e = some s') :
    ∃ message, (lower s.lowering m.instruments e).1 = .ok message ∧
      s'.book = apply s.book m.channel message ∧ s'.fold = s.fold.event (onHandle m.handle e) := by
  rw [observe] at h
  split at h
  next => cases h
  next message lowering hlower =>
    cases h
    exact ⟨message, by rw [hlower], rfl, rfl⟩

/-- The fold after an event that moved the levels of the instrument. -/
theorem Watches.moved {e : Event} {held' : Instrument} (hw : Watches m inst s held)
    (hfold : s'.fold = s.fold.event (onHandle m.handle e))
    (hhandle : Fold.bookHandle (onHandle m.handle e) = some m.handle)
    (hlevels : Fold.levelsAfter held (onHandle m.handle e) = some held')
    (hpriceExp : held'.priceExp = held.priceExp) (hqtyExp : held'.qtyExp = held.qtyExp) :
    Watches m inst s' { held' with established := true, top := held'.topOfLevels } := by
  have hevent := Fold.event_eq_moved hw.inPayload hhandle hw.holds hlevels
  rw [← hfold] at hevent
  constructor
  · rw [hevent, Fold.moved_inPayload]
    exact hw.inPayload
  · rw [hevent]
    exact Fold.getElem?_moved (f := { s.fold with eventCount := s.fold.eventCount + 1 }) hw.holds ..
  · exact hpriceExp.trans hw.priceExp
  · exact hqtyExp.trans hw.qtyExp

/-- **A quote** leaves the two with one book, whatever they held before. -/
theorem observe_quote {h : InstrumentRef} (hget : m.instruments.get h = .ok inst)
    (hw : Watches m inst s held) {e : Event} (hof : handleOf e = h) (hquote : isQuote e = true)
    (hkeeps : keeps inst e = true) (hs : m.observe s e = some s') :
    ∃ held', Watches m inst s' held' ∧ m.Agree s' inst := by
  cases e with
  | trade => cases hquote
  | level => cases hquote
  | clear => cases hquote
  | quote h' ts bid ask venueUpdateId =>
      subst hof
      obtain ⟨message, hlower, hbook, hfold⟩ := observe_eq_some hs
      obtain ⟨q, hq, rfl⟩ := map_eq_ok.mp hlower
      obtain ⟨b, a, hb, ha, hid, hbp, hbq, hbc, hap, haq, hac⟩ := lowerQuote_eq_ok hget hq
      rw [keeps, Bool.and_eq_true] at hkeeps
      obtain ⟨bidEntry, hbidOf, hbidSame⟩ := sideOf_lowered hb hkeeps.1
      obtain ⟨askEntry, haskOf, haskSame⟩ := sideOf_lowered ha hkeeps.2
      have hlevels : Fold.levelsAfter held (onHandle m.handle (.quote h' ts bid ask venueUpdateId)) =
          some (held.quote (sideAt bidEntry) (sideAt askEntry)) := by
        rw [onHandle, Fold.levelsAfter, hw.priceExp, hw.qtyExp, hbidOf, haskOf]
        rfl
      have hw' := hw.moved hfold rfl hlevels rfl rfl
      refine ⟨_, hw', hw'.agree_iff.mpr ?_⟩
      have htop : m.bookTop s' inst =
          ⟨sideOfQuote q.bidPrice.toInt q.bidQty.toNat q.bidSourceCount.toNat,
            sideOfQuote q.askPrice.toInt q.askQty.toNat q.askSourceCount.toNat⟩ := by
        rw [bookTop, hbook, apply, Recorder.Book.quote, Recorder.Book.book_update, readQuote, hid,
          if_pos rfl]
        rfl
      rw [htop, hbp, hbq, hbc, hap, haq, hac]
      refine bookKey_congr ?_ ?_
      · rw [topOfLevels_quote]
        exact hbidSame
      · rw [topOfLevels_quote]
        exact haskSame

/-- The book of the feed is anchored, and the fold holds its levels. -/
structure Follows (m : Market) (inst : Lowering.Instrument) (s : Observers) (held : Instrument) :
    Prop extends Watches m inst s held where
  established : (s.book.book ⟨m.channel, inst.instrumentId.toNat⟩).established = true
  mirrors : Mirrors held (s.book.book ⟨m.channel, inst.instrumentId.toNat⟩)

/-- The two books after a delta that left their levels alike. -/
theorem Watches.follows {held' : Instrument} {book : InstrumentBook}
    (hw : Watches m inst s' { held' with established := true, top := held'.topOfLevels })
    (hbook : s'.book.book ⟨m.channel, inst.instrumentId.toNat⟩ = book.recomputeTop)
    (hestablished : book.established = true) (hmirrors : Mirrors held' book) :
    ∃ held', Follows m inst s' held' ∧ m.Agree s' inst := by
  refine ⟨_, ⟨hw, ?_, ?_⟩, hw.agree_iff.mpr ?_⟩
  · rw [hbook]
    exact hestablished
  · rw [hbook]
    exact hmirrors
  · rw [bookTop, hbook, ← topOfLevels_mirrors hmirrors]

theorem observe_level {h : InstrumentRef} (hget : m.instruments.get h = .ok inst)
    (hf : Follows m inst s held) {ts : UInt64} {side : Lowering.Side} {px qty : Scalar}
    {orderCount : Option UInt16} {presence : Presence}
    (hkeeps : (inst.keepsPrice px && inst.keepsQty qty) = true)
    (hs : m.observe s (.level h ts side px qty orderCount presence) = some s') :
    ∃ held', Follows m inst s' held' ∧ m.Agree s' inst := by
  obtain ⟨message, hlower, hbook, hfold⟩ := observe_eq_some hs
  obtain ⟨l, hl, rfl⟩ := map_eq_ok.mp hlower
  obtain ⟨priceRaw, qtyRaw, hpx, hqty, hid, hside, hprice, hraw⟩ := lowerLevel_eq_ok hget hl
  rw [Bool.and_eq_true] at hkeeps
  obtain ⟨hfits, _, hsame⟩ := priceFor_spec hpx
  obtain ⟨hfits', _, hsame'⟩ := qtyFor_spec hqty
  have hlevels : Fold.levelsAfter held
      (onHandle m.handle (.level h ts side px qty orderCount presence)) =
        some (held.level side (readLevel l).priceRaw (readLevel l).qtyRaw) := by
    rw [onHandle, Fold.levelsAfter, hf.priceExp, hf.qtyExp, toOption_of_ok (hsame.mpr hkeeps.1),
      toOption_of_ok (hsame'.mpr hkeeps.2), readLevel, hprice, hraw, toInt_wire hfits,
      toNat_wire hfits']
    rfl
  obtain ⟨hpriceExp, hqtyExp⟩ := level_exponents held side (readLevel l).priceRaw (readLevel l).qtyRaw
  have hmoved := mirrors_level hf.mirrors side (readLevel l) (congrArg UInt8.toNat hside)
  refine (hf.moved hfold rfl hlevels hpriceExp hqtyExp).follows ?_ ?_ hmoved
  · rw [hbook, apply, Recorder.Book.level, Recorder.Book.book_update,
      if_pos (by rw [readLevel, hid]), readLevel, hid, InstrumentBook.level, hf.established]
    rfl
  · rw [InstrumentBook.applyLevel]
    dsimp only
    split <;> exact hf.established

theorem observe_clear {h : InstrumentRef} (hget : m.instruments.get h = .ok inst)
    (hf : Follows m inst s held) {ts : UInt64} {scope : ClearScope}
    (hkeeps : keepsScope inst scope = true)
    (hs : m.observe s (.clear h ts scope) = some s') :
    ∃ held', Follows m inst s' held' ∧ m.Agree s' inst := by
  obtain ⟨message, hlower, hbook, hfold⟩ := observe_eq_some hs
  obtain ⟨c, hc, rfl⟩ := map_eq_ok.mp hlower
  obtain ⟨fields, hfields, hid, hside, hscope, hfrom⟩ := lowerClear_eq_ok hget hc
  have hfrom' : (readClear c).fromPriceRaw = fields.2.2 := by
    rw [readClear, hfrom]
    exact toInt_wire (clearFields_fits hfields)
  obtain ⟨held', hclear, hmirrors⟩ := mirrors_clear hf.mirrors hf.priceExp hfields hkeeps
    (c := readClear c) (congrArg UInt8.toNat hside) (congrArg UInt8.toNat hscope) hfrom'
  obtain ⟨hpriceExp, hqtyExp⟩ := clear_exponents hclear
  refine (hf.moved hfold rfl hclear hpriceExp hqtyExp).follows ?_ ?_ hmirrors
  · rw [hbook, apply, Recorder.Book.clear, Recorder.Book.book_update,
      if_pos (by rw [readClear, hid]), readClear, hid, InstrumentBook.clear, hf.established]
    rfl
  · simp only [InstrumentBook.applyClear]
    split <;> split <;> exact hf.established

/-! ## A run -/

theorem observeAll_cons (s : Observers) (e : Event) (events : List Event) :
    m.observeAll s (e :: events) = (m.observe s e).bind fun s ↦ m.observeAll s events :=
  List.foldlM_cons

/-- Quotes leave the two with one book after each of them. -/
theorem quotes_agree {h : InstrumentRef} (hget : m.instruments.get h = .ok inst)
    {events : List Event} (hevents : ∀ e ∈ events, handleOf e = h ∧ isQuote e ∧ keeps inst e)
    (hne : events ≠ []) (hw : Watches m inst s held) (hs : m.observeAll s events = some s') :
    m.Agree s' inst := by
  induction events generalizing s held with
  | nil => exact absurd rfl hne
  | cons e events ih =>
      rw [observeAll_cons] at hs
      obtain ⟨mid, hmid, hs⟩ := Option.bind_eq_some_iff.mp hs
      obtain ⟨⟨hof, hquote, hkeeps⟩, hevents⟩ := List.forall_mem_cons.mp hevents
      obtain ⟨held', hw', hagree⟩ := observe_quote hget hw hof hquote hkeeps hmid
      cases events with
      | nil =>
          cases hs
          exact hagree
      | cons e' events => exact ih hevents (List.cons_ne_nil _ _) hw' hs

/-- Deltas that start from one book leave the two with one book after each of them. -/
theorem deltas_agree {h : InstrumentRef} (hget : m.instruments.get h = .ok inst)
    {events : List Event} (hevents : ∀ e ∈ events, handleOf e = h ∧ isDelta e ∧ keeps inst e)
    (hne : events ≠ []) (hf : Follows m inst s held) (hs : m.observeAll s events = some s') :
    m.Agree s' inst := by
  induction events generalizing s held with
  | nil => exact absurd rfl hne
  | cons e events ih =>
      rw [observeAll_cons] at hs
      obtain ⟨mid, hmid, hs⟩ := Option.bind_eq_some_iff.mp hs
      obtain ⟨⟨rfl, hdelta, hkeeps⟩, hevents⟩ := List.forall_mem_cons.mp hevents
      obtain ⟨held', hf', hagree⟩ : ∃ held', Follows m inst mid held' ∧ m.Agree mid inst := by
        cases e with
        | quote => cases hdelta
        | trade => cases hdelta
        | level => exact observe_level hget hf hkeeps hmid
        | clear => exact observe_clear hget hf hkeeps hmid
      cases events with
      | nil =>
          cases hs
          exact hagree
      | cons e' events => exact ih hevents (List.cons_ne_nil _ _) hf' hs

/-- The book of the feed is anchored and empty, and so are the levels of the fold. -/
structure StartsEmpty (m : Market) (inst : Lowering.Instrument) (s : Observers) (held : Instrument) :
    Prop where
  established : (s.book.book ⟨m.channel, inst.instrumentId.toNat⟩).established = true
  bookBids : (s.book.book ⟨m.channel, inst.instrumentId.toNat⟩).bids = ∅
  bookAsks : (s.book.book ⟨m.channel, inst.instrumentId.toNat⟩).asks = ∅
  bids : held.bids = ∅
  asks : held.asks = ∅

theorem StartsEmpty.follows (hempty : StartsEmpty m inst s held) (hw : Watches m inst s held) :
    Follows m inst s held := by
  refine ⟨hw, hempty.established, ?_, ?_⟩
  · rw [hempty.bids, hempty.bookBids, asResting_empty]
  · rw [hempty.asks, hempty.bookAsks, asResting_empty]

/-- **Two observers of one market hold one book** after each event of a run, of quotes or of deltas
from an empty book, whose numbers are all published as they are stated. -/
theorem observers_run {h : InstrumentRef} (hget : m.instruments.get h = .ok inst)
    (hw : Watches m inst s held) {events : List Event} (hof : ∀ e ∈ events, handleOf e = h)
    (hkinds : (∀ e ∈ events, isQuote e) ∨ (∀ e ∈ events, isDelta e) ∧ StartsEmpty m inst s held)
    (hkeeps : ∀ e ∈ events, keeps inst e) {done : List Event} (hdone : done <+: events)
    (hne : done ≠ []) (hs : m.observeAll s done = some s') : m.Agree s' inst := by
  have hmem {e : Event} (he : e ∈ done) : e ∈ events := hdone.subset he
  rcases hkinds with hquotes | ⟨hdeltas, hempty⟩
  · exact quotes_agree hget (fun e he ↦ ⟨hof e (hmem he), hquotes e (hmem he), hkeeps e (hmem he)⟩)
      hne hw hs
  · exact deltas_agree hget (fun e he ↦ ⟨hof e (hmem he), hdeltas e (hmem he), hkeeps e (hmem he)⟩)
      hne (hempty.follows hw) hs

end Market

/-! ## Two markets -/

/-- A listing whose contract is a thousand of the underlying, or which has none. -/
def exampleSpec (contract : Option Scalar) : Refdata.InstrumentSpec where
  symbol := [65]
  assetClass := .perpetualFuture
  priceExponent := -2
  qtyExponent := 0
  marketModel := .clob
  tickSize := .fixed 1 (-2)
  lotSize := .fixed 1 0
  quotedPerContract := contract
  settleType := .cash
  priceBound := .unbounded

def exampleInstrument (contract : Option ContractSize) : Lowering.Instrument := ⟨7, -2, 0, contract⟩

def exampleMarket (contract : Option ContractSize) : Market where
  instruments := (InstrumentTable.new.admitInstrument (exampleInstrument contract)).2
  channel := ⟨1, 1⟩
  handle := ⟨0⟩

/-- A book that a snapshot without levels has anchored. -/
def exampleBook : Recorder.Book :=
  let begun := ({} : Recorder.Book).snapshotBegin ⟨1, 1⟩ ⟨7, 0, 0, 1, 0⟩
  (begun.snapshotEnd ⟨1, 1⟩ ⟨7, 0, 1⟩).1

theorem exampleBook_empty :
    (exampleBook.book ⟨⟨1, 1⟩, 7⟩).established = true ∧
      (exampleBook.book ⟨⟨1, 1⟩, 7⟩).bids = ∅ ∧ (exampleBook.book ⟨⟨1, 1⟩, 7⟩).asks = ∅ := by
  rw [← ExtTreeMap.isEmpty_iff, ← ExtTreeMap.isEmpty_iff]
  decide +kernel

def exampleStart (contract : Option Scalar) : Observers where
  lowering := { sourceId := .first }
  book := exampleBook
  fold := (({} : Fold).listOn (exampleSpec contract)).1.payloadScope (some 0)

/-- The listing that the fold holds. -/
def exampleHeld : Instrument := { symbol := [65], priceExp := -2, qtyExp := 0 }

theorem example_starts (contract : Option ContractSize) (stated : Option Scalar) :
    Market.Watches (exampleMarket contract) (exampleInstrument contract) (exampleStart stated) exampleHeld ∧
      Market.StartsEmpty (exampleMarket contract) (exampleInstrument contract) (exampleStart stated)
        exampleHeld := by
  obtain ⟨hestablished, hbids, hasks⟩ := exampleBook_empty
  exact ⟨⟨rfl, rfl, rfl, rfl⟩, ⟨hestablished, hbids, hasks, rfl, rfl⟩⟩

/-- Depth from two sides, and a clear that is bounded by a price. -/
def exampleDeltas : List Event := [
  .level ⟨0⟩ 0 .bid (.fixed 1005 (-2)) (.fixed 3 0) none .new,
  .level ⟨0⟩ 0 .ask (.fixed 11 0) (.fixed 2 0) none .new,
  .clear ⟨0⟩ 0 (.fromPrice .bid (.fixed 10 0))]

theorem observers_run_deltas :
    ∃ s', (exampleMarket none).observeAll (exampleStart none) exampleDeltas = some s' ∧
      (exampleMarket none).Agree s' (exampleInstrument none) := by
  obtain ⟨s', hs⟩ := Option.isSome_iff_exists.mp
    (show ((exampleMarket none).observeAll (exampleStart none) exampleDeltas).isSome by
      decide +kernel)
  obtain ⟨hw, hempty⟩ := example_starts none none
  exact ⟨s', hs, Market.observers_run (h := ⟨0⟩) rfl hw (by decide) (.inr ⟨by decide, hempty⟩)
    (by decide) List.prefix_rfl (List.cons_ne_nil _ _) hs⟩

instance (m : Market) (s : Observers) (inst : Lowering.Instrument) : Decidable (m.Agree s inst) :=
  inferInstanceAs (Decidable (_ = _))

/-- A bid of nothing at zero, and an ask for ten contracts at a thousand of the underlying. -/
theorem observers_disagree :
    (∃ s', (exampleMarket none).observeAll (exampleStart none)
        [.quote ⟨0⟩ 0 (.present (.fixed 0 0) (.fixed 0 0) none) .gone none] = some s' ∧
      ¬(exampleMarket none).Agree s' (exampleInstrument none)) ∧
    ∃ s', (exampleMarket (some ⟨1000, 0, by decide⟩)).observeAll (exampleStart (some (.fixed 1000 0)))
        [.level ⟨0⟩ 0 .ask (.fixed 50000 0) (.fixed 10 0) none .new] = some s' ∧
      ¬(exampleMarket (some ⟨1000, 0, by decide⟩)).Agree s'
        (exampleInstrument (some ⟨1000, 0, by decide⟩)) := by
  have hrun {m : Market} {inst : Lowering.Instrument} {s : Observers} {events : List Event}
      (h : ((m.observeAll s events).any fun s' ↦ !decide (m.Agree s' inst)) = true) :
      ∃ s', m.observeAll s events = some s' ∧ ¬m.Agree s' inst := by
    obtain ⟨s', hs, hnot⟩ := (Option.any_eq_true _ _).mp h
    rw [Bool.not_eq_true', decide_eq_false_iff_not] at hnot
    exact ⟨s', hs, hnot⟩
  exact ⟨hrun (by decide +kernel), hrun (by decide +kernel)⟩

end EdgeMulticast.Venue
