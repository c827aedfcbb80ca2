import EdgeMulticast.Lib.Run
import EdgeMulticast.Venue.Adapter
import EdgeMulticast.Venue.Fold
import Mathlib.Data.List.Destutter

/-!
# The story that the rows of an object tell

`derive_venue_object` (`derive.rs`, `dz-recorder-venue`): an adapter is driven over an archived
object, and each change of a listing's top is a row.

The calls that an adapter makes and the state of the fold that each of them met are kept beside the
fold, which the source does not do; the write of the rows is left out.
-/

namespace EdgeMulticast.Venue

open Std (ExtTreeMap)
open EdgeMulticast.Lib
open EdgeMulticast.Lowering (Desync InstrumentRef)
open EdgeMulticast.Recorder (Top)
open EdgeMulticast.Refdata (InstrumentSpec)
open EdgeMulticast.Uds (Event)

/-! ## Objects -/

/-- A message, as it was archived. -/
structure ArchivedMessage where
  connection : List Byte
  recvTsNs : ℕ
  bytes : List Byte

/-- An object: its messages, and why it cannot be read beyond them if it cannot. -/
structure VenueObject (ε : Type) where
  objectKey : String
  connection : List Byte → Option ℕ
  messages : List ArchivedMessage
  unreadable : Option ε

inductive DeriveError (ε : Type) where
  | format (e : ε)
  | undeclaredConnection (objectKey : String) (connection : List Byte)
  | emptyObject (objectKey : String)

/-- What one object produced. -/
structure Derived where
  messageCount : ℕ
  refusedCount : ℕ
  refusals : List (String × ℕ)
  eventCount : ℕ
  unpricedCount : ℕ
  unknownInstrumentCount : ℕ
  desyncCount : ℕ
  unattributedCount : ℕ
  bookTopCount : ℕ
  instrumentCount : ℕ

def Fold.derived (f : Fold) : Derived where
  messageCount := f.messageCount
  refusedCount := f.refusedCount
  refusals := f.refusals.toList
  eventCount := f.eventCount
  unpricedCount := f.unpricedCount
  unknownInstrumentCount := f.unknownInstrumentCount
  desyncCount := f.desyncCount
  unattributedCount := f.unattributedCount
  bookTopCount := f.rows.length
  instrumentCount := min f.instruments.length (2 ^ 32 - 1)

/-! ## Calls -/

/-- A call on the fold, by the adapter or by what drives it. -/
inductive Call where
  | listOn (spec : InstrumentSpec)
  | delist (h : InstrumentRef)
  | beginMessage (index : ℕ) (connection : List Byte) (recvTsNs : ℕ)
  | endMessage
  | refuse (reason : String)
  | sink (c : SinkCall)

namespace Fold

def tell (f : Fold) : SinkCall → Fold
  | .upstreamMessage => f.upstreamMessage
  | .upstreamIdentity sid seq => f.upstreamIdentity sid seq
  | .payloadScope recvTsNs => f.payloadScope recvTsNs
  | .desynchronised h reason => f.desynchronised h reason
  | .event e => f.event e

def call (f : Fold) : Call → Fold
  | .listOn spec => (f.listOn spec).1
  | .delist h => f.delist h
  | .beginMessage index connection recvTsNs => f.beginMessage index connection recvTsNs
  | .endMessage => f.endMessage
  | .refuse reason => f.refuse reason
  | .sink c => f.tell c

end Fold

/-- A fold, and the calls that made it with the state each of them met. -/
structure Told where
  fold : Fold := {}
  past : List (Fold × Call) := []

def Told.call (t : Told) (c : Call) : Told := ⟨t.fold.call c, t.past ++ [(t.fold, c)]⟩

/-! ## The derivation -/

/-- A poll, answered by the fold. -/
def Poll.on {α : Type} : Poll α → Told → α × Told
  | .done adapter, t => (adapter, t)
  | .listOn _ spec next, t => (next (t.fold.listOn spec).2).on (t.call (.listOn spec))
  | .delist h next, t => next.on (t.call (.delist h))
  -- a fold keeps no strikes
  | .strike _ _ next, t => next.on t

namespace Adapter

variable {α ε : Type} (A : Adapter α)

/-- One message, on a connection. -/
def onMessage (index : ℕ) (m : ArchivedMessage) (connection : ℕ) (adapter : α) (t : Told) :
    α × Told :=
  let mapped := A.onPayload adapter ⟨m.bytes, m.recvTsNs, connection⟩
  let t := t.call (.beginMessage index m.connection m.recvTsNs)
  let t := t.call (.sink (.payloadScope (some m.recvTsNs)))
  let t := run Told.call t (mapped.1.map .sink)
  let t := t.call (.sink (.payloadScope none))
  let t := run Told.call t (mapped.2.1.map fun e ↦ .refuse e.asStr).toList
  (mapped.2.2, t.call .endMessage)

/-- The loop over an object's messages, from one of them on. -/
def read (object : VenueObject ε) :
    List ArchivedMessage → ℕ → α → Told → Except (DeriveError ε) Unit × Told
  | [], _, adapter, t =>
      let polled := (A.pollListings adapter).on t
      match object.unreadable with
      | some e => (.error (.format e), polled.2)
      | none => (.ok (), polled.2)
  | m :: messages, index, adapter, t =>
      let polled := (A.pollListings adapter).on t
      match object.connection m.connection with
      | none => (.error (.undeclaredConnection object.objectKey m.connection), polled.2)
      | some connection =>
          let mapped := A.onMessage index m connection polled.1 polled.2
          read object messages (index + 1) mapped.1 mapped.2

/-- The fold of an object, read from its start. -/
def told (object : VenueObject ε) (adapter : α) : Except (DeriveError ε) Unit × Told :=
  A.read object object.messages 0 adapter {}

/-- Drives an adapter over an object: the rows it is to write, and the counts. -/
def deriveVenueObject (object : VenueObject ε) (adapter : α) :
    Except (DeriveError ε) (List VenueBookTop × Derived) :=
  match A.told object adapter with
  | (.error e, _) => .error e
  | (.ok (), t) =>
      if t.fold.messageCount = 0 then .error (.emptyObject object.objectKey)
      else .ok (t.fold.rows, t.fold.derived)

end Adapter

/-! ## What a call does -/

/-- The row that a call writes, if it writes one. -/
def written (x : Fold × Call) : Option VenueBookTop :=
  ((x.1.call x.2).rows.drop x.1.rows.length).head?

/-- The handle whose book a call is about. -/
def Call.handle : Call → Option ℕ
  | .sink (.event e) => (Fold.bookHandle e).map fun h ↦ h.index.toNat
  | _ => none

/-- The top of a listing that stands. -/
def Fold.standing (f : Fold) (h : ℕ) : Option Top :=
  (f.instruments[h]?).bind fun held ↦ if held.delisted then none else some held.top

namespace Fold

variable (f : Fold)

theorem levelsAfter_frame {held held' : Instrument} {e : Event}
    (h : levelsAfter held e = some held') :
    held'.symbol = held.symbol ∧ held'.priceExp = held.priceExp ∧ held'.qtyExp = held.qtyExp ∧
      held'.delisted = held.delisted := by
  cases e with
  | quote _ _ bid ask =>
      simp only [levelsAfter, Option.bind_eq_bind, Option.bind_eq_some_iff] at h
      obtain ⟨_, -, _, -, h⟩ := h
      obtain rfl := Option.some.inj h
      exact ⟨rfl, rfl, rfl, rfl⟩
  | trade =>
      obtain rfl := Option.some.inj h
      exact ⟨rfl, rfl, rfl, rfl⟩
  | level _ _ side =>
      simp only [levelsAfter, Option.bind_eq_bind, Option.bind_eq_some_iff] at h
      obtain ⟨_, -, _, -, h⟩ := h
      obtain rfl := Option.some.inj h
      cases side <;> exact ⟨rfl, rfl, rfl, rfl⟩
  | clear _ _ scope =>
      cases scope with
      | bothSides =>
          obtain rfl := Option.some.inj h
          exact ⟨rfl, rfl, rfl, rfl⟩
      | entireSide side =>
          cases side <;> obtain rfl := Option.some.inj h <;> exact ⟨rfl, rfl, rfl, rfl⟩
      | fromPrice side px =>
          simp only [levelsAfter, Instrument.clear, Option.bind_eq_bind,
            Option.bind_eq_some_iff] at h
          obtain ⟨_, -, h⟩ := h
          obtain rfl := Option.some.inj h
          cases side <;> exact ⟨rfl, rfl, rfl, rfl⟩

/-- The listing of a handle after an event that moved its levels. -/
def applied (held : Instrument) : Instrument :=
  { held with established := true, top := held.topOfLevels }

/-- A move writes the row of a top that is another, for a listing that stands. -/
theorem moved_eq {handle : ℕ} (hlt : handle < f.instruments.length) (was : Top)
    (held : Instrument) :
    f.moved handle was held =
      if held.delisted = true ∨ held.topOfLevels = was then
        { f with instruments := f.instruments.set handle (applied held) }
      else
        { f with
          instruments := f.instruments.set handle (applied held)
          rows := f.rows ++ [f.row (applied held)], changeIndex := f.changeIndex + 1 } := by
  rw [moved, settle]
  dsimp only
  rw [List.getElem?_set_self hlt]
  dsimp only
  by_cases hdelisted : held.delisted = true
  · rw [if_pos hdelisted, if_pos (.inl hdelisted)]
    rfl
  · rw [if_neg hdelisted]
    by_cases hwas : held.topOfLevels = was
    · rw [if_pos hwas, if_pos (.inr hwas)]
      rfl
    · rw [if_neg hwas, if_neg (not_or.mpr ⟨hdelisted, hwas⟩)]
      rfl

/-- What an event comes to: it is outside of a payload, it moves no book, or it moves the one of its
handle. -/
inductive Effect (e : Event) : Fold → Prop
  | outside (h : f.inPayload = none) :
      Effect e { f with unattributedCount := f.unattributedCount + 1 }
  | still (unknown unpriced : ℕ) (h : f.inPayload ≠ none) :
      Effect e { f with
        eventCount := f.eventCount + 1, unknownInstrumentCount := unknown
        unpricedCount := unpriced }
  | moves {h : InstrumentRef} {held held' : Instrument} (hpayload : f.inPayload ≠ none)
      (hhandle : bookHandle e = some h) (hheld : f.instruments[h.index.toNat]? = some held)
      (hlevels : levelsAfter held e = some held') :
      Effect e ({ f with eventCount := f.eventCount + 1 }.moved h.index.toNat held.top held')

theorem event_effect (e : Event) : f.Effect e (f.event e) := by
  rw [event]
  split
  next hnone => exact .outside (Option.isNone_iff_eq_none.mp hnone)
  next hsome =>
      have hpayload : f.inPayload ≠ none := fun h ↦ hsome (Option.isNone_iff_eq_none.mpr h)
      cases hhandle : bookHandle e with
      | none => exact .still f.unknownInstrumentCount f.unpricedCount hpayload
      | some h =>
          dsimp only
          cases hheld : f.instruments[h.index.toNat]? with
          | none => exact .still (f.unknownInstrumentCount + 1) f.unpricedCount hpayload
          | some held =>
              dsimp only
              cases hlevels : levelsAfter held e with
              | none => exact .still f.unknownInstrumentCount (f.unpricedCount + 1) hpayload
              | some held' => exact .moves hpayload hhandle hheld hlevels

/-- An event writes the row of its own listing's new top, or none. -/
theorem event_rows (e : Event) :
    ((f.event e).rows = f.rows ∧ (f.event e).changeIndex = f.changeIndex ∧
        ∀ h, (f.event e).standing h = f.standing h) ∨
      ∃ h held was, (bookHandle e).map (fun h ↦ h.index.toNat) = some h ∧
        f.inPayload ≠ none ∧ f.standing h = some was ∧ held.top ≠ was ∧
        (f.event e).rows = f.rows ++ [f.row held] ∧
        (f.event e).changeIndex = f.changeIndex + 1 ∧ (f.event e).standing h = some held.top ∧
        (∃ old, f.instruments[h]? = some old ∧ held.symbol = old.symbol ∧
          held.priceExp = old.priceExp ∧ held.qtyExp = old.qtyExp) ∧
        ∀ h', h' ≠ h → (f.event e).standing h' = f.standing h' := by
  have heffect := f.event_effect e
  generalize f.event e = f' at heffect
  cases heffect with
  | outside => exact .inl ⟨rfl, rfl, fun _ ↦ rfl⟩
  | still => exact .inl ⟨rfl, rfl, fun _ ↦ rfl⟩
  | @moves h held held' hpayload hhandle hheld hlevels =>
      obtain ⟨hsymbol, hprice, hqty, hdelisted⟩ := levelsAfter_frame hlevels
      have hlt := (List.getElem?_eq_some_iff.mp hheld).1
      have hother {g : Fold} (hset : g.instruments =
          f.instruments.set h.index.toNat (applied held')) {h' : ℕ} (hne : h' ≠ h.index.toNat) :
          g.standing h' = f.standing h' := by
        rw [standing, standing, hset, List.getElem?_set_ne hne.symm]
      have hown {g : Fold} (hset : g.instruments =
          f.instruments.set h.index.toNat (applied held')) :
          g.standing h.index.toNat =
            if held.delisted then none else some held'.topOfLevels := by
        rw [standing, hset, List.getElem?_set_self hlt, ← hdelisted]
        rfl
      have hwas : f.standing h.index.toNat = if held.delisted then none else some held.top := by
        rw [standing, hheld]
        rfl
      rw [moved_eq { f with eventCount := f.eventCount + 1 } hlt]
      split
      next hsame =>
          refine .inl ⟨rfl, rfl, fun h' ↦ ?_⟩
          by_cases hh : h' = h.index.toNat
          · subst hh
            rw [hown rfl, hwas]
            rcases hsame with hd | ht
            · rw [← hdelisted, if_pos hd, if_pos hd]
            · rw [ht]
          · exact hother rfl hh
      next hmoved =>
          obtain ⟨hd, ht⟩ := not_or.mp hmoved
          rw [hdelisted] at hd
          rw [if_neg hd] at hwas
          refine .inr ⟨h.index.toNat, applied held', held.top, by rw [hhandle]; rfl, hpayload, hwas, ht,
            rfl, rfl, ?_, ⟨held, hheld, hsymbol, hprice, hqty⟩, fun h' hne ↦ hother rfl hne⟩
          rw [hown rfl, if_neg hd]
          rfl

/-- What is asked of the listings leaves each as it was, withdraws one or admits one. -/
theorem standing_listOn (spec : InstrumentSpec) (h : ℕ) :
    (f.listOn spec).1.standing h = f.standing h ∨
      (f.instruments.length ≤ h ∧ (f.listOn spec).1.standing h = some {}) := by
  rw [listOn]
  split
  next => exact .inl rfl
  next =>
      dsimp only
      split
      next => exact .inl rfl
      next =>
          rcases lt_trichotomy h f.instruments.length with hlt | rfl | hlt
          · refine .inl ?_
            rw [standing, standing, List.getElem?_append_left hlt]
          · refine .inr ⟨Nat.le_refl _, ?_⟩
            rw [standing, List.getElem?_concat_length]
            rfl
          · refine .inl ?_
            rw [standing, standing, List.getElem?_eq_none hlt.le,
              List.getElem?_eq_none (by rw [List.length_append, List.length_singleton]; omega)]

theorem instruments_delist (h : InstrumentRef) :
    (f.delist h).instruments = f.instruments ∨ ∃ held,
      f.instruments[h.index.toNat]? = some held ∧
        (f.delist h).instruments = f.instruments.set h.index.toNat held.withdrawn := by
  rw [delist]
  split
  next => exact .inl rfl
  next held hheld =>
      dsimp only
      refine .inr ⟨held, hheld, ?_⟩
      split <;> rfl

theorem standing_delist (h : InstrumentRef) (h' : ℕ) :
    (f.delist h).standing h' = f.standing h' ∨ (f.delist h).standing h' = none := by
  rcases f.instruments_delist h with heq | ⟨held, hheld, heq⟩
  · exact .inl (by rw [standing, standing, heq])
  · by_cases hh : h' = h.index.toNat
    · refine .inr ?_
      rw [hh, standing, heq, List.getElem?_set_self (List.getElem?_eq_some_iff.mp hheld).1]
      rfl
    · refine .inl ?_
      rw [standing, standing, heq, List.getElem?_set_ne (Ne.symm hh)]

/-- Listings change the listings. -/
theorem listOn_frame (spec : InstrumentSpec) : ∃ instruments bySymbol,
    (f.listOn spec).1 = { f with instruments := instruments, bySymbol := bySymbol } := by
  rw [listOn]
  split
  · exact ⟨f.instruments, f.bySymbol, rfl⟩
  · dsimp only
    split
    · exact ⟨f.instruments, f.bySymbol, rfl⟩
    · exact ⟨_, _, rfl⟩

theorem delist_frame (h : InstrumentRef) : ∃ instruments bySymbol,
    f.delist h = { f with instruments := instruments, bySymbol := bySymbol } := by
  rw [delist]
  split
  · exact ⟨f.instruments, f.bySymbol, rfl⟩
  · dsimp only
    split
    · exact ⟨_, _, rfl⟩
    · exact ⟨_, f.bySymbol, rfl⟩

theorem rows_listOn (spec : InstrumentSpec) : (f.listOn spec).1.rows = f.rows := by
  obtain ⟨instruments, bySymbol, heq⟩ := f.listOn_frame spec
  rw [heq]

theorem rows_delist (h : InstrumentRef) : (f.delist h).rows = f.rows := by
  obtain ⟨instruments, bySymbol, heq⟩ := f.delist_frame h
  rw [heq]

/-- What one call does to the rows and to the tops of the listings that stand. -/
inductive Does (c : Call) : Prop
  | quiet (hrows : (f.call c).rows = f.rows)
      (hstand : ∀ h, (f.call c).standing h = f.standing h ∨ (f.call c).standing h = none ∨
        (f.instruments.length ≤ h ∧ (f.call c).standing h = some {}))
  | wrote {h : ℕ} {held : Instrument} {was : Top} (hhandle : c.handle = some h)
      (hwas : f.standing h = some was) (hmoved : held.top ≠ was)
      (hrows : (f.call c).rows = f.rows ++ [f.row held])
      (hchange : (f.call c).changeIndex = f.changeIndex + 1)
      (hstand : (f.call c).standing h = some held.top)
      (hsame : ∃ old, f.instruments[h]? = some old ∧ held.symbol = old.symbol ∧
        held.priceExp = old.priceExp ∧ held.qtyExp = old.qtyExp)
      (hother : ∀ h', h' ≠ h → (f.call c).standing h' = f.standing h')

theorem call_does (c : Call) : f.Does c := by
  cases c with
  | listOn spec =>
      refine .quiet (f.rows_listOn spec) fun h ↦ ?_
      rcases f.standing_listOn spec h with hsame | hnew
      · exact .inl hsame
      · exact .inr (.inr hnew)
  | delist h =>
      refine .quiet (f.rows_delist h) fun h' ↦ ?_
      rcases f.standing_delist h h' with hsame | hnone
      · exact .inl hsame
      · exact .inr (.inl hnone)
  | beginMessage => exact .quiet rfl fun _ ↦ .inl rfl
  | endMessage => exact .quiet rfl fun _ ↦ .inl rfl
  | refuse => exact .quiet rfl fun _ ↦ .inl rfl
  | sink c =>
      cases c with
      | upstreamMessage => exact .quiet rfl fun _ ↦ .inl rfl
      | upstreamIdentity => exact .quiet rfl fun _ ↦ .inl rfl
      | payloadScope => exact .quiet rfl fun _ ↦ .inl rfl
      | desynchronised => exact .quiet rfl fun _ ↦ .inl rfl
      | event e =>
          rcases f.event_rows e with ⟨hrows, -, hstand⟩ |
            ⟨h, held, was, hh, -, hwas, hmoved, hrows, hchange, hstand, hsame, hother⟩
          · exact .quiet hrows fun h ↦ .inl (hstand h)
          · exact .wrote hh hwas hmoved hrows hchange hstand hsame hother

/-- An event changes the listing of its handle, or none. -/
theorem instruments_event (e : Event) :
    (f.event e).instruments = f.instruments ∨ ∃ h held held',
      f.inPayload ≠ none ∧ (bookHandle e).map (fun h ↦ h.index.toNat) = some h ∧
        f.instruments[h]? = some held ∧ levelsAfter held e = some held' ∧
        (f.event e).instruments = f.instruments.set h (applied held') := by
  have heffect := f.event_effect e
  generalize f.event e = f' at heffect
  cases heffect with
  | outside => exact .inl rfl
  | still => exact .inl rfl
  | @moves h held held' hpayload hhandle hheld hlevels =>
      refine .inr ⟨h.index.toNat, held, held', hpayload, by rw [hhandle]; rfl, hheld, hlevels, ?_⟩
      rw [moved, settle_instruments]
      rfl

/-- A listing is named so, whether it stands or not. -/
def Names (h : ℕ) (symbol : List Byte) (priceExp qtyExp : Int8) : Prop :=
  ∃ held, f.instruments[h]? = some held ∧ held.symbol = symbol ∧ held.priceExp = priceExp ∧
    held.qtyExp = qtyExp

variable {f} {h : ℕ} {symbol : List Byte} {priceExp qtyExp : Int8}

theorem Names.of_prefix {f' : Fold} (hn : f.Names h symbol priceExp qtyExp)
    (hp : f.instruments <+: f'.instruments) : f'.Names h symbol priceExp qtyExp := by
  obtain ⟨held, hheld, hsame⟩ := hn
  obtain ⟨more, hmore⟩ := hp
  refine ⟨held, ?_, hsame⟩
  rw [← hmore, List.getElem?_append_left (List.getElem?_eq_some_iff.mp hheld).1, hheld]

/-- Another listing in the place of one, of the same name. -/
theorem Names.of_set {f' : Fold} {place : ℕ} {old new : Instrument}
    (hn : f.Names h symbol priceExp qtyExp)
    (hset : f'.instruments = f.instruments.set place new) (hold : f.instruments[place]? = some old)
    (hnew : new.symbol = old.symbol ∧ new.priceExp = old.priceExp ∧ new.qtyExp = old.qtyExp) :
    f'.Names h symbol priceExp qtyExp := by
  obtain ⟨held, hheld, hsymbol, hprice, hqty⟩ := hn
  by_cases hh : h = place
  · subst hh
    obtain rfl := Option.some.inj (hold.symm.trans hheld)
    refine ⟨new, ?_, hnew.1.trans hsymbol, hnew.2.1.trans hprice, hnew.2.2.trans hqty⟩
    rw [hset, List.getElem?_set_self (List.getElem?_eq_some_iff.mp hheld).1]
  · exact ⟨held, by rw [hset, List.getElem?_set_ne (Ne.symm hh), hheld], hsymbol, hprice, hqty⟩

theorem instruments_listOn (f : Fold) (spec : InstrumentSpec) :
    f.instruments <+: (f.listOn spec).1.instruments := by
  rw [listOn]
  split
  · exact List.prefix_refl _
  · dsimp only
    split
    · exact List.prefix_refl _
    · exact List.prefix_append _ _

theorem Names.call (hn : f.Names h symbol priceExp qtyExp) (c : Call) :
    (f.call c).Names h symbol priceExp qtyExp := by
  cases c with
  | listOn spec => exact hn.of_prefix (f.instruments_listOn spec)
  | delist h' =>
      rcases f.instruments_delist h' with heq | ⟨held, hheld, heq⟩
      · exact hn.of_prefix (heq ▸ List.prefix_refl _)
      · exact hn.of_set heq hheld ⟨rfl, rfl, rfl⟩
  | beginMessage => exact hn
  | endMessage => exact hn
  | refuse => exact hn
  | sink c =>
      cases c with
      | upstreamMessage => exact hn
      | upstreamIdentity => exact hn
      | payloadScope => exact hn
      | desynchronised => exact hn
      | event e =>
          rcases f.instruments_event e with heq | ⟨h', held, held', -, -, hheld, hlevels, heq⟩
          · exact hn.of_prefix (heq ▸ List.prefix_refl _)
          · obtain ⟨hsymbol, hprice, hqty, -⟩ := levelsAfter_frame hlevels
            exact hn.of_set heq hheld ⟨hsymbol, hprice, hqty⟩

theorem length_call (f : Fold) (c : Call) :
    f.instruments.length ≤ (f.call c).instruments.length := by
  by_contra hlt
  rw [not_le] at hlt
  have hsome : f.Names (f.call c).instruments.length _ _ _ :=
    ⟨_, List.getElem?_eq_getElem hlt, rfl, rfl, rfl⟩
  obtain ⟨held, hheld, -⟩ := hsome.call c
  exact absurd (List.getElem?_eq_some_iff.mp hheld).1 (Nat.lt_irrefl _)

end Fold

/-! ## Rows under an admission -/

/-- What a run of values becomes when one more follows it: it stays, if the value is the last. -/
theorem destutter'_ne_concat {β : Type*} [DecidableEq β] (a : β) (l : List β) (b : β) :
    (l ++ [b]).destutter' (· ≠ ·) a =
      l.destutter' (· ≠ ·) a ++ if b = l.getLast?.getD a then [] else [b] := by
  induction l generalizing a with
  | nil =>
      rw [List.nil_append, List.destutter'_singleton, List.destutter'_nil, List.getLast?_nil,
        Option.getD_none]
      by_cases h : b = a
      · rw [if_neg (not_not.mpr h.symm), if_pos h, List.append_nil]
      · rw [if_pos (Ne.symm h), if_neg h]
        rfl
  | cons c l ih =>
      rw [List.cons_append, List.getLast?_cons, Option.getD_some]
      by_cases h : a = c
      · subst h
        rw [List.destutter'_cons_neg _ (not_not.mpr rfl), List.destutter'_cons_neg _ (not_not.mpr rfl),
          ih]
      · rw [List.destutter'_cons_pos _ h, List.destutter'_cons_pos _ h, ih, List.cons_append]

theorem getLast?_destutter'_ne {β : Type*} [DecidableEq β] (a : β) (l : List β) :
    (l.destutter' (· ≠ ·) a).getLast? = some (l.getLast?.getD a) := by
  induction l using List.reverseRecOn with
  | nil => rfl
  | append_singleton l b ih =>
      rw [destutter'_ne_concat, List.getLast?_concat, Option.getD_some]
      split
      next h => rw [List.append_nil, ih, h]
      next => rw [List.getLast?_concat]

/-- The rows that calls about a handle wrote. -/
def rowsUnder (h : ℕ) (past : List (Fold × Call)) : List VenueBookTop :=
  past.filterMap fun x ↦ if x.2.handle = some h then written x else none

/-- The tops of a listing behind each call, while it stands. -/
def tops (h : ℕ) (past : List (Fold × Call)) : List Top :=
  past.filterMap fun x ↦ (x.1.call x.2).standing h

section

variable (past : List (Fold × Call)) (f : Fold) (c : Call) (h : ℕ)

theorem rowsUnder_concat : rowsUnder h (past ++ [(f, c)]) =
    rowsUnder h past ++ (if c.handle = some h then written (f, c) else none).toList := by
  rw [rowsUnder, List.filterMap_append, ← rowsUnder]
  cases hw : (if c.handle = some h then written (f, c) else none) <;> simp [hw]

theorem tops_concat :
    tops h (past ++ [(f, c)]) = tops h past ++ ((f.call c).standing h).toList := by
  rw [tops, List.filterMap_append, ← tops]
  cases hs : (f.call c).standing h <;> simp [hs]

theorem written_of_eq (hrows : (f.call c).rows = f.rows) : written (f, c) = none := by
  simp [written, hrows]

theorem written_of_concat {row : VenueBookTop} (hrows : (f.call c).rows = f.rows ++ [row]) :
    written (f, c) = some row := by
  simp [written, hrows]

end

/-- The rows so far tell of each listing what its top has been. -/
structure Tells (t : Told) : Prop where
  /-- A listing's top is the last it was seen with. -/
  stands : ∀ h top, t.fold.standing h = some top → (tops h t.past).getLast?.getD {} = top
  /-- A handle that is not minted has had no top. -/
  fresh : ∀ h, t.fold.instruments.length ≤ h → tops h t.past = []
  changes : ∀ h, {} :: (rowsUnder h t.past).map (·.top) =
    ({} :: tops h t.past).destutter (· ≠ ·)
  named : ∀ h, ∀ row ∈ rowsUnder h t.past,
    t.fold.Names h row.symbol row.priceExp row.qtyExp
  rows : t.fold.rows = t.past.filterMap written

namespace Tells

variable {t : Told}

theorem start : Tells {} where
  stands h top hs := by simp [Fold.standing] at hs
  fresh h _ := rfl
  changes h := by simp [rowsUnder, tops]
  named h row hrow := absurd hrow (by simp [rowsUnder])
  rows := rfl

/-- What one call adds to the tops and to the rows of a listing. -/
theorem changes_call (ht : Tells t) (c : Call) (h : ℕ) :
    {} :: (rowsUnder h (t.call c).past).map (·.top) =
      ({} :: tops h (t.call c).past).destutter (· ≠ ·) := by
  have hold := ht.changes h
  rw [List.destutter_cons'] at hold ⊢
  rw [Told.call, rowsUnder_concat, tops_concat, List.map_append, ← List.cons_append, hold]
  have hnone : written (t.fold, c) = none ∨ c.handle ≠ some h →
      (if c.handle = some h then written (t.fold, c) else none) = none := by
    rintro (hw | hc)
    · rw [hw, ite_self]
    · rw [if_neg hc]
  -- a top that is the last one seen adds to neither side
  have hstays {top : Top} (hs : (t.fold.call c).standing h = some top)
      (hlast : top = (tops h t.past).getLast?.getD {})
      (hquiet : written (t.fold, c) = none ∨ c.handle ≠ some h) :
      (tops h t.past).destutter' (· ≠ ·) {} ++ ((if c.handle = some h then written (t.fold, c)
          else none).toList).map (·.top) =
        (tops h t.past ++ ((t.fold.call c).standing h).toList).destutter' (· ≠ ·) {} := by
    rw [hs, Option.toList_some, destutter'_ne_concat, if_pos hlast, hnone hquiet]
    rfl
  have hgone (hs : (t.fold.call c).standing h = none)
      (hquiet : written (t.fold, c) = none ∨ c.handle ≠ some h) :
      (tops h t.past).destutter' (· ≠ ·) {} ++ ((if c.handle = some h then written (t.fold, c)
          else none).toList).map (·.top) =
        (tops h t.past ++ ((t.fold.call c).standing h).toList).destutter' (· ≠ ·) {} := by
    rw [hs, hnone hquiet]
    simp only [Option.toList_none, List.map_nil, List.append_nil]
  have hkept (hs : (t.fold.call c).standing h = t.fold.standing h)
      (hquiet : written (t.fold, c) = none ∨ c.handle ≠ some h) :
      (tops h t.past).destutter' (· ≠ ·) {} ++ ((if c.handle = some h then written (t.fold, c)
          else none).toList).map (·.top) =
        (tops h t.past ++ ((t.fold.call c).standing h).toList).destutter' (· ≠ ·) {} := by
    cases hwas : t.fold.standing h with
    | none => exact hgone (hs.trans hwas) hquiet
    | some top => exact hstays (hs.trans hwas) (ht.stands h top hwas).symm hquiet
  cases t.fold.call_does c with
  | quiet hrows hstand =>
      have hquiet := written_of_eq t.fold c hrows
      rcases hstand h with hs | hs | ⟨hlen, hs⟩
      · exact hkept hs (.inl hquiet)
      · exact hgone hs (.inl hquiet)
      · refine hstays hs ?_ (.inl hquiet)
        rw [ht.fresh h hlen]
        rfl
  | @wrote h' held was hhandle hwas hmoved hrows _ hstand _ hother =>
      by_cases hh : h = h'
      · subst hh
        rw [if_pos hhandle, written_of_concat t.fold c hrows, hstand, Option.toList_some,
          Option.toList_some, destutter'_ne_concat, ht.stands h was hwas, if_neg hmoved]
        rfl
      · exact hkept (hother h hh) (.inr fun heq ↦ hh (Option.some.inj (heq.symm.trans hhandle)))

theorem call (ht : Tells t) (c : Call) : Tells (t.call c) where
  stands h top hs := by
    rw [Told.call, tops_concat]
    have hs' : (t.fold.call c).standing h = some top := hs
    rw [hs']
    simp
  fresh h hlen := by
    have hbefore := (t.fold.length_call c).trans hlen
    have hnone : (t.fold.call c).standing h = none := by
      have hlen' : (t.fold.call c).instruments.length ≤ h := hlen
      rw [Fold.standing, List.getElem?_eq_none hlen']
      rfl
    rw [Told.call, tops_concat, ht.fresh h hbefore, hnone]
    rfl
  changes h := ht.changes_call c h
  named h row hrow := by
    rw [Told.call, rowsUnder_concat, List.mem_append, Option.mem_toList] at hrow
    rcases hrow with hrow | hrow
    · exact (ht.named h row hrow).call c
    · have hhandle : c.handle = some h := by
        by_contra hne
        rw [if_neg hne] at hrow
        cases hrow
      rw [if_pos hhandle] at hrow
      cases t.fold.call_does c with
      | quiet hrows =>
          rw [written_of_eq t.fold c hrows] at hrow
          cases hrow
      | @wrote h' held was hhandle' _ _ hrows _ _ hsame =>
          rw [written_of_concat t.fold c hrows] at hrow
          obtain rfl := Option.some.inj hrow
          obtain rfl := Option.some.inj (hhandle.symm.trans hhandle')
          obtain ⟨old, hold, hsymbol, hprice, hqty⟩ := hsame
          exact Fold.Names.call ⟨old, hold, hsymbol.symm, hprice.symm, hqty.symm⟩ c
  rows := by
    rw [Told.call, List.filterMap_append, ← ht.rows]
    cases t.fold.call_does c with
    | quiet hrows => simp [written_of_eq t.fold c hrows, hrows]
    | wrote _ _ _ hrows => simp [written_of_concat t.fold c hrows, hrows]

end Tells

/-! ## What an event leaves alone -/

def Call.isEvent : Call → Bool
  | .sink (.event _) => true
  | _ => false

/-- A call across which an identity that was stated stays in force. -/
def Call.keepsIdentity : Call → Bool
  | .beginMessage .. | .endMessage | .sink .upstreamMessage | .sink (.upstreamIdentity ..) => false
  | _ => true

namespace Fold

variable (f : Fold)

/-- The fields that a call other than a message's first one leaves alone. -/
structure Beside (f' : Fold) : Prop where
  messageIndex : f'.messageIndex = f.messageIndex
  messageCount : f'.messageCount = f.messageCount
  changeIndex : f'.rows = f.rows → f'.changeIndex = f.changeIndex

theorem beside_settle (handle : ℕ) (was : Top) : f.Beside (f.settle handle was) := by
  rcases f.settle_cases handle was with h | ⟨held, -, -, -, h⟩
  · rw [h]
    exact ⟨rfl, rfl, fun _ ↦ rfl⟩
  · rw [h]
    exact ⟨rfl, rfl, fun hrows ↦ absurd hrows (by simp)⟩

theorem settle_frame (handle : ℕ) (was : Top) :
    (f.settle handle was).identity = f.identity ∧ (f.settle handle was).bySymbol = f.bySymbol ∧
      (f.settle handle was).eventCount = f.eventCount ∧
      (f.settle handle was).unattributedCount = f.unattributedCount := by
  rcases f.settle_cases handle was with h | ⟨held, -, -, -, h⟩ <;> rw [h] <;>
    exact ⟨rfl, rfl, rfl, rfl⟩

theorem beside_event (e : Event) : f.Beside (f.event e) := by
  have heffect := f.event_effect e
  generalize f.event e = f' at heffect
  cases heffect with
  | outside => exact ⟨rfl, rfl, fun _ ↦ rfl⟩
  | still => exact ⟨rfl, rfl, fun _ ↦ rfl⟩
  | moves =>
      obtain ⟨hindex, hcount, hchange⟩ := beside_settle _ _ _
      exact ⟨hindex, hcount, hchange⟩

theorem event_frame (e : Event) :
    (f.event e).identity = f.identity ∧ (f.event e).bySymbol = f.bySymbol ∧
      (f.event e).eventCount + (f.event e).unattributedCount =
        f.eventCount + f.unattributedCount + 1 := by
  have heffect := f.event_effect e
  generalize f.event e = f' at heffect
  cases heffect with
  | outside => exact ⟨rfl, rfl, rfl⟩
  | still => exact ⟨rfl, rfl, Nat.add_right_comm _ _ _⟩
  | moves =>
      obtain ⟨hidentity, hsymbols, hevents, hunattributed⟩ := settle_frame _ _ _
      refine ⟨hidentity, hsymbols, ?_⟩
      rw [moved, hevents, hunattributed]
      exact Nat.add_right_comm _ _ _

/-- An event outside of a payload, or on a handle that no listing stands under, writes no row. -/
theorem rows_event_of_idle (e : Event) (h : f.inPayload = none ∨
    ∃ h, (Call.sink (.event e)).handle = some h ∧ f.standing h = none) :
    (f.event e).rows = f.rows := by
  rcases f.event_rows e with ⟨hrows, -⟩ | ⟨h', held, was, hh, hpayload, hwas, -⟩
  · exact hrows
  · rcases h with hnone | ⟨h, hhandle, hnone⟩
    · exact absurd hnone hpayload
    · obtain rfl := Option.some.inj (hhandle.symm.trans hh)
      rw [hnone] at hwas
      cases hwas

/-- An event changes no listing but that of its handle, and that one in a payload only. -/
theorem instruments_event_ne (e : Event) {h : ℕ}
    (hne : f.inPayload = none ∨ (Call.sink (.event e)).handle ≠ some h) :
    (f.event e).instruments[h]? = f.instruments[h]? := by
  rcases f.instruments_event e with heq | ⟨h', held, held', hpayload, hhandle, -, -, heq⟩
  · rw [heq]
  · rcases hne with hnone | hne
    · exact absurd hnone hpayload
    · rw [heq, List.getElem?_set_ne]
      rintro rfl
      exact hne hhandle

theorem beside_call {c : Call} (hc : ∀ index connection recvTsNs,
    c ≠ .beginMessage index connection recvTsNs) : f.Beside (f.call c) := by
  cases c with
  | listOn spec =>
      obtain ⟨instruments, bySymbol, heq⟩ := f.listOn_frame spec
      rw [call, heq]
      exact ⟨rfl, rfl, fun _ ↦ rfl⟩
  | delist h =>
      obtain ⟨instruments, bySymbol, heq⟩ := f.delist_frame h
      rw [call, heq]
      exact ⟨rfl, rfl, fun _ ↦ rfl⟩
  | beginMessage index connection recvTsNs => exact absurd rfl (hc index connection recvTsNs)
  | endMessage => exact ⟨rfl, rfl, fun _ ↦ rfl⟩
  | refuse => exact ⟨rfl, rfl, fun _ ↦ rfl⟩
  | sink c =>
      cases c with
      | upstreamMessage => exact ⟨rfl, rfl, fun _ ↦ rfl⟩
      | upstreamIdentity => exact ⟨rfl, rfl, fun _ ↦ rfl⟩
      | payloadScope => exact ⟨rfl, rfl, fun _ ↦ rfl⟩
      | desynchronised => exact ⟨rfl, rfl, fun _ ↦ rfl⟩
      | event e => exact f.beside_event e

/-- An event counts once, and nothing else counts. -/
theorem counts_call (c : Call) :
    (f.call c).eventCount + (f.call c).unattributedCount =
      f.eventCount + f.unattributedCount + if c.isEvent then 1 else 0 := by
  cases c with
  | listOn spec =>
      obtain ⟨instruments, bySymbol, heq⟩ := f.listOn_frame spec
      rw [call, heq]
      rfl
  | delist h =>
      obtain ⟨instruments, bySymbol, heq⟩ := f.delist_frame h
      rw [call, heq]
      rfl
  | beginMessage => rfl
  | endMessage => rfl
  | refuse => rfl
  | sink c =>
      cases c with
      | upstreamMessage => rfl
      | upstreamIdentity => rfl
      | payloadScope => rfl
      | desynchronised => rfl
      | event e => exact (f.event_frame e).2.2

theorem identity_call {c : Call} (hc : c.keepsIdentity = true) :
    (f.call c).identity = f.identity := by
  cases c with
  | listOn spec =>
      obtain ⟨instruments, bySymbol, heq⟩ := f.listOn_frame spec
      rw [call, heq]
  | delist h =>
      obtain ⟨instruments, bySymbol, heq⟩ := f.delist_frame h
      rw [call, heq]
  | beginMessage => cases hc
  | endMessage => cases hc
  | refuse => rfl
  | sink c =>
      cases c with
      | upstreamMessage => cases hc
      | upstreamIdentity => cases hc
      | payloadScope => rfl
      | desynchronised => rfl
      | event e => exact (f.event_frame e).1

end Fold

/-! ## The numbers of the rows -/

/-- One row comes before another in the order of an object's table. -/
def VenueBookTop.Before (r r' : VenueBookTop) : Prop :=
  r.messageIndex < r'.messageIndex ∨
    r.messageIndex = r'.messageIndex ∧ r.changeIndex < r'.changeIndex

/-- The rows of one message. -/
def rowsOf (m : ℕ) (rows : List VenueBookTop) : List VenueBookTop :=
  rows.filter fun r ↦ r.messageIndex = m

theorem rowsOf_concat (m : ℕ) (rows : List VenueBookTop) (r : VenueBookTop) :
    rowsOf m (rows ++ [r]) = rowsOf m rows ++ if r.messageIndex = m then [r] else [] := by
  rw [rowsOf, List.filter_append, ← rowsOf, List.filter_singleton]
  by_cases h : r.messageIndex = m <;> simp [h]

/-- The rows are numbered by message, and from zero within each. -/
structure Numbered (f : Fold) : Prop where
  none : f.messageCount = 0 → f.rows = []
  index : 0 < f.messageCount → f.messageIndex + 1 = f.messageCount
  below : ∀ r ∈ f.rows, r.messageIndex < f.messageCount
  ordered : f.rows.Pairwise VenueBookTop.Before
  counted : ∀ m, (rowsOf m f.rows).map (·.changeIndex) = List.range (rowsOf m f.rows).length
  change : 0 < f.messageCount → (rowsOf f.messageIndex f.rows).length = f.changeIndex

/-- What the driver sees to: messages are numbered in order, and an event sink is open within one
only. -/
def Legal (f : Fold) : Call → Prop
  | .listOn _ | .delist _ => True
  | .beginMessage index _ _ => index = f.messageCount
  | .endMessage | .refuse _ | .sink _ => 0 < f.messageCount

namespace Numbered

variable {f : Fold}

theorem beginMessage (hf : Numbered f) (connection : List Byte) (recvTsNs : ℕ) :
    Numbered (f.beginMessage f.messageCount connection recvTsNs) where
  none h := absurd h (Nat.succ_ne_zero _)
  index _ := rfl
  below r hr := (hf.below r hr).trans (Nat.lt_succ_self _)
  ordered := hf.ordered
  counted := hf.counted
  change _ := by
    have hnone : rowsOf f.messageCount f.rows = [] :=
      List.filter_eq_nil_iff.mpr fun r hr ↦ by simpa using (hf.below r hr).ne
    exact congrArg List.length hnone

theorem of_beside {f' : Fold} (hf : Numbered f) (hbeside : f.Beside f') (hrows : f'.rows = f.rows) :
    Numbered f' where
  none h := hrows.trans (hf.none (hbeside.messageCount.symm.trans h))
  index h := by
    rw [hbeside.messageIndex, hbeside.messageCount]
    exact hf.index (hbeside.messageCount ▸ h)
  below r hr := by
    rw [hbeside.messageCount]
    exact hf.below r (hrows ▸ hr)
  ordered := hrows ▸ hf.ordered
  counted := hrows ▸ hf.counted
  change h := by
    rw [hrows, hbeside.messageIndex, hbeside.changeIndex hrows]
    exact hf.change (hbeside.messageCount ▸ h)

/-- A row takes the next number of its message. -/
theorem wrote {f' : Fold} {held : Instrument} (hf : Numbered f) (hmessage : 0 < f.messageCount)
    (hbeside : f.Beside f') (hrows : f'.rows = f.rows ++ [f.row held])
    (hchange : f'.changeIndex = f.changeIndex + 1) : Numbered f' := by
  have hindex := hf.index hmessage
  have hown : (f.row held).messageIndex = f.messageIndex := rfl
  have hlast : (f.row held).changeIndex = f.changeIndex := rfl
  refine ⟨fun h ↦ ?_, fun _ ↦ ?_, fun r hr ↦ ?_, ?_, fun m ↦ ?_, fun _ ↦ ?_⟩
  · exact absurd (hbeside.messageCount.symm.trans h) hmessage.ne'
  · rw [hbeside.messageIndex, hbeside.messageCount, hindex]
  · rw [hrows] at hr
    rw [hbeside.messageCount]
    rcases List.mem_append.mp hr with hr | hr
    · exact hf.below r hr
    · rw [List.mem_singleton.mp hr, hown]
      omega
  · rw [hrows, List.pairwise_append]
    refine ⟨hf.ordered, List.pairwise_singleton _ _, fun r hr r' hr' ↦ ?_⟩
    rw [List.mem_singleton.mp hr']
    rcases Nat.lt_or_ge r.messageIndex f.messageIndex with hlt | hge
    · exact .inl hlt
    · have heq : r.messageIndex = f.messageIndex := by
        have := hf.below r hr
        omega
      have hmem : r.changeIndex ∈ (rowsOf f.messageIndex f.rows).map (·.changeIndex) :=
        List.mem_map.mpr ⟨r, List.mem_filter.mpr ⟨hr, by simpa using heq⟩, rfl⟩
      rw [hf.counted, hf.change hmessage, List.mem_range] at hmem
      exact .inr ⟨heq, hmem⟩
  · rw [hrows, rowsOf_concat, hown]
    split
    next h =>
        rw [List.map_append, hf.counted, List.length_append, List.length_singleton,
          List.range_succ, ← h, hf.change hmessage]
        rfl
    next => rw [List.append_nil, hf.counted]
  · rw [hrows, hbeside.messageIndex, rowsOf_concat, if_pos hown, List.length_append,
      hf.change hmessage, hchange]
    rfl

theorem call (hf : Numbered f) {c : Call} (hc : Legal f c) : Numbered (f.call c) := by
  by_cases hbegin : ∃ index connection recvTsNs, c = .beginMessage index connection recvTsNs
  · obtain ⟨index, connection, recvTsNs, rfl⟩ := hbegin
    obtain rfl : index = f.messageCount := hc
    exact hf.beginMessage connection recvTsNs
  · have hbeside := f.beside_call fun index connection recvTsNs h ↦ hbegin ⟨_, _, _, h⟩
    cases f.call_does c with
    | quiet hrows => exact hf.of_beside hbeside hrows
    | wrote hhandle _ _ hrows hchange =>
        have hmessage : 0 < f.messageCount := by
          cases c with
          | sink => exact hc
          | listOn | delist | beginMessage | endMessage | refuse => cases hhandle
        exact hf.wrote hmessage hbeside hrows hchange

end Numbered

/-! ## Runs -/

/-- What a driver and an adapter can make of a fold. -/
inductive Reached : Told → Prop
  | start : Reached {}
  | call {t : Told} {c : Call} (h : Reached t) (hc : Legal t.fold c) : Reached (t.call c)

/-- An identity was stated, and no message has begun or ended since. -/
def Stated (past : List (Fold × Call)) (sid seq : Option UInt64) : Prop :=
  ∃ before f since, past = before ++ (f, .sink (.upstreamIdentity sid seq)) :: since ∧
    ∀ x ∈ since, x.2.keepsIdentity = true

/-- What a run keeps. -/
structure Sound (t : Told) : Prop where
  tells : Tells t
  numbered : Numbered t.fold
  identity : ∀ sid seq, t.fold.identity = some (sid, seq) → Stated t.past sid seq
  counts : t.fold.eventCount + t.fold.unattributedCount = t.past.countP fun x ↦ x.2.isEvent

theorem identity_of_call {t : Told}
    (ht : ∀ sid seq, t.fold.identity = some (sid, seq) → Stated t.past sid seq) (c : Call)
    {sid seq : Option UInt64} (h : (t.call c).fold.identity = some (sid, seq)) :
    Stated (t.call c).past sid seq := by
  by_cases hkeeps : c.keepsIdentity = true
  · obtain ⟨before, f, since, hpast, hsince⟩ :=
      ht sid seq ((Fold.identity_call t.fold hkeeps).symm.trans h)
    refine ⟨before, f, since ++ [(t.fold, c)], ?_, fun x hx ↦ ?_⟩
    · rw [Told.call, hpast, List.append_assoc]
      rfl
    · rcases List.mem_append.mp hx with hx | hx
      · exact hsince x hx
      · rw [List.mem_singleton.mp hx]
        exact hkeeps
  · cases c with
    | beginMessage | endMessage => cases h
    | listOn | delist | refuse => exact absurd rfl hkeeps
    | sink c =>
        cases c with
        | upstreamMessage => cases h
        | upstreamIdentity sid' seq' =>
            obtain ⟨rfl, rfl⟩ := Prod.mk.inj (Option.some.inj h)
            exact ⟨t.past, t.fold, [], rfl, fun x hx ↦ absurd hx List.not_mem_nil⟩
        | payloadScope | desynchronised | event => exact absurd rfl hkeeps

theorem Reached.sound {t : Told} (h : Reached t) : Sound t := by
  induction h with
  | start =>
      exact ⟨Tells.start, ⟨fun _ ↦ rfl, nofun, nofun, List.Pairwise.nil, fun _ ↦ rfl, nofun⟩, nofun,
        rfl⟩
  | @call t c _ hc ih =>
      refine ⟨ih.tells.call c, ih.numbered.call hc, fun sid seq h ↦ identity_of_call ih.identity c h,
        ?_⟩
      have hcounts := t.fold.counts_call c
      rw [Told.call, List.countP_append, ← ih.counts, List.countP_singleton]
      exact hcounts

/-- A run passes through the state that each of its calls met. -/
theorem Reached.met {t : Told} (h : Reached t) {before after : List (Fold × Call)} {f : Fold}
    {c : Call} (hpast : t.past = before ++ (f, c) :: after) : Reached ⟨f, before⟩ := by
  induction h generalizing after with
  | start => exact absurd hpast (by simp)
  | @call t c' ht _ ih =>
      rcases List.eq_nil_or_concat' after with rfl | ⟨after, x, rfl⟩
      · obtain ⟨hbefore, hlast⟩ := List.append_inj' hpast rfl
        obtain ⟨rfl, -⟩ := Prod.mk.inj (List.cons.inj hlast).1
        rw [← hbefore]
        exact ht
      · have hsplit : t.past ++ [(t.fold, c')] = (before ++ (f, c) :: after) ++ [x] := by
          rw [List.append_assoc]
          exact hpast
        exact ih (List.append_inj' hsplit rfl).1

/-- A poll is listing calls only. -/
theorem Reached.poll {α : Type} (p : Poll α) {t : Told} (h : Reached t) :
    Reached (p.on t).2 ∧ (p.on t).2.fold.messageCount = t.fold.messageCount := by
  induction p generalizing t with
  | done => exact ⟨h, rfl⟩
  | listOn _ spec next ih =>
      have hcount : (t.call (.listOn spec)).fold.messageCount = t.fold.messageCount :=
        (t.fold.beside_call (c := .listOn spec) nofun).messageCount
      obtain ⟨hreached, hsame⟩ := ih (t.fold.listOn spec).2 (h.call (c := .listOn spec) trivial)
      exact ⟨hreached, hsame.trans hcount⟩
  | delist handle next ih =>
      have hcount : (t.call (.delist handle)).fold.messageCount = t.fold.messageCount :=
        (t.fold.beside_call (c := .delist handle) nofun).messageCount
      obtain ⟨hreached, hsame⟩ := ih (h.call (c := .delist handle) trivial)
      exact ⟨hreached, hsame.trans hcount⟩
  | strike _ _ next ih => exact ih h

/-- Calls within a message. -/
def Call.within : Call → Bool
  | .endMessage | .refuse _ | .sink _ => true
  | _ => false

theorem Reached.within {t : Told} (h : Reached t) (hmessage : 0 < t.fold.messageCount)
    {cs : List Call} (hcs : ∀ c ∈ cs, c.within = true) :
    Reached (run Told.call t cs) ∧
      (run Told.call t cs).fold.messageCount = t.fold.messageCount := by
  refine run_induction (P := fun t' : Told ↦ Reached t' ∧
    t'.fold.messageCount = t.fold.messageCount) cs ⟨h, rfl⟩ fun t' c hc ht' ↦ ?_
  obtain ⟨hreached, hsame⟩ := ht'
  have hopen : 0 < t'.fold.messageCount := hsame.symm ▸ hmessage
  have hwithin := hcs c hc
  have hcount (hbegin : ∀ index connection recvTsNs,
      c ≠ .beginMessage index connection recvTsNs) :
      (t'.call c).fold.messageCount = t.fold.messageCount :=
    (t'.fold.beside_call hbegin).messageCount.trans hsame
  cases c with
  | listOn | delist | beginMessage => cases hwithin
  | endMessage => exact ⟨hreached.call hopen, hcount nofun⟩
  | refuse => exact ⟨hreached.call hopen, hcount nofun⟩
  | sink => exact ⟨hreached.call hopen, hcount nofun⟩

namespace Adapter

variable {α ε : Type} (A : Adapter α)

theorem onMessage_reached (m : ArchivedMessage) (connection : ℕ) (adapter : α) {t : Told}
    (h : Reached t) :
    Reached (A.onMessage t.fold.messageCount m connection adapter t).2 ∧
      (A.onMessage t.fold.messageCount m connection adapter t).2.fold.messageCount =
        t.fold.messageCount + 1 := by
  let mapped := A.onPayload adapter ⟨m.bytes, m.recvTsNs, connection⟩
  let begun := t.call (.beginMessage t.fold.messageCount m.connection m.recvTsNs)
  let calls : List Call := .sink (.payloadScope (some m.recvTsNs)) :: mapped.1.map .sink ++
    .sink (.payloadScope none) :: (mapped.2.1.map fun e ↦ .refuse e.asStr).toList ++ [.endMessage]
  have hrun : (A.onMessage t.fold.messageCount m connection adapter t).2 =
      run Told.call begun calls := by
    simp only [run, calls, List.foldl_append, List.foldl_cons, List.foldl_nil]
    rfl
  have hwithin : ∀ c ∈ calls, c.within = true := by
    intro c hc
    simp only [calls, List.mem_append, List.mem_cons, List.mem_map, Option.mem_toList,
      Option.map_eq_some_iff, List.not_mem_nil, or_false] at hc
    rcases hc with ((rfl | ⟨_, -, rfl⟩) | rfl | ⟨_, -, rfl⟩) | rfl <;> rfl
  have hbegun : Reached begun := h.call rfl
  rw [hrun]
  exact hbegun.within (Nat.succ_pos _) hwithin

theorem read_reached (object : VenueObject ε) (messages : List ArchivedMessage) (adapter : α)
    {t : Told} (h : Reached t) :
    Reached (A.read object messages t.fold.messageCount adapter t).2 := by
  induction messages generalizing adapter t with
  | nil =>
      rw [read]
      split <;> exact (h.poll (A.pollListings adapter)).1
  | cons m messages ih =>
      obtain ⟨hpolled, hcount⟩ := h.poll (A.pollListings adapter)
      rw [read]
      dsimp only
      split
      next => exact hpolled
      next connection _ =>
          have hmapped := A.onMessage_reached m connection
            ((A.pollListings adapter).on t).1 hpolled
          rw [hcount] at hmapped
          have hrest := ih (A.onMessage t.fold.messageCount m connection
            ((A.pollListings adapter).on t).1 ((A.pollListings adapter).on t).2).1 hmapped.1
          rw [hmapped.2] at hrest
          exact hrest

theorem told_reached (object : VenueObject ε) (adapter : α) :
    Reached (A.told object adapter).2 := A.read_reached object object.messages adapter .start

theorem derived_of_ok (object : VenueObject ε) (adapter : α) {rows : List VenueBookTop}
    {derived : Derived} (h : A.deriveVenueObject object adapter = .ok (rows, derived)) :
    rows = (A.told object adapter).2.fold.rows ∧
      derived = (A.told object adapter).2.fold.derived := by
  rw [deriveVenueObject] at h
  generalize A.told object adapter = told at h ⊢
  obtain ⟨e | ⟨⟨⟩⟩, t⟩ := told
  · cases h
  · dsimp only at h
    split at h
    next => cases h
    next =>
        obtain ⟨rfl, rfl⟩ := Prod.mk.inj (Except.ok.inj h)
        exact ⟨rfl, rfl⟩

/-- The rows of an object, for any adapter.  With `t` for the fold of the object and its past:

* what is written of an object is the rows and the counts of the fold;
* the rows are in order of message and change, and the changes of a message are numbered 0, 1, ...;
* every row was written by a call, and behind any number of the calls the rows written under a
  handle are the changes of its listing's top while that stands, and carry its name;
* an event on a handle without a standing listing, or outside of a payload, writes no row, and no
  event changes another listing;
* a row carries an identity only where that was stated and no message has begun or ended since;
* every event is in one of the two counts, once. -/
theorem tops_told (object : VenueObject ε) (adapter : α) :
    let t := (A.told object adapter).2
    (∀ rows derived, A.deriveVenueObject object adapter = .ok (rows, derived) →
      rows = t.fold.rows ∧ derived = t.fold.derived) ∧
    (t.fold.rows.Pairwise VenueBookTop.Before ∧
      ∀ m, ∃ n, (rowsOf m t.fold.rows).map (·.changeIndex) = List.range n) ∧
    (t.fold.rows = t.past.filterMap written ∧
      ∀ before f c after, t.past = before ++ (f, c) :: after → ∀ h,
        {} :: (rowsUnder h (before ++ [(f, c)])).map (·.top) =
          ({} :: tops h (before ++ [(f, c)])).destutter (· ≠ ·) ∧
        (∀ top, (f.call c).standing h = some top →
          ((rowsUnder h (before ++ [(f, c)])).map (·.top)).getLast?.getD {} = top) ∧
        ((rowsUnder h (before ++ [(f, c)])).map (·.top)).IsChain (· ≠ ·) ∧
        ∀ row ∈ rowsUnder h (before ++ [(f, c)]), t.fold.Names h row.symbol row.priceExp row.qtyExp) ∧
    (∀ f e, (f, .sink (.event e)) ∈ t.past →
      ((f.inPayload = none ∨
          ∃ h, (Call.sink (.event e)).handle = some h ∧ f.standing h = none) →
        (f.event e).rows = f.rows) ∧
      (∀ h, f.inPayload = none ∨ (Call.sink (.event e)).handle ≠ some h →
        (f.event e).instruments[h]? = f.instruments[h]?) ∧
      (f.event e).bySymbol = f.bySymbol) ∧
    (∀ before f c after row, t.past = before ++ (f, c) :: after → written (f, c) = some row →
      (row.upstreamSid, row.upstreamSeq) = (none, none) ∨
        Stated before row.upstreamSid row.upstreamSeq) ∧
    t.fold.eventCount + t.fold.unattributedCount = t.past.countP fun x ↦ x.2.isEvent := by
  intro t
  have hreached : Reached t := A.told_reached object adapter
  have hsound := hreached.sound
  refine ⟨fun rows derived h ↦ A.derived_of_ok object adapter h,
    ⟨hsound.numbered.ordered, fun m ↦ ⟨_, hsound.numbered.counted m⟩⟩,
    ⟨hsound.tells.rows, fun before f c after hpast h ↦ ?_⟩, fun f e _ ↦ ?_,
    fun before f c after row hpast hrow ↦ ?_, hsound.counts⟩
  · have htells : Tells (Told.call ⟨f, before⟩ c) := (hreached.met hpast).sound.tells.call c
    have hchanges := htells.changes h
    refine ⟨hchanges, fun top hs ↦ ?_, ?_, fun row hrow ↦ hsound.tells.named h row ?_⟩
    · have hlast := congrArg List.getLast? hchanges
      rw [List.destutter_cons', getLast?_destutter'_ne, List.getLast?_cons,
        htells.stands h top hs] at hlast
      exact Option.some.inj hlast
    · have hchain := List.isChain_destutter' (· ≠ ·) (tops h (Told.call ⟨f, before⟩ c).past) {}
      rw [← List.destutter_cons', ← hchanges] at hchain
      exact hchain.tail
    · rw [hpast, ← List.singleton_append, ← List.append_assoc, rowsUnder, List.filterMap_append]
      exact List.mem_append_left _ hrow
  · exact ⟨f.rows_event_of_idle e, fun h hne ↦ f.instruments_event_ne e hne,
      (f.event_frame e).2.1⟩
  · have hidentity := (hreached.met hpast).sound.identity
    cases f.call_does c with
    | quiet hrows =>
        rw [written_of_eq f c hrows] at hrow
        cases hrow
    | wrote _ _ _ hrows =>
        rw [written_of_concat f c hrows] at hrow
        obtain rfl := Option.some.inj hrow
        cases hin : f.identity with
        | none => exact .inl (by simp [Fold.row, hin])
        | some identity =>
            refine .inr ?_
            simp only [Fold.row, hin, Option.getD_some]
            exact hidentity identity.1 identity.2 hin

end Adapter

end EdgeMulticast.Venue
