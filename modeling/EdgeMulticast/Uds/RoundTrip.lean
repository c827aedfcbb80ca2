import EdgeMulticast.Uds.Record

/-!
# Records read back

Every field of a record is read exactly as it is written, so long as each text in it is as long as its
length field can state: the bytes of an event turn back into the event, and an event that is read is
written as the same bytes.
-/

namespace EdgeMulticast.Uds

open EdgeMulticast.Lib
open EdgeMulticast.Lib.Reading (Exact byte_exact word16_exact word64_exact tagged_exact take_exact)
open EdgeMulticast.Lowering (Aggressor ClearScope InstrumentRef Presence Scalar Side TradeFlags)

/-! ## Texts -/

/-- A text that its length field can state. -/
structure Fits (text : List Byte) : Prop where
  utf8 : isUtf8 text = true
  length : text.length < 2 ^ 16

def scalarTexts : Scalar → List (List Byte)
  | .text text => [text]
  | .fixed _ _ => []

def sideTexts : SideUpdate → List (List Byte)
  | .gone => []
  | .present px qty _ => scalarTexts px ++ scalarTexts qty

def scopeTexts : ClearScope → List (List Byte)
  | .entireSide _ | .bothSides => []
  | .fromPrice _ px => scalarTexts px

namespace Event

/-- The texts of an event. -/
def texts : Event → List (List Byte)
  | .quote _ _ bid ask _ => sideTexts bid ++ sideTexts ask
  | .trade _ _ px qty _ _ volume _ => scalarTexts px ++ scalarTexts qty ++ volume.elim [] scalarTexts
  | .level _ _ _ px qty _ _ => scalarTexts px ++ scalarTexts qty
  | .clear _ _ scope => scopeTexts scope

def handle : Event → InstrumentRef
  | .quote i _ _ _ _ | .trade i _ _ _ _ _ _ _ | .level i _ _ _ _ _ _ | .clear i _ _ => i

/-- The event, of another instrument. -/
def withHandle (i : InstrumentRef) : Event → Event
  | .quote _ ts bid ask id => .quote i ts bid ask id
  | .trade _ ts px qty a id volume flags => .trade i ts px qty a id volume flags
  | .level _ ts s px qty count p => .level i ts s px qty count p
  | .clear _ ts scope => .clear i ts scope

def time : Event → UInt64
  | .quote _ ts _ _ _ | .trade _ ts _ _ _ _ _ _ | .level _ ts _ _ _ _ _ | .clear _ ts _ => ts

def kind : Event → Byte
  | .quote _ _ _ _ none => KIND_QUOTE
  | .quote _ _ _ _ (some _) => KIND_QUOTE_UPDATE_ID
  | .trade .. => KIND_TRADE
  | .level .. => KIND_LEVEL
  | .clear .. => KIND_CLEAR

/-- What is written of an event behind its symbol and its time. -/
def fields : Event → List Byte
  | .quote _ _ bid ask id =>
      RecordWriter.sideUpdate bid ++ RecordWriter.sideUpdate ask ++ id.elim [] le64
  | .trade _ _ px qty a id volume flags =>
      RecordWriter.scalar px ++ RecordWriter.scalar qty ++ [RecordWriter.aggressor a] ++
        RecordWriter.optional le64 id ++ RecordWriter.optional RecordWriter.scalar volume ++
        [RecordWriter.tradeFlags flags]
  | .level _ _ s px qty count p =>
      [RecordWriter.side s] ++ RecordWriter.scalar px ++ RecordWriter.scalar qty ++
        RecordWriter.optional le16 count ++ [RecordWriter.presence p]
  | .clear _ _ scope => RecordWriter.clearScope scope

end Event

theorem body_eq (symbol : List Byte) (e : Event) : RecordWriter.body symbol e =
    VERSION :: e.kind :: (RecordWriter.str symbol ++ le64 e.time ++ e.fields) := by
  cases e with
  | quote _ _ _ _ id =>
      cases id with
      | none => simp [RecordWriter.body, Event.kind, Event.time, Event.fields]
      | some => simp [RecordWriter.body, Event.kind, Event.time, Event.fields]
  | trade | level => simp [RecordWriter.body, Event.kind, Event.time, Event.fields]
  | clear => rfl

/-! ## The fields -/

theorem str_of_fits {text : List Byte} (h : text.length < 2 ^ 16) :
    RecordWriter.str text = le16 (UInt16.ofNat text.length) ++ text := by
  rw [RecordWriter.str, if_pos h, List.take_length]

theorem str_exact : Reader.str.Exact RecordWriter.str Fits := by
  intro bs text rest
  rw [Reader.str]
  constructor
  · intro h
    obtain ⟨len, mid, -, rfl, htext⟩ := word16_exact.of_bind h
    obtain ⟨bytes, mid', hlen, rfl, hbytes⟩ := (take_exact _ _).of_bind htext
    split at hbytes
    next hutf8 =>
        obtain ⟨rfl, rfl⟩ := stateT_pure_ok.mp hbytes
        have hlt : text.length < 2 ^ 16 := hlen ▸ len.toNat_lt
        refine ⟨⟨hutf8, hlt⟩, ?_⟩
        rw [str_of_fits hlt, hlen, UInt16.ofNat_toNat, List.append_assoc, id]
    next => exact absurd hbytes stateT_throw_ok
  · rintro ⟨hfits, rfl⟩
    have hlen : text.length = (UInt16.ofNat text.length).toNat :=
      (UInt16.toNat_ofNat_of_lt' hfits.length).symm
    rw [str_of_fits hfits.length, List.append_assoc, Reader.u16, word16_exact.bind trivial]
    refine ((take_exact _ _).bind hlen _ rest).trans ?_
    rw [if_pos hfits.utf8]
    rfl

theorem i64_exact : Reader.i64.Exact (fun m ↦ le64 m.toUInt64) fun _ ↦ True :=
  word64_exact.map (fun _ ↦ rfl) fun _ ↦ rfl

theorem i8_exact : Reader.i8.Exact (fun e ↦ [e.toUInt8]) fun _ ↦ True :=
  byte_exact.map (fun _ ↦ rfl) fun _ ↦ rfl

/-- A number of which every text fits. -/
def ScalarFits (s : Scalar) : Prop := ∀ text ∈ scalarTexts s, Fits text

theorem scalar_exact : Reader.scalar.Exact RecordWriter.scalar ScalarFits := by
  intro bs s rest
  rw [Reader.scalar]
  constructor
  · intro h
    obtain ⟨tag, mid, -, rfl, hbody⟩ := byte_exact.of_bind h
    split at hbody
    next htag =>
        obtain ⟨text, mid', hfits, rfl, hend⟩ := str_exact.of_bind hbody
        obtain ⟨rfl, rfl⟩ := stateT_pure_ok.mp hend
        rw [htag]
        exact ⟨List.forall_mem_singleton.mpr hfits, rfl⟩
    next =>
        split at hbody
        next htag =>
            obtain ⟨mantissa, mid', -, rfl, hrest⟩ := i64_exact.of_bind hbody
            obtain ⟨exponent, mid'', -, rfl, hend⟩ := i8_exact.of_bind hrest
            obtain ⟨rfl, rfl⟩ := stateT_pure_ok.mp hend
            refine ⟨List.forall_mem_nil _, ?_⟩
            simp [htag, RecordWriter.scalar]
        next => exact absurd hbody stateT_throw_ok
  · rintro ⟨hfits, rfl⟩
    cases s with
    | text text =>
        refine (byte_exact.bind (a := SCALAR_TEXT) trivial _ _).trans ?_
        rw [if_pos rfl]
        exact str_exact.bind (hfits text List.mem_cons_self) _ rest
    | fixed mantissa exponent =>
        refine (byte_exact.bind (a := SCALAR_FIXED) trivial _ _).trans ?_
        rw [if_neg (by decide), if_pos rfl]
        change (Reader.i64 >>= _) ((le64 mantissa.toUInt64 ++ [exponent.toUInt8]) ++ rest) = _
        rw [List.append_assoc]
        refine (i64_exact.bind trivial _ _).trans ?_
        exact i8_exact.bind trivial _ rest

theorem optional_exact {α : Type} {field : Reader α} {write : α → List Byte} {Good : α → Prop}
    (hfield : field.Exact write Good) :
    (Reader.optional field).Exact (RecordWriter.optional write) fun a ↦ ∀ x ∈ a, Good x := by
  intro bs a rest
  rw [Reader.optional]
  constructor
  · intro h
    obtain ⟨tag, mid, -, rfl, hbody⟩ := byte_exact.of_bind h
    split at hbody
    next htag =>
        obtain ⟨rfl, rfl⟩ := stateT_pure_ok.mp hbody
        rw [htag]
        exact ⟨fun _ hx ↦ (Option.not_mem_none _ hx).elim, rfl⟩
    next =>
        split at hbody
        next htag =>
            obtain ⟨x, mid', hgood, rfl, hend⟩ := hfield.of_bind hbody
            obtain ⟨rfl, rfl⟩ := stateT_pure_ok.mp hend
            rw [htag]
            exact ⟨fun _ hx ↦ Option.mem_some_iff.mp hx ▸ hgood, rfl⟩
        next => exact absurd hbody stateT_throw_ok
  · rintro ⟨hgood, rfl⟩
    cases a with
    | none => exact byte_exact.bind (a := ABSENT) trivial _ rest
    | some x =>
        refine (byte_exact.bind (a := PRESENT) trivial _ _).trans ?_
        rw [if_neg (by decide), if_pos rfl]
        exact hfield.bind (hgood x rfl) _ rest

theorem side_exact : Reader.side.Exact (fun s ↦ [RecordWriter.side s]) fun _ ↦ True := by
  refine tagged_exact fun b s ↦ ?_
  cases s <;> simp only [RecordWriter.side] <;> split_ifs <;> simp_all

theorem aggressor_exact :
    Reader.aggressor.Exact (fun a ↦ [RecordWriter.aggressor a]) fun _ ↦ True := by
  refine tagged_exact fun b a ↦ ?_
  cases a <;> simp only [RecordWriter.aggressor] <;> split_ifs <;> simp_all

theorem presence_exact :
    Reader.presence.Exact (fun p ↦ [RecordWriter.presence p]) fun _ ↦ True := by
  refine tagged_exact fun b p ↦ ?_
  cases p <;> simp only [RecordWriter.presence] <;> split_ifs <;> simp_all

theorem tradeFlags_exact :
    Reader.tradeFlags.Exact (fun f ↦ [RecordWriter.tradeFlags f]) fun _ ↦ True := by
  refine tagged_exact fun b f ↦ ?_
  obtain ⟨n, rfl⟩ : ∃ n : Fin 256, b = UInt8.ofFin n := ⟨b.toFin, rfl⟩
  rcases f with ⟨block, sweep, cross⟩
  revert n block sweep cross
  decide +kernel

/-- A side of which every text fits. -/
def SideFits (s : SideUpdate) : Prop := ∀ text ∈ sideTexts s, Fits text

theorem sideUpdate_exact : Reader.sideUpdate.Exact RecordWriter.sideUpdate SideFits := by
  intro bs s rest
  rw [Reader.sideUpdate]
  constructor
  · intro h
    obtain ⟨tag, mid, -, rfl, hbody⟩ := byte_exact.of_bind h
    split at hbody
    next htag =>
        obtain ⟨rfl, rfl⟩ := stateT_pure_ok.mp hbody
        rw [htag]
        exact ⟨List.forall_mem_nil _, rfl⟩
    next =>
        split at hbody
        next htag =>
            obtain ⟨px, mid₁, hpx, rfl, hqty⟩ := scalar_exact.of_bind hbody
            obtain ⟨qty, mid₂, hqty, rfl, hcount⟩ := scalar_exact.of_bind hqty
            obtain ⟨count, mid₃, -, rfl, hend⟩ := (optional_exact word16_exact).of_bind hcount
            obtain ⟨rfl, rfl⟩ := stateT_pure_ok.mp hend
            refine ⟨List.forall_mem_append.mpr ⟨hpx, by assumption⟩, ?_⟩
            simp [htag, RecordWriter.sideUpdate]
        next => exact absurd hbody stateT_throw_ok
  · rintro ⟨hfits, rfl⟩
    cases s with
    | gone => exact byte_exact.bind (a := SIDE_GONE) trivial _ rest
    | present px qty count =>
        obtain ⟨hpx, hqty⟩ := List.forall_mem_append.mp hfits
        refine (byte_exact.bind (a := SIDE_PRESENT) trivial _ _).trans ?_
        rw [if_neg (by decide), if_pos rfl]
        change (Reader.scalar >>= _) ((RecordWriter.scalar px ++ RecordWriter.scalar qty ++
          RecordWriter.optional le16 count) ++ rest) = _
        rw [List.append_assoc, List.append_assoc]
        refine (scalar_exact.bind hpx _ _).trans ((scalar_exact.bind hqty _ _).trans ?_)
        exact (optional_exact word16_exact).bind (fun _ _ ↦ trivial) _ rest

/-- A scope of which every text fits. -/
def ScopeFits (s : ClearScope) : Prop := ∀ text ∈ scopeTexts s, Fits text

theorem clearScope_exact : Reader.clearScope.Exact RecordWriter.clearScope ScopeFits := by
  intro bs s rest
  rw [Reader.clearScope]
  constructor
  · intro h
    obtain ⟨tag, mid, -, rfl, hbody⟩ := byte_exact.of_bind h
    split at hbody
    next htag =>
        obtain ⟨side, mid', -, rfl, hend⟩ := side_exact.of_bind hbody
        obtain ⟨rfl, rfl⟩ := stateT_pure_ok.mp hend
        rw [htag]
        exact ⟨List.forall_mem_nil _, rfl⟩
    next =>
        split at hbody
        next htag =>
            obtain ⟨rfl, rfl⟩ := stateT_pure_ok.mp hbody
            rw [htag]
            exact ⟨List.forall_mem_nil _, rfl⟩
        next =>
            split at hbody
            next htag =>
                obtain ⟨side, mid₁, -, rfl, hpx⟩ := side_exact.of_bind hbody
                obtain ⟨px, mid₂, hfits, rfl, hend⟩ := scalar_exact.of_bind hpx
                obtain ⟨rfl, rfl⟩ := stateT_pure_ok.mp hend
                rw [htag]
                exact ⟨hfits, rfl⟩
            next => exact absurd hbody stateT_throw_ok
  · rintro ⟨hfits, rfl⟩
    cases s with
    | entireSide side =>
        refine (byte_exact.bind (a := SCOPE_ENTIRE_SIDE) trivial _ _).trans ?_
        rw [if_pos rfl]
        exact side_exact.bind trivial _ rest
    | bothSides => exact byte_exact.bind (a := SCOPE_BOTH_SIDES) trivial _ rest
    | fromPrice side px =>
        refine (byte_exact.bind (a := SCOPE_FROM_PRICE) trivial _ _).trans ?_
        rw [if_neg (by decide), if_neg (by decide), if_pos rfl]
        refine (side_exact.bind trivial _ _).trans ?_
        exact scalar_exact.bind hfits _ rest

/-! ## The events -/

/-- An event of which every text fits. -/
def EventFits (e : Event) : Prop := ∀ text ∈ e.texts, Fits text

section

variable {kind : Byte} {i : InstrumentRef} {ts : UInt64} {bs rest : List Byte} {e : Event}

/-- What is read as an event is the fields of one. -/
theorem of_event (h : Reader.event kind i ts bs = .ok (e, rest)) :
    e.handle = i ∧ e.time = ts ∧ e.kind = kind ∧ EventFits e ∧ bs = e.fields ++ rest := by
  rw [Reader.event] at h
  split at h
  next hkind =>
      obtain ⟨bid, mid₁, hbid, rfl, h₁⟩ := sideUpdate_exact.of_bind h
      obtain ⟨ask, mid₂, hask, rfl, h₂⟩ := sideUpdate_exact.of_bind h₁
      obtain ⟨rfl, rfl⟩ := stateT_pure_ok.mp h₂
      exact ⟨rfl, rfl, hkind.symm, List.forall_mem_append.mpr ⟨hbid, hask⟩, by simp [Event.fields]⟩
  next =>
  split at h
  next hkind =>
      obtain ⟨bid, mid₁, hbid, rfl, h₁⟩ := sideUpdate_exact.of_bind h
      obtain ⟨ask, mid₂, hask, rfl, h₂⟩ := sideUpdate_exact.of_bind h₁
      obtain ⟨id, mid₃, -, rfl, h₃⟩ := word64_exact.of_bind h₂
      obtain ⟨rfl, rfl⟩ := stateT_pure_ok.mp h₃
      exact ⟨rfl, rfl, hkind.symm, List.forall_mem_append.mpr ⟨hbid, hask⟩, by simp [Event.fields]⟩
  next =>
  split at h
  next hkind =>
      obtain ⟨px, mid₁, hpx, rfl, h₁⟩ := scalar_exact.of_bind h
      obtain ⟨qty, mid₂, hqty, rfl, h₂⟩ := scalar_exact.of_bind h₁
      obtain ⟨a, mid₃, -, rfl, h₃⟩ := aggressor_exact.of_bind h₂
      obtain ⟨id, mid₄, -, rfl, h₄⟩ := (optional_exact word64_exact).of_bind h₃
      obtain ⟨volume, mid₅, hvolume, rfl, h₅⟩ := (optional_exact scalar_exact).of_bind h₄
      obtain ⟨flags, mid₆, -, rfl, h₆⟩ := tradeFlags_exact.of_bind h₅
      obtain ⟨rfl, rfl⟩ := stateT_pure_ok.mp h₆
      refine ⟨rfl, rfl, hkind.symm, ?_, by simp [Event.fields]⟩
      refine List.forall_mem_append.mpr ⟨List.forall_mem_append.mpr ⟨hpx, hqty⟩, ?_⟩
      cases volume with
      | none => exact List.forall_mem_nil _
      | some volume => exact hvolume volume rfl
  next =>
  split at h
  next hkind =>
      obtain ⟨side, mid₁, -, rfl, h₁⟩ := side_exact.of_bind h
      obtain ⟨px, mid₂, hpx, rfl, h₂⟩ := scalar_exact.of_bind h₁
      obtain ⟨qty, mid₃, hqty, rfl, h₃⟩ := scalar_exact.of_bind h₂
      obtain ⟨count, mid₄, -, rfl, h₄⟩ := (optional_exact word16_exact).of_bind h₃
      obtain ⟨presence, mid₅, -, rfl, h₅⟩ := presence_exact.of_bind h₄
      obtain ⟨rfl, rfl⟩ := stateT_pure_ok.mp h₅
      exact ⟨rfl, rfl, hkind.symm, List.forall_mem_append.mpr ⟨hpx, hqty⟩, by simp [Event.fields]⟩
  next =>
  split at h
  next hkind =>
      obtain ⟨scope, mid₁, hscope, rfl, h₁⟩ := clearScope_exact.of_bind h
      obtain ⟨rfl, rfl⟩ := stateT_pure_ok.mp h₁
      exact ⟨rfl, rfl, hkind.symm, hscope, rfl⟩
  next => exact absurd h stateT_throw_ok

/-- The fields of an event are read as the event. -/
theorem event_fields (hfits : EventFits e) (rest : List Byte) :
    Reader.event e.kind e.handle e.time (e.fields ++ rest) = .ok (e, rest) := by
  cases e with
  | quote i ts bid ask id =>
      obtain ⟨hbid, hask⟩ := List.forall_mem_append.mp hfits
      cases id with
      | none =>
          change Reader.event KIND_QUOTE i ts _ = _
          rw [Reader.event, if_pos rfl, Event.fields, Option.elim_none, List.append_nil,
            List.append_assoc]
          refine (sideUpdate_exact.bind hbid _ _).trans ?_
          exact sideUpdate_exact.bind hask _ rest
      | some id =>
          change Reader.event KIND_QUOTE_UPDATE_ID i ts _ = _
          rw [Reader.event, if_neg (by decide), if_pos rfl, Event.fields, Option.elim_some,
            List.append_assoc, List.append_assoc]
          refine (sideUpdate_exact.bind hbid _ _).trans ((sideUpdate_exact.bind hask _ _).trans ?_)
          exact word64_exact.bind trivial _ rest
  | trade i ts px qty a id volume flags =>
      obtain ⟨hnumbers, hvolume⟩ := List.forall_mem_append.mp hfits
      obtain ⟨hpx, hqty⟩ := List.forall_mem_append.mp hnumbers
      have hsome : ∀ x ∈ volume, ScalarFits x := by
        rintro x hx
        rw [Option.mem_def] at hx
        subst hx
        exact hvolume
      change Reader.event KIND_TRADE i ts _ = _
      rw [Reader.event, if_neg (by decide), if_neg (by decide), if_pos rfl, Event.fields]
      simp only [List.append_assoc]
      refine (scalar_exact.bind hpx _ _).trans ((scalar_exact.bind hqty _ _).trans ?_)
      refine (aggressor_exact.bind trivial _ _).trans ?_
      refine ((optional_exact word64_exact).bind (fun _ _ ↦ trivial) _ _).trans ?_
      refine ((optional_exact scalar_exact).bind hsome _ _).trans ?_
      exact tradeFlags_exact.bind trivial _ rest
  | level i ts side px qty count presence =>
      obtain ⟨hpx, hqty⟩ := List.forall_mem_append.mp hfits
      change Reader.event KIND_LEVEL i ts _ = _
      rw [Reader.event, if_neg (by decide), if_neg (by decide), if_neg (by decide), if_pos rfl,
        Event.fields]
      simp only [List.append_assoc]
      refine (side_exact.bind trivial _ _).trans ((scalar_exact.bind hpx _ _).trans ?_)
      refine (scalar_exact.bind hqty _ _).trans ?_
      refine ((optional_exact word16_exact).bind (fun _ _ ↦ trivial) _ _).trans ?_
      exact presence_exact.bind trivial _ rest
  | clear i ts scope =>
      change Reader.event KIND_CLEAR i ts _ = _
      rw [Reader.event, if_neg (by decide), if_neg (by decide), if_neg (by decide),
        if_neg (by decide), if_pos rfl, Event.fields]
      exact clearScope_exact.bind hfits _ rest

/-- A body is read as an event exactly when it starts as the body of one. -/
theorem readBody_ok {resolve : List Byte → Option InstrumentRef} :
    readBody resolve bs = .ok (some e, rest) ↔ ∃ symbol, Fits symbol ∧ EventFits e ∧
      resolve symbol = some e.handle ∧ bs = RecordWriter.body symbol e ++ rest := by
  rw [readBody]
  constructor
  · intro h
    obtain ⟨version, mid₁, -, rfl, h₁⟩ := byte_exact.of_bind h
    split at h₁
    next => exact absurd h₁ stateT_throw_ok
    next hversion =>
        obtain ⟨kind, mid₃, -, rfl, h₃⟩ := byte_exact.of_bind h₁
        obtain ⟨symbol, mid₄, hsymbol, rfl, h₄⟩ := str_exact.of_bind h₃
        cases hresolve : resolve symbol with
        | none =>
            rw [hresolve] at h₄
            exact absurd (stateT_pure_ok.mp h₄).1 nofun
        | some i =>
            rw [hresolve] at h₄
            obtain ⟨ts, mid₅, -, rfl, h₅⟩ := word64_exact.of_bind h₄
            obtain ⟨e', mid₆, he', h₆⟩ := stateT_bind_ok.mp h₅
            obtain ⟨heq, rfl⟩ := stateT_pure_ok.mp h₆
            obtain rfl := Option.some.inj heq
            obtain ⟨rfl, rfl, rfl, hfits, rfl⟩ := of_event he'
            refine ⟨symbol, hsymbol, hfits, hresolve, ?_⟩
            rw [body_eq, not_not.mp hversion]
            simp
  · rintro ⟨symbol, hsymbol, hfits, hresolve, rfl⟩
    rw [body_eq]
    refine (byte_exact.bind (a := VERSION) trivial _ _).trans ?_
    rw [if_neg (not_not.mpr rfl)]
    refine (byte_exact.bind (a := e.kind) trivial _ _).trans ?_
    change (Reader.str >>= _) ((RecordWriter.str symbol ++ le64 e.time ++ e.fields) ++ rest) = _
    rw [List.append_assoc, List.append_assoc]
    refine (str_exact.bind hsymbol _ _).trans ?_
    rw [hresolve]
    refine (word64_exact.bind trivial _ _).trans ?_
    exact stateT_bind_ok.mpr ⟨e, rest, event_fields hfits rest, rfl⟩

end

/-! ## The records -/

/-- The record of an event. -/
def record (symbol : List Byte) (e : Event) : List Byte :=
  le32 (UInt32.ofNat (RecordWriter.body symbol e).length) ++ RecordWriter.body symbol e

theorem length_str_le (text : List Byte) : (RecordWriter.str text).length ≤ 2 ^ 16 + 1 := by
  rw [RecordWriter.str, List.length_append, length_le16, List.length_take]
  split <;> omega

theorem length_scalar_le (s : Scalar) : (RecordWriter.scalar s).length ≤ 2 ^ 16 + 2 := by
  cases s with
  | text text => exact Nat.succ_le_succ (length_str_le text)
  | fixed mantissa exponent =>
      rw [RecordWriter.scalar, List.length_cons, List.length_append, length_le64,
        List.length_singleton]
      omega

theorem length_sideUpdate_le (s : SideUpdate) :
    (RecordWriter.sideUpdate s).length ≤ 2 ^ 17 + 8 := by
  cases s with
  | gone => decide
  | present px qty count =>
      have hpx := length_scalar_le px
      have hqty := length_scalar_le qty
      have hcount : (RecordWriter.optional le16 count).length ≤ 3 := by
        cases count with
        | none => decide
        | some count =>
            rw [RecordWriter.optional, List.length_cons, length_le16]
      rw [RecordWriter.sideUpdate, List.length_cons, List.length_append, List.length_append]
      omega

/-- No record is too long for its length field, whatever its texts. -/
theorem length_body_lt (symbol : List Byte) (e : Event) :
    (RecordWriter.body symbol e).length < 2 ^ 32 := by
  suffices hfields : e.fields.length ≤ 2 ^ 20 by
    have hsymbol := length_str_le symbol
    rw [body_eq, List.length_cons, List.length_cons, List.length_append, List.length_append,
      length_le64]
    omega
  cases e with
  | quote i ts bid ask id =>
      have hbid := length_sideUpdate_le bid
      have hask := length_sideUpdate_le ask
      have hid : (id.elim [] le64).length ≤ 8 := by
        cases id with
        | none => exact Nat.zero_le _
        | some id => exact Nat.le_of_eq (length_le64 id)
      rw [Event.fields, List.length_append, List.length_append]
      omega
  | trade i ts px qty a id volume flags =>
      have hpx := length_scalar_le px
      have hqty := length_scalar_le qty
      have hid : (RecordWriter.optional le64 id).length ≤ 9 := by
        cases id with
        | none => decide
        | some id => exact Nat.succ_le_succ (Nat.le_of_eq (length_le64 id))
      have hvolume : (RecordWriter.optional RecordWriter.scalar volume).length ≤ 2 ^ 16 + 3 := by
        cases volume with
        | none => decide
        | some volume => exact Nat.succ_le_succ (length_scalar_le volume)
      simp only [Event.fields, List.length_append, List.length_singleton]
      omega
  | level i ts side px qty count presence =>
      have hpx := length_scalar_le px
      have hqty := length_scalar_le qty
      have hcount : (RecordWriter.optional le16 count).length ≤ 3 := by
        cases count with
        | none => decide
        | some count => exact Nat.succ_le_succ (Nat.le_of_eq (length_le16 count))
      simp only [Event.fields, List.length_append, List.length_singleton]
      omega
  | clear i ts scope =>
      cases scope with
      | entireSide | bothSides => exact Nat.le_of_lt (by simp [Event.fields, RecordWriter.clearScope])
      | fromPrice side px =>
          have hpx := length_scalar_le px
          rw [Event.fields, RecordWriter.clearScope, List.length_cons, List.length_cons]
          omega

section

variable {symbol bytes : List Byte} {e : Event}

/-- A record is always written. -/
theorem write_eq (symbol : List Byte) (e : Event) (out : List Byte) :
    RecordWriter.write symbol e out = some (out ++ record symbol e) := by
  rw [RecordWriter.write, record, ← List.append_assoc]
  exact if_pos (length_body_lt symbol e)

theorem length_record (symbol : List Byte) (e : Event) :
    (record symbol e).length = (RecordWriter.body symbol e).length + 4 := by
  rw [record, List.length_append, length_le32, Nat.add_comm]

theorem declared_record (symbol : List Byte) (e : Event) (more : List Byte) :
    declared (record symbol e ++ more) = (RecordWriter.body symbol e).length := by
  have htake : (record symbol e ++ more).take 4 =
      le32 (UInt32.ofNat (RecordWriter.body symbol e).length) := by
    rw [record, List.append_assoc]
    exact List.take_left' (length_le32 _)
  rw [declared, htake, le32, ofLE_toLE_of_lt (UInt32.toNat_lt _),
    UInt32.toNat_ofNat_of_lt' (length_body_lt symbol e)]

theorem recordLen_record (symbol : List Byte) (e : Event) (more : List Byte) :
    recordLen (record symbol e ++ more) = some (record symbol e).length := by
  have hlen : (record symbol e ++ more).length =
      (RecordWriter.body symbol e).length + 4 + more.length := by
    rw [List.length_append, length_record]
  rw [recordLen, declared_record, if_pos (by omega), length_record]
  exact if_pos (by omega)

/-- A record is read as an event exactly when it is that event's, of a symbol it is resolved to. -/
theorem decode_ok {resolve : List Byte → Option InstrumentRef} :
    decode bytes resolve = .ok (some e) ↔ ∃ symbol rest, Fits symbol ∧ EventFits e ∧
      resolve symbol = some e.handle ∧ bytes = record symbol e ++ rest := by
  constructor
  · intro h
    rw [decode] at h
    split at h
    next => cases h
    next hheader =>
    split at h
    next => cases h
    next hlen =>
        obtain ⟨⟨event, rest⟩, hbody, hend⟩ := bind_eq_ok.mp h
        dsimp only at hend
        split at hend
        next => cases hend
        next hleft =>
            obtain rfl := Except.ok.inj hend
            obtain rfl : rest = [] := by simpa using hleft
            obtain ⟨symbol, hsymbol, hfits, hresolve, hbytes⟩ := readBody_ok.mp hbody
            rw [List.append_nil] at hbytes
            have hlength : (RecordWriter.body symbol e).length = declared bytes := by
              rw [← hbytes, List.length_take, List.length_drop]
              omega
            refine ⟨symbol, (bytes.drop 4).drop (declared bytes), hsymbol, hfits, hresolve, ?_⟩
            have hfour : (bytes.take 4).length = 4 := List.length_take_of_le (by omega)
            rw [record, hlength, declared, le32_ofLE hfour, ← declared, ← hbytes,
              List.append_assoc, List.take_append_drop, List.take_append_drop]
  · rintro ⟨symbol, rest, hsymbol, hfits, hresolve, rfl⟩
    have hlength := length_record symbol e
    have hbody : 2 ≤ (RecordWriter.body symbol e).length := by
      rw [body_eq, List.length_cons, List.length_cons]
      omega
    have hdrop : ((record symbol e ++ rest).drop 4).take (RecordWriter.body symbol e).length =
        RecordWriter.body symbol e := by
      rw [record, List.append_assoc, List.drop_left' (length_le32 _), List.take_left]
    rw [decode, declared_record, List.length_append, HEADER, if_neg (by omega),
      if_neg (by omega), hdrop]
    refine bind_eq_ok.mpr ⟨(some e, []), ?_, rfl⟩
    exact readBody_ok.mpr ⟨symbol, hsymbol, hfits, hresolve, (List.append_nil _).symm⟩

end

/-! ## Statements -/

/-- An event and the symbol it is stated under: texts, so UTF-8. -/
structure Statement where
  symbol : List Byte
  event : Event
  utf8 : ∀ text ∈ symbol :: event.texts, isUtf8 text = true

namespace Statement

/-- Every text is as long as its length field can state. -/
def Short (x : Statement) : Prop := ∀ text ∈ x.symbol :: x.event.texts, text.length < 2 ^ 16

/-- The event is appended as one record, and the record is read back as the event. -/
def RoundTrips (x : Statement) : Prop :=
  ∀ out, ∃ written, RecordWriter.write x.symbol x.event out = some (out ++ written) ∧
    (∀ more, recordLen (written ++ more) = some written.length) ∧
    ∀ resolve i, resolve x.symbol = some i →
      decode written resolve = .ok (some (x.event.withHandle i))

/-- The records of statements, one behind the other. -/
def writeAll : List Statement → List Byte → Option (List Byte)
  | [], out => some out
  | x :: xs, out => (RecordWriter.write x.symbol x.event out).bind (writeAll xs)

/-- The records are written behind one another, and a payload of them is read as the events. -/
def ReadBack (xs : List Statement) : Prop :=
  ∀ out, ∃ stream, writeAll xs out = some (out ++ stream) ∧
    ∀ resolve, (∀ x ∈ xs, resolve x.symbol = some x.event.handle) →
      onPayload resolve stream = { messages := xs.length, events := xs.map event }

theorem fits_iff (x : Statement) : Fits x.symbol ∧ EventFits x.event ↔ x.Short := by
  constructor
  · rintro ⟨hsymbol, hevent⟩ text htext
    rcases List.mem_cons.mp htext with rfl | htext
    · exact hsymbol.length
    · exact (hevent text htext).length
  · intro h
    refine ⟨⟨x.utf8 _ List.mem_cons_self, h _ List.mem_cons_self⟩, fun text htext ↦ ?_⟩
    have hmem := List.mem_cons_of_mem x.symbol htext
    exact ⟨x.utf8 text hmem, h text hmem⟩

theorem body_withHandle (symbol : List Byte) (e : Event) (i : InstrumentRef) :
    RecordWriter.body symbol (e.withHandle i) = RecordWriter.body symbol e := by
  cases e with
  | quote _ _ _ _ id => cases id <;> rfl
  | trade | level | clear => rfl

theorem texts_withHandle (e : Event) (i : InstrumentRef) : (e.withHandle i).texts = e.texts := by
  cases e <;> rfl

theorem handle_withHandle (e : Event) (i : InstrumentRef) : (e.withHandle i).handle = i := by
  cases e <;> rfl

theorem roundTrips_iff (x : Statement) : x.RoundTrips ↔ x.Short := by
  constructor
  · intro h
    obtain ⟨written, hwrite, -, hdecode⟩ := h []
    rw [write_eq, List.nil_append, List.nil_append, Option.some.injEq] at hwrite
    subst hwrite
    -- a reader that knows the symbol alone has read it off the record
    have hread := hdecode (fun s ↦ if s = x.symbol then some x.event.handle else none) _ (if_pos rfl)
    obtain ⟨symbol, rest, hsymbol, hfits, hresolve, -⟩ := decode_ok.mp hread
    have heq : symbol = x.symbol := by
      by_contra hne
      rw [if_neg hne] at hresolve
      cases hresolve
    rw [EventFits, texts_withHandle] at hfits
    exact x.fits_iff.mp ⟨heq ▸ hsymbol, hfits⟩
  · intro h out
    obtain ⟨hsymbol, hfits⟩ := x.fits_iff.mpr h
    refine ⟨record x.symbol x.event, write_eq _ _ _, recordLen_record _ _, fun resolve i hi ↦ ?_⟩
    refine decode_ok.mpr ⟨x.symbol, [], hsymbol, ?_, ?_, ?_⟩
    · rwa [EventFits, texts_withHandle]
    · rw [handle_withHandle, hi]
    · rw [record, record, body_withHandle, List.append_nil]

theorem writeAll_eq (xs : List Statement) (out : List Byte) :
    writeAll xs out = some (out ++ xs.flatMap fun x ↦ record x.symbol x.event) := by
  induction xs generalizing out with
  | nil => exact congrArg some (List.append_nil out).symm
  | cons x xs ih =>
      rw [writeAll, write_eq, Option.bind_some, ih, List.flatMap_cons, List.append_assoc]

theorem payloadFrom_records {xs : List Statement} (h : ∀ x ∈ xs, x.Short)
    {resolve : List Byte → Option InstrumentRef}
    (hresolve : ∀ x ∈ xs, resolve x.symbol = some x.event.handle) {fuel : ℕ}
    (hfuel : xs.length ≤ fuel) :
    payloadFrom resolve fuel (xs.flatMap fun x ↦ record x.symbol x.event) =
      { messages := xs.length, events := xs.map event } := by
  induction xs generalizing fuel with
  | nil => cases fuel <;> rfl
  | cons x xs ih =>
      obtain ⟨fuel, rfl⟩ := Nat.exists_eq_add_one_of_ne_zero (Nat.ne_zero_of_lt hfuel)
      obtain ⟨hsymbol, hfits⟩ := x.fits_iff.mpr (h x List.mem_cons_self)
      have hread : decode (record x.symbol x.event) resolve = .ok (some x.event) :=
        decode_ok.mpr ⟨x.symbol, [], hsymbol, hfits, hresolve x List.mem_cons_self,
          (List.append_nil _).symm⟩
      have hne : record x.symbol x.event ++ (xs.flatMap fun x ↦ record x.symbol x.event) ≠ [] := by
        intro hnil
        have hlen := length_record x.symbol x.event
        rw [(List.append_eq_nil_iff.mp hnil).1] at hlen
        exact absurd hlen.symm (Nat.succ_ne_zero _)
      rw [List.flatMap_cons, payloadFrom, if_neg hne, recordLen_record]
      dsimp only
      rw [List.take_left, List.drop_left, hread, ih (fun y hy ↦ h y (List.mem_cons_of_mem x hy))
        (fun y hy ↦ hresolve y (List.mem_cons_of_mem x hy)) (Nat.le_of_succ_le_succ hfuel)]
      rfl

theorem length_le_records (xs : List Statement) :
    xs.length ≤ (xs.flatMap fun x ↦ record x.symbol x.event).length := by
  induction xs with
  | nil => exact Nat.le_refl _
  | cons x xs ih =>
      rw [List.flatMap_cons, List.length_append, length_record, List.length_cons]
      omega

end Statement

/-- **Events that are written are read back exactly when their texts are short enough for their length
fields**; the records of such events are read back one by one, and what is read as an event is the
record that is written of it. -/
theorem records_round_trip (x : Statement) (xs : List Statement) (bytes : List Byte)
    (resolve : List Byte → Option InstrumentRef) (e : Event) :
    (x.RoundTrips ↔ x.Short) ∧
    ((∀ x ∈ xs, x.Short) → Statement.ReadBack xs) ∧
    (decode bytes resolve = .ok (some e) →
      ∃ symbol n, resolve symbol = some e.handle ∧ recordLen bytes = some n ∧
        RecordWriter.write symbol e [] = some (bytes.take n)) := by
  refine ⟨x.roundTrips_iff, fun h out ↦ ?_, fun h ↦ ?_⟩
  · refine ⟨_, Statement.writeAll_eq xs out, fun resolve hresolve ↦ ?_⟩
    exact Statement.payloadFrom_records h hresolve (Statement.length_le_records xs)
  · obtain ⟨symbol, rest, -, -, hresolve, rfl⟩ := decode_ok.mp h
    refine ⟨symbol, _, hresolve, recordLen_record symbol e rest, ?_⟩
    rw [write_eq, List.nil_append, List.take_left]

/-! ## A text that is too long -/

/-- A price of 65,536 digits. -/
def longPrice : Statement where
  symbol := []
  event := .clear ⟨0⟩ 0 (.fromPrice .bid (.text (List.replicate (2 ^ 16) 0x30)))
  utf8 := by
    intro text htext
    rcases List.mem_cons.mp htext with rfl | htext
    · rfl
    · rw [List.mem_singleton.mp htext]
      refine isUtf8_of_ascii fun b hb ↦ ?_
      rw [List.eq_of_mem_replicate hb]
      decide

/-- Its record is cut to the length its field can state, and reads as another price. -/
theorem not_roundTrips_longPrice : ¬longPrice.RoundTrips := by
  rw [Statement.roundTrips_iff]
  intro h
  have hlt := h _ (List.mem_cons_of_mem _ List.mem_cons_self)
  rw [List.length_replicate] at hlt
  exact Nat.lt_irrefl _ hlt

end EdgeMulticast.Uds
