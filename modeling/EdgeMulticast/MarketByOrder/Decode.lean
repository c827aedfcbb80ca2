import EdgeMulticast.MarketByOrder.Runs

/-!
# Orders from the wire to the book

`bot.go`, with the order messages of the parser.  A record of the parser is a line of JSON, and
the book-builder reads every number in its bag as a double; then `shard.go` narrows it to the
width of the field.

Two ids that no double tells apart are one order of the book (`ids_collide`).
`identity_kept_iff` says which additions reach the book as they were sent: those whose id, price
and quantity a double represents.

The conversion of a double beyond the range of a word is left to the platform by the language.
It concerns the numbers that round up to the end of the range, and takes them to another number
here.
-/

namespace EdgeMulticast.MarketByOrder

open Std (ExtTreeMap)
open EdgeMulticast.Lib

/-! ## Numbers -/

/-- A JSON integer in an interface value: the nearest double. -/
def number (z : ℤ) : ℤ := nearestInt 53 z

theorem number_natCast (n : ℕ) : number n = nearest 53 n := nearestInt_natCast 53 n

/-- A number of a narrow field is kept. -/
theorem number_of_lt {n : ℕ} (h : n < 2 ^ 53) : number n = n := by
  rw [number_natCast, (Representable.of_lt h).nearest_eq]

theorem toUint64_natCast {n : ℕ} (h : n < 2 ^ 64) : toUint64 n = n := by
  rw [toUint64, toUnsigned64, if_pos ⟨Int.natCast_nonneg n, by exact_mod_cast h⟩, Int.toNat_natCast]

/-- A number beyond the range is converted to the middle of it. -/
theorem toUint64_of_le {n : ℕ} (h : 2 ^ 64 ≤ n) : toUint64 n = 2 ^ 63 := by
  have hlarge : ¬((n : ℤ) < 2 ^ 64) := by
    rw [not_lt]
    exact_mod_cast h
  have hsigned : ¬((n : ℤ) < 2 ^ 63) := by omega
  rw [toUint64, toUnsigned64, if_neg fun h ↦ hlarge h.2, lowBits, toSigned64,
    if_neg fun h ↦ hsigned h.2]
  decide

/-- What is read is represented. -/
theorem representable_toUint64 (n : ℕ) : Representable 53 (toUint64 (number n)) := by
  rw [number_natCast]
  rcases Nat.lt_or_ge (nearest 53 n) (2 ^ 64) with hlt | hle
  · rw [toUint64_natCast hlt]
    exact representable_nearest (by decide) n
  · rw [toUint64_of_le hle]
    exact Representable.two_pow (by decide) 63

/-- An unsigned number is kept exactly when a double represents it. -/
theorem toUint64_number_eq_iff {n : ℕ} (h : n < 2 ^ 64) :
    toUint64 (number n) = n ↔ Representable 53 n := by
  constructor
  · intro heq
    rw [← heq]
    exact representable_toUint64 n
  · intro hrep
    rw [number_natCast, hrep.nearest_eq, toUint64_natCast h]

theorem toInt64_of_mem {z : ℤ} (hge : -2 ^ 63 ≤ z) (hlt : z < 2 ^ 63) : toInt64 z = z := by
  rw [toInt64, toSigned64, if_pos ⟨hge, hlt⟩]

theorem nearest_natAbs_le {z : ℤ} (hge : -2 ^ 63 ≤ z) (hlt : z < 2 ^ 63) :
    nearest 53 z.natAbs ≤ 2 ^ 63 :=
  nearest_le (by decide) (by decide) (by omega)

/-- A signed number is kept exactly when a double represents it. -/
theorem toInt64_number_eq_iff {z : ℤ} (hge : -2 ^ 63 ≤ z) (hlt : z < 2 ^ 63) :
    toInt64 (number z) = z ↔ Representable 53 z.natAbs := by
  constructor
  · intro heq
    have hle := nearest_natAbs_le hge hlt
    have hnumber : number z = z.sign * nearest 53 z.natAbs := rfl
    rw [← nearest_eq_iff (by decide)]
    rcases lt_trichotomy z 0 with hneg | rfl | hpos
    · rw [Int.sign_eq_neg_one_of_neg hneg] at hnumber
      rw [toInt64_of_mem (by omega) (by omega)] at heq
      omega
    · rfl
    · rw [Int.sign_eq_one_of_pos hpos] at hnumber
      rw [toInt64, toSigned64] at heq
      split at heq <;> omega
  · intro hrep
    have hnumber : number z = z := by
      rw [number, nearestInt, hrep.nearest_eq]
      exact Int.sign_mul_natAbs z
    rw [hnumber, toInt64_of_mem hge hlt]

/-! ## Messages -/

/-- An order that is added, as the wire has it. -/
structure OrderAdd where
  channelID : ℕ
  sequenceNumber : ℕ
  instrumentID : ℕ
  side : SideName
  orderFlags : ℕ
  perInstrumentSeq : ℕ
  orderID : ℕ
  enterTS : ℕ
  priceRaw : ℤ
  qtyRaw : ℕ
  flags_lt : orderFlags < 2 ^ 8
  seq_lt : perInstrumentSeq < 2 ^ 32
  id_lt : orderID < 2 ^ 64
  price_ge : -2 ^ 63 ≤ priceRaw
  price_lt : priceRaw < 2 ^ 63
  qty_lt : qtyRaw < 2 ^ 64

/-- An order that is cancelled. -/
structure OrderCancel where
  channelID : ℕ
  sequenceNumber : ℕ
  instrumentID : ℕ
  perInstrumentSeq : ℕ
  orderID : ℕ
  seq_lt : perInstrumentSeq < 2 ^ 32
  id_lt : orderID < 2 ^ 64

namespace OrderAdd

variable (m : OrderAdd)

def key : InstKey := ⟨m.channelID, m.instrumentID⟩

/-- The record that `read` dispatches: the bag of the parser, through JSON. -/
def record : Record where
  type := .orderAdd
  channelID := m.channelID
  sequenceNumber := m.sequenceNumber
  instrumentID := m.instrumentID
  fields := {
    side := m.side
    orderFlags := number m.orderFlags
    perInstrumentSeq := number m.perInstrumentSeq
    orderId := number m.orderID
    enterTs := m.enterTS
    priceRaw := number m.priceRaw
    qtyRaw := number m.qtyRaw }

/-- The order that was sent. -/
def order : RestingOrder :=
  ⟨m.orderID, sideFromString m.side, m.orderFlags, m.enterTS, m.priceRaw, m.qtyRaw⟩

/-- The order that is put into the book. -/
def put : RestingOrder :=
  ⟨toUint64 (number m.orderID), sideFromString m.side, m.orderFlags, m.enterTS,
    toInt64 (number m.priceRaw), toUint64 (number m.qtyRaw)⟩

/-- A double represents the id, the price and the quantity. -/
structure Represented : Prop where
  orderID : Representable 53 m.orderID
  priceRaw : Representable 53 m.priceRaw.natAbs
  qtyRaw : Representable 53 m.qtyRaw

/-- An order is put into the book as it was sent exactly when it is represented. -/
theorem put_eq_order_iff : m.put = m.order ↔ m.Represented := by
  rw [put, order, RestingOrder.mk.injEq]
  constructor
  · rintro ⟨hid, -, -, -, hprice, hqty⟩
    exact ⟨(toUint64_number_eq_iff m.id_lt).mp hid,
      (toInt64_number_eq_iff m.price_ge m.price_lt).mp hprice,
      (toUint64_number_eq_iff m.qty_lt).mp hqty⟩
  · rintro ⟨hid, hprice, hqty⟩
    exact ⟨(toUint64_number_eq_iff m.id_lt).mpr hid, rfl, rfl, rfl,
      (toInt64_number_eq_iff m.price_ge m.price_lt).mpr hprice,
      (toUint64_number_eq_iff m.qty_lt).mpr hqty⟩

theorem record_seq : m.record.perInstrumentSeq = m.perInstrumentSeq := by
  have hlt := m.seq_lt
  have hnumber : number m.perInstrumentSeq = m.perInstrumentSeq := number_of_lt (by omega)
  rw [Record.perInstrumentSeq, record, hnumber, toUint32_natCast hlt]

end OrderAdd

namespace OrderCancel

variable (c : OrderCancel)

def key : InstKey := ⟨c.channelID, c.instrumentID⟩

def record : Record where
  type := .orderCancel
  channelID := c.channelID
  sequenceNumber := c.sequenceNumber
  instrumentID := c.instrumentID
  fields := { perInstrumentSeq := number c.perInstrumentSeq, orderId := number c.orderID }

theorem record_seq : c.record.perInstrumentSeq = c.perInstrumentSeq := by
  have hlt := c.seq_lt
  have hnumber : number c.perInstrumentSeq = c.perInstrumentSeq := number_of_lt (by omega)
  rw [Record.perInstrumentSeq, record, hnumber, toUint32_natCast hlt]

end OrderCancel

/-! ## The book -/

namespace Instrument

variable (i : Instrument)

/-- The orders of a side. -/
def book (side : ℕ) : Orders := if side = 0 then i.bids else i.asks

/-- An order rests as it is, under its own id. -/
def Carries (o : RestingOrder) : Prop := (i.book o.side)[o.orderID]? = some o

/-- An addition puts its order on its side, under its id. -/
theorem book_add (m : OrderAdd) (side id : ℕ) :
    ((i.applied m.record).book side)[id]? =
      if (side = 0 ↔ m.put.side = 0) ∧ m.put.orderID = id then some m.put
      else (i.book side)[id]? := by
  have hflags : toUint8 (number m.orderFlags) = m.orderFlags := by
    have hlt := m.flags_lt
    rw [number_of_lt (by omega), toUint8, lowBits_natCast hlt (by decide)]
  have horder : (⟨m.record.orderID, sideFromString m.record.fields.side,
      toUint8 m.record.fields.orderFlags, m.record.fields.enterTs,
      toInt64 m.record.fields.priceRaw, toUint64 m.record.fields.qtyRaw⟩ : RestingOrder) = m.put := by
    rw [OrderAdd.put, ← hflags]
    rfl
  have hmutate : i.mutate m.record = if m.put.side = 0 then
      { i with bids := i.bids.insert m.put.orderID m.put }
      else { i with asks := i.asks.insert m.put.orderID m.put } := by
    rw [← horder]
    rfl
  simp only [book, applied, hmutate]
  by_cases hside : side = 0 <;> by_cases hput : m.put.side = 0 <;>
    simp [hside, hput, getElem?_insert_eq]

/-- A cancellation takes the id off both sides. -/
theorem book_cancel (c : OrderCancel) (side id : ℕ) :
    ((i.applied c.record).book side)[id]? =
      if toUint64 (number c.orderID) = id then none else (i.book side)[id]? := by
  have hmutate : i.mutate c.record =
      { i with bids := i.bids.erase (toUint64 (number c.orderID))
               asks := i.asks.erase (toUint64 (number c.orderID)) } := rfl
  simp only [book, applied, hmutate]
  split <;> rw [getElem?_erase_eq]

/-- Nothing is held: a contiguous record is applied, and no other. -/
theorem catchUp_of_none {i : Instrument} (h : i.pending = none) (rec : Record) :
    i.catchUp rec = i.applied rec := by
  have hsize : (i.applied rec).pendingSize = 0 := by
    rw [pendingSize, applied_pending, h]
    rfl
  rw [catchUp, hsize]
  rfl

end Instrument

namespace Shard

/-- A book that awaits a number, and holds no record back. -/
def Awaits (s : Shard) (k : InstKey) (seq : ℕ) (i : Instrument) : Prop :=
  s.instruments[k]? = some i ∧ i.status = .ready ∧ i.pending = none ∧ i.expected = seq

/-- The awaited record is applied. -/
theorem Awaits.step {s : Shard} {k : InstKey} {i : Instrument} {rec : Record}
    (h : s.Awaits k rec.perInstrumentSeq i) (hdelta : rec.isDelta = true) (hkey : rec.key = k)
    (σ : Choices) : (s.step (σ, .record rec)).Awaits k ((rec.perInstrumentSeq + 1) % 2 ^ 32)
      (i.applied rec) := by
  obtain ⟨hinst, hready, hnone, hseq⟩ := h
  have hstep : s.step (σ, .record rec) = s.setInst k (i.applied rec) := by
    have happly : s.step (σ, .record rec) = (s.applyDelta (σ 0) k rec).1 := by
      rw [← hkey]
      rw [Record.isDelta, Bool.or_eq_true, Bool.or_eq_true, decide_eq_true_eq, decide_eq_true_eq,
        decide_eq_true_eq] at hdelta
      rcases hdelta with (htype | htype) | htype <;> simp only [Shard.step, apply, htype]
    rw [happly, applyDelta, hinst]
    dsimp only
    rw [if_pos hready, applyDeltaToReady_of_eq s k i rec (σ 0) hseq.symm,
      Instrument.catchUp_of_none hnone]
  rw [hstep]
  exact ⟨setInst_self .., by simp [hready], by simp [hnone], by simp [Instrument.expected]⟩

/-- The book becomes ready behind an empty snapshot. -/
def readying (k : InstKey) (lastInstr : ℤ) : List Turn :=
  [(default, .record (snapshotBeginRec k 0 0 0 lastInstr)),
    (default, .record (snapshotEndRec k 0 0))]

/-- The shadow that an empty group opens, and its end commits. -/
def emptyShadow (lastInstr : ℕ) : PendingSnapshot where
  snapshotID := 0
  anchorSeq := 0
  totalOrders := 0
  lastInstrumentSeq := lastInstr
  receivedOrders := 0
  bids := ∅
  asks := ∅

theorem readying_instrument (k : InstKey) (lastInstr : ℤ) :
    (run step new (readying k lastInstr)).instruments[k]? = some
      ((Instrument.new k.id "" 0 0).commitSnapshot (emptyShadow (toUint32 lastInstr))) := by
  have hbegin : (new.applySnapshotBegin k (snapshotBeginRec k 0 0 0 lastInstr)).instruments[k]? =
      some { Instrument.new k.id "" 0 0 with
        openSnapshot := some (emptyShadow (toUint32 lastInstr)) } := by
    rw [applySnapshotBegin]
    exact setInst_self ..
  have hbuf : (new.applySnapshotBegin k (snapshotBeginRec k 0 0 0 lastInstr)).buffered k =
      Slice.nil := by
    simp [applySnapshotBegin, new, buffered, setInst, Instrument.new]
  have hend : (emptyShadow (toUint32 lastInstr)).Committable (snapshotEndRec k 0 0) :=
    ⟨rfl, rfl, rfl⟩
  change ((new.applySnapshotBegin k _).applySnapshotEnd k (snapshotEndRec k 0 0) default).1.instruments[
    k]? = _
  rw [applySnapshotEnd_of_commit default hbegin rfl hend, replayBuffer]
  simp only [buffered, setInst, closed_deltaBuf] at hbuf ⊢
  rw [hbuf]
  exact setInst_self ..

theorem readying_awaits (k : InstKey) {seq : ℕ} (hseq : seq < 2 ^ 32) :
    ∃ i, (run step new (readying k ((seq + (2 ^ 32 - 1)) % 2 ^ 32 : ℕ))).Awaits k seq i ∧
      i.bids = ∅ ∧ i.asks = ∅ := by
  have hlast : toUint32 ((seq + (2 ^ 32 - 1)) % 2 ^ 32 : ℕ) = (seq + (2 ^ 32 - 1)) % 2 ^ 32 :=
    toUint32_natCast (Nat.mod_lt _ (by decide))
  refine ⟨_, ⟨readying_instrument k _, rfl, rfl, ?_⟩, rfl, rfl⟩
  rw [hlast]
  change ((seq + (2 ^ 32 - 1)) % 2 ^ 32 + 1) % 2 ^ 32 = seq
  omega

end Shard

/-! ## Two orders -/

/-- Two orders of one instrument, one behind the other, with an id each. -/
structure Adds where
  first : OrderAdd
  second : OrderAdd
  key_eq : second.key = first.key
  seq_eq : second.perInstrumentSeq = (first.perInstrumentSeq + 1) % 2 ^ 32
  id_ne : first.orderID ≠ second.orderID

namespace Adds

variable (p : Adds)

/-- The additions, read by a shard. -/
def turns (σ τ : Choices) : List Turn := [(σ, .record p.first.record), (τ, .record p.second.record)]

/-- The two orders rest as they were sent, and a cancellation of one takes that one only. -/
def Kept (s : Shard) : Prop :=
  ∀ σ τ, ∃ i, (run Shard.step s (p.turns σ τ)).instruments[p.first.key]? = some i ∧
    i.Carries p.first.order ∧ i.Carries p.second.order ∧
    ∀ (υ : Choices) (c : OrderCancel), c.key = p.first.key → c.perInstrumentSeq = i.expected →
      c.orderID = p.first.orderID ∨ c.orderID = p.second.orderID →
      ∃ j, ((run Shard.step s (p.turns σ τ)).step (υ, .record c.record)).instruments[
          p.first.key]? = some j ∧
        ∀ side id : ℕ, (j.book side)[id]? =
          if c.orderID = id then none else (i.book side)[id]?

variable {p} {s : Shard} {i : Instrument}

/-- Both additions are applied. -/
theorem awaits_turns (h : s.Awaits p.first.key p.first.perInstrumentSeq i) (σ τ : Choices) :
    (run Shard.step s (p.turns σ τ)).Awaits p.first.key ((p.second.perInstrumentSeq + 1) % 2 ^ 32)
      ((i.applied p.first.record).applied p.second.record) := by
  rw [← p.first.record_seq] at h
  have hfirst := h.step rfl rfl σ
  rw [p.first.record_seq, ← p.seq_eq, ← p.second.record_seq] at hfirst
  have hsecond := @Shard.Awaits.step _ _ _ p.second.record hfirst rfl p.key_eq τ
  rw [p.second.record_seq] at hsecond
  exact hsecond

/-- What is sent in a represented number rests as it is. -/
theorem kept_of_represented (h : s.Awaits p.first.key p.first.perInstrumentSeq i)
    (hfirst : p.first.Represented) (hsecond : p.second.Represented) : p.Kept s := by
  intro σ τ
  have hawaits := awaits_turns h σ τ
  have hput₁ := p.first.put_eq_order_iff.mpr hfirst
  have hput₂ := p.second.put_eq_order_iff.mpr hsecond
  refine ⟨_, hawaits.1, ?_, ?_, fun υ c hkey hseq hid ↦ ?_⟩
  · rw [Instrument.Carries, Instrument.book_add, hput₂, if_neg fun hand ↦ p.id_ne hand.2.symm,
      Instrument.book_add, hput₁, if_pos ⟨Iff.rfl, rfl⟩]
  · rw [Instrument.Carries, Instrument.book_add, hput₂, if_pos ⟨Iff.rfl, rfl⟩]
  · have hcancel : toUint64 (number c.orderID) = c.orderID := by
      rw [toUint64_number_eq_iff c.id_lt]
      rcases hid with heq | heq
      · rw [heq]
        exact hfirst.orderID
      · rw [heq]
        exact hsecond.orderID
    have hnext : (run Shard.step s (p.turns σ τ)).Awaits p.first.key c.record.perInstrumentSeq
        ((i.applied p.first.record).applied p.second.record) := by
      rw [c.record_seq, hseq, hawaits.2.2.2]
      exact hawaits
    refine ⟨_, (hnext.step rfl hkey υ).1, fun side id ↦ ?_⟩
    rw [Instrument.book_cancel, hcancel]

/-- An id that is read is read again as it is. -/
theorem put_orderID_ne (hswap : p.first.put.orderID = p.second.orderID) :
    p.second.put.orderID ≠ p.first.orderID := by
  intro hback
  have hrep : Representable 53 p.second.orderID := hswap ▸ representable_toUint64 p.first.orderID
  have hkept : p.second.put.orderID = p.second.orderID :=
    (toUint64_number_eq_iff p.second.id_lt).mpr hrep
  exact p.id_ne (hback.symm.trans hkept)

/-- What rests as it was sent in an empty book is represented. -/
theorem represented_of_kept (h : s.Awaits p.first.key p.first.perInstrumentSeq i)
    (hempty : i.bids = ∅ ∧ i.asks = ∅) (hkept : p.Kept s) :
    p.first.Represented ∧ p.second.Represented := by
  obtain ⟨j, hj, hfirst, hsecond, -⟩ := hkept default default
  obtain rfl := Option.some.inj ((awaits_turns h default default).1.symm.trans hj)
  have hbook (side id : ℕ) : (i.book side)[id]? = none := by
    rw [Instrument.book, hempty.1, hempty.2]
    split <;> simp
  rw [Instrument.Carries, Instrument.book_add, Instrument.book_add, hbook] at hfirst hsecond
  have hfirst' : p.first.put = p.first.order := by
    split at hfirst
    next hback =>
        -- the second order is where the first should be, so the first is nowhere
        split at hsecond
        next hown => exact absurd (hback.2.symm.trans hown.2) p.id_ne
        next =>
            split at hsecond
            next hswap => exact absurd hback.2 (put_orderID_ne hswap.2)
            next => cases hsecond
    next =>
        split at hfirst
        next => exact Option.some.inj hfirst
        next => cases hfirst
  have hsecond' : p.second.put = p.second.order := by
    split at hsecond
    next => exact Option.some.inj hsecond
    next =>
        split at hsecond
        next hswap => exact absurd ((congrArg RestingOrder.orderID hfirst').symm.trans hswap.2) p.id_ne
        next => cases hsecond
  exact ⟨p.first.put_eq_order_iff.mp hfirst', p.second.put_eq_order_iff.mp hsecond'⟩

end Adds

/-- **Two orders keep their identity exactly when doubles represent them.**  In every shard that
is reached and awaits the first, both rest as they were sent, and a cancellation of one takes that
one only, if and only if both ids, prices and quantities are represented. -/
theorem identity_kept_iff (p : Adds) :
    (∀ as i, (run Shard.step Shard.new as).Awaits p.first.key p.first.perInstrumentSeq i →
      p.Kept (run Shard.step Shard.new as)) ↔
      p.first.Represented ∧ p.second.Represented := by
  constructor
  · intro h
    obtain ⟨i, hawaits, hempty⟩ := Shard.readying_awaits p.first.key p.first.seq_lt
    exact Adds.represented_of_kept hawaits hempty (h _ i hawaits)
  · rintro ⟨hfirst, hsecond⟩ as i hawaits
    exact Adds.kept_of_represented hawaits hfirst hsecond

/-- An order of the ask side, with an id beyond the doubles or next to it. -/
def wideAdd (seq orderID : ℕ) (seq_lt : seq < 2 ^ 32) (id_lt : orderID < 2 ^ 64) : OrderAdd where
  channelID := 0
  sequenceNumber := 100 + seq
  instrumentID := 11
  side := .ask
  orderFlags := 0
  perInstrumentSeq := seq
  orderID := orderID
  enterTS := 0
  priceRaw := 6743250
  qtyRaw := 5
  flags_lt := by decide
  seq_lt := seq_lt
  id_lt := id_lt
  price_ge := by decide
  price_lt := by decide
  qty_lt := by decide

/-- Two orders whose ids are neighbours. -/
def neighbours : Adds where
  first := wideAdd 6 (2 ^ 53) (by decide) (by decide)
  second := wideAdd 7 (2 ^ 53 + 1) (by decide) (by decide)
  key_eq := rfl
  seq_eq := by decide
  id_ne := by decide

/-- The second order takes the place of the first. -/
theorem ids_collide :
    let s := run Shard.step Shard.new (Shard.readying ⟨0, 11⟩ 5)
    (s.instruments[(⟨0, 11⟩ : InstKey)]?).map Instrument.status = some .ready ∧
      ((run Shard.step s (neighbours.turns default default)).instruments[
          (⟨0, 11⟩ : InstKey)]?).map (fun i ↦ (i.bids.keys, i.asks.keys)) = some ([], [2 ^ 53]) ∧
      ¬neighbours.Kept s := by
  refine ⟨by decide +kernel, by decide +kernel, fun hkept ↦ ?_⟩
  obtain ⟨i, hi, -, hsecond, -⟩ := hkept default default
  have hasks : ((run Shard.step (run Shard.step Shard.new (Shard.readying ⟨0, 11⟩ 5))
      (neighbours.turns default default)).instruments[(⟨0, 11⟩ : InstKey)]?).all
        (fun i ↦ i.asks[2 ^ 53 + 1]?.isNone) = true := by
    decide +kernel
  have hkey : neighbours.first.key = ⟨0, 11⟩ := rfl
  rw [hkey] at hi
  rw [hi] at hasks
  have hcarries : i.asks[2 ^ 53 + 1]? = some neighbours.second.order := hsecond
  rw [Option.all_some, hcarries] at hasks
  cases hasks

end EdgeMulticast.MarketByOrder
