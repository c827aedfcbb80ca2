import EdgeMulticast.MarketByPrice.Runs

/-!
# The levels of a live book

Levels enter a live book by a delta that is applied, by one that is replayed, and by the commit of
a shadow.  `realLevels_run` is what all three keep, in runs whose level messages name a side and
whose snapshot levels are not empty: every level of a book has a quantity, and was stated for its
side by a message of the run.

Neither is checked where levels enter: a Side that is neither of the two is taken for a bid, and a
snapshot level without quantity is filed like any other
(`reserved_side_bids_empty_level_commits`).
-/

namespace EdgeMulticast.MarketByPrice

open Std (ExtTreeMap)
open EdgeMulticast.Lib

/-! ## Books -/

/-- Every level of a book satisfies `R`. -/
def BookReal (R : ℤ → LevelState → Prop) (b : Book) : Prop :=
  ∀ (price : ℤ) (l : LevelState), b[price]? = some l → R price l

namespace BookReal

variable {R : ℤ → LevelState → Prop} {b : Book}

theorem empty : BookReal R ∅ := by
  intro price l h
  simp at h

theorem erase (h : BookReal R b) (p : ℤ) : BookReal R (b.erase p) := by
  intro price l hl
  rw [getElem?_erase_eq] at hl
  split at hl
  next => cases hl
  next => exact h price l hl

theorem insert (h : BookReal R b) {p : ℤ} {l : LevelState} (hl : R p l) :
    BookReal R (b.insert p l) := by
  intro price l' hl'
  rw [getElem?_insert_eq] at hl'
  split at hl'
  next heq =>
    obtain rfl := Option.some.inj hl'
    exact heq ▸ hl
  next => exact h price l' hl'

theorem clearBook (h : BookReal R b) (scope : ℕ) (fromPriceRaw : ℤ) (isBid : Bool) :
    BookReal R (Instrument.clearBook scope fromPriceRaw isBid b) := by
  rw [Instrument.clearBook]
  split
  next => exact empty
  next =>
    intro price l hl
    rw [ExtTreeMap.getElem?_filter'] at hl
    exact h price l (Option.eq_some_of_filter_eq_some hl)

end BookReal

/-! ## One instrument -/

/-- The level that a record states. -/
def Record.levelState (rec : Record) : LevelState :=
  ⟨toUint64 rec.fields.qtyRaw, orderCountFrom rec.fields, toUint8 rec.fields.levelFlags⟩

/-- A record that puts a level on a side names the side, and the level satisfies `R`. -/
def Puts (R : SideName → ℤ → LevelState → Prop) (rec : Record) : Prop :=
  rec.fields.side ≠ .other ∧ R rec.fields.side (toInt64 rec.fields.priceRaw) rec.levelState

/-- The side that a record names, for the byte that it is read as. -/
theorem Puts.side {R : SideName → ℤ → LevelState → Prop} {rec : Record} (h : Puts R rec) :
    (sideFromString rec.fields.side ≠ 1 →
      R .bid (toInt64 rec.fields.priceRaw) rec.levelState) ∧
    (sideFromString rec.fields.side = 1 → R .ask (toInt64 rec.fields.priceRaw) rec.levelState) := by
  obtain ⟨hne, hlevel⟩ := h
  cases hside : rec.fields.side with
  | bid =>
      rw [hside] at hlevel
      exact ⟨fun _ ↦ hlevel, fun h ↦ absurd h (by decide)⟩
  | ask =>
      rw [hside] at hlevel
      exact ⟨fun h ↦ absurd rfl h, fun _ ↦ hlevel⟩
  | other => exact absurd hside hne

namespace Instrument

variable {R : SideName → ℤ → LevelState → Prop} {i : Instrument} {rec : Record}

/-- Every level of the live book and of the shadow satisfies `R`. -/
structure RealLevels (R : SideName → ℤ → LevelState → Prop) (i : Instrument) : Prop where
  bids : BookReal (R .bid) i.bids
  asks : BookReal (R .ask) i.asks
  shadow : ∀ p, i.openSnapshot = some p → BookReal (R .bid) p.bids ∧ BookReal (R .ask) p.asks

theorem new_realLevels (id : ℕ) (symbol : String) (priceExp qtyExp : ℤ) :
    (new id symbol priceExp qtyExp).RealLevels R where
  bids := .empty
  asks := .empty
  shadow := by rintro p ⟨⟩

theorem RealLevels.congr {j : Instrument} (h : i.RealLevels R) (hbids : j.bids = i.bids)
    (hasks : j.asks = i.asks) (hshadow : j.openSnapshot = i.openSnapshot) : j.RealLevels R where
  bids := hbids ▸ h.bids
  asks := hasks ▸ h.asks
  shadow := hshadow ▸ h.shadow

/-- Writing one side keeps the other and the shadow. -/
theorem RealLevels.setSide (h : i.RealLevels R) {s : ℕ} {b : Book}
    (hbids : s ≠ 1 → BookReal (R .bid) b) (hasks : s = 1 → BookReal (R .ask) b) :
    (i.setSide s b).RealLevels R := by
  rw [Instrument.setSide]
  split
  next hs => exact ⟨h.bids, hasks hs, h.shadow⟩
  next hs => exact ⟨hbids hs, h.asks, h.shadow⟩

theorem RealLevels.side (h : i.RealLevels R) (s : ℕ) :
    (s ≠ 1 → BookReal (R .bid) (i.side s)) ∧ (s = 1 → BookReal (R .ask) (i.side s)) := by
  rw [Instrument.side]
  refine ⟨fun hs ↦ ?_, fun hs ↦ ?_⟩
  · rw [if_neg hs]
    exact h.bids
  · rw [if_pos hs]
    exact h.asks

theorem RealLevels.mutate (h : i.RealLevels R)
    (hputs : rec.type = .levelUpdate → toUint64 rec.fields.qtyRaw ≠ 0 → Puts R rec) :
    (i.mutate rec).RealLevels R := by
  rw [Instrument.mutate]
  split
  next htype =>
    obtain ⟨hbids, hasks⟩ := h.side (sideFromString rec.fields.side)
    rw [applyLevelUpdate]
    split
    next => exact h.setSide (fun hs ↦ (hbids hs).erase _) fun hs ↦ (hasks hs).erase _
    next hqty =>
      obtain ⟨hbid, hask⟩ := (hputs htype hqty).side
      exact h.setSide (fun hs ↦ (hbids hs).insert (hbid hs)) fun hs ↦ (hasks hs).insert (hask hs)
  next =>
    rw [applyBookClear]
    split
    next => exact h
    next =>
      have hbids : (if clearSideFromString rec.fields.clearSide = 0 ∨
          clearSideFromString rec.fields.clearSide = 2 then
            { i with bids := clearBook (scopeFromString rec.fields.scope)
                       (toInt64 rec.fields.fromPriceRaw) true i.bids }
          else i).RealLevels R := by
        split
        next => exact ⟨h.bids.clearBook _ _ _, h.asks, h.shadow⟩
        next => exact h
      dsimp only
      generalize (if clearSideFromString rec.fields.clearSide = 0 ∨
        clearSideFromString rec.fields.clearSide = 2 then _ else i) = j at hbids ⊢
      split
      next => exact ⟨hbids.bids, hbids.asks.clearBook _ _ _, hbids.shadow⟩
      next => exact hbids
  next => exact h

theorem RealLevels.drainStep (h : i.RealLevels R) (held : ExtTreeMap ℕ Record)
    (hputs : rec.type = .levelUpdate → toUint64 rec.fields.qtyRaw ≠ 0 → Puts R rec) :
    (i.drainStep held rec).RealLevels R := by
  have hwindow : ({ i with pending := some (held.erase i.nextExpectedInstrumentSeq) } :
      Instrument).RealLevels R := ⟨h.bids, h.asks, h.shadow⟩
  have hmutate : (({ i with pending := some (held.erase i.nextExpectedInstrumentSeq) }.mutate
      rec).advance rec).RealLevels R := (hwindow.mutate hputs).congr rfl rfl rfl
  rw [Instrument.drainStep]
  split
  next => exact hmutate.congr rfl rfl rfl
  next => exact hmutate

/-- A delta that puts a level puts it where `R` holds. -/
def PutsReal (R : SideName → ℤ → LevelState → Prop) (rec : Record) : Prop :=
  rec.type = .levelUpdate → toUint64 rec.fields.qtyRaw ≠ 0 → Puts R rec

theorem RealLevels.catchUp (h : i.RealLevels R) (hi : i.Holds (PutsReal R)) (own : PutsReal R rec) :
    (i.catchUp rec).RealLevels R := by
  have hheld := hi.advance_mutate rec
  have hstart : ((i.mutate rec).advance rec).RealLevels R := (h.mutate own).congr rfl rfl rfl
  exact (drainPending_induction (P := fun j ↦ j.RealLevels R ∧ j.Holds (PutsReal R))
    (fun j held pr hj hheld hpr _ ↦
      ⟨hj.1.drainStep held (hj.2 held hheld _ pr hpr).1, hj.2.drainStep hheld pr⟩)
    _ hheld.wellFormed ⟨hstart, hheld⟩).1

theorem RealLevels.snapshotBegin (h : i.RealLevels R) : (i.snapshotBegin rec).RealLevels R := by
  rcases i.snapshotBegin_cases rec with heq | ⟨-, -, -, heq⟩ <;> rw [heq]
  · exact h.congr rfl rfl rfl
  · refine ⟨h.bids, h.asks, ?_⟩
    rintro p ⟨⟩
    exact ⟨.empty, .empty⟩

theorem RealLevels.snapshotLevel (h : i.RealLevels R) (hputs : Puts R rec) :
    (i.snapshotLevel rec).1.RealLevels R := by
  rw [snapshotLevel_eq]
  refine ⟨h.bids, h.asks, fun p hp ↦ ?_⟩
  obtain ⟨p, hopen, rfl⟩ := Option.map_eq_some_iff.mp hp
  obtain ⟨hbids, hasks⟩ := h.shadow p hopen
  obtain ⟨hbid, hask⟩ := hputs.side
  rw [shadowAfter]
  split
  next => exact ⟨hbids, hasks⟩
  next =>
    rw [PendingSnapshot.addLevel]
    split
    next hs => exact ⟨hbids, hasks.insert (hask hs)⟩
    next hs => exact ⟨hbids.insert (hbid hs), hasks⟩

theorem RealLevels.snapshotEnd (h : i.RealLevels R) : (i.snapshotEnd rec).1.RealLevels R := by
  cases hend : (i.snapshotEnd rec).2 with
  | some err =>
      rw [snapshotEnd_of_err hend]
      refine ⟨h.bids, h.asks, ?_⟩
      rintro p ⟨⟩
  | none =>
      cases hopen : i.openSnapshot with
      | none =>
          rw [Instrument.snapshotEnd, endSnapshot, hopen] at hend
          cases hend
      | some p =>
          rw [snapshotEnd_of_commit hopen ((snapshotEnd_eq_none_iff rec hopen).mp hend)]
          obtain ⟨hbids, hasks⟩ := h.shadow p hopen
          refine ⟨hbids, hasks, ?_⟩
          rintro p' ⟨⟩

end Instrument

theorem Transition.realLevels {R : SideName → ℤ → LevelState → Prop} {i i' : Instrument}
    (h : Transition (Instrument.PutsReal R) i i') (hi : i.Holds (Instrument.PutsReal R))
    (hreal : i.RealLevels R) : i'.RealLevels R := by
  cases h with
  | hold => exact hreal.congr rfl rfl rfl
  | @gap rec =>
      obtain ⟨r, hr, -⟩ := Instrument.requireSnapshotAtLeast_spec
        { i.hold rec with status := .gap, pending := none }
        ((i.hold rec).gapRequirement rec.perInstrumentSeq)
      rw [Instrument.declareGap, hr]
      exact hreal.congr rfl rfl rfl
  | @demote rec =>
      obtain ⟨r, hr, -⟩ := Instrument.requireSnapshotAtLeast_spec
        ({ i with status := .gap }.markInstrumentSeqLost rec.perInstrumentSeq) rec.perInstrumentSeq
      rw [Instrument.demote, hr]
      exact hreal.congr rfl rfl rfl
  | contiguous ready own => exact hreal.catchUp hi own

/-! ## One view -/

namespace View

variable {R : SideName → ℤ → LevelState → Prop} {id : ℕ} {v v' : View}

/-- Every level that is known of the instrument satisfies `R`. -/
def RealLevels (R : SideName → ℤ → LevelState → Prop) (v : View) : Prop :=
  ∀ i, v.inst = some i → i.RealLevels R

theorem RealLevels.instrumentFor (h : v.RealLevels R) (id : ℕ) :
    (v.instrumentFor id).RealLevels R := by
  rw [View.instrumentFor]
  split
  next i hi => exact h i hi
  next => exact Instrument.new_realLevels ..

theorem Move.realLevels (hmove : Move (Instrument.PutsReal R) id v v')
    (hv : v.Holds (Instrument.PutsReal R)) (h : v.RealLevels R) : v'.RealLevels R := by
  cases hmove with
  | turn here transition =>
      rintro j ⟨⟩
      exact transition.realLevels (hv.pending _ here) (h _ here)
  | buffer => exact h
  | @evict buf =>
      rintro j ⟨⟩
      obtain ⟨r, hr, -⟩ := Instrument.requireSnapshotAtLeast_spec
        { v.instrumentFor id with status := .gap, pending := none }
        (Shard.highestSeq (((v.instrumentFor id).lastAppliedInstrumentSeq + 1) % 2 ^ 32) buf)
      rw [Shard.evictInstrument, hr]
      exact (h.instrumentFor id).congr rfl rfl rfl

theorem RealLevels.record (h : v.RealLevels R) (id : ℕ) {rec : Record}
    (hputs : rec.type = .snapshotLevel → Puts R rec) : (v.record id rec).RealLevels R := by
  rw [View.record]
  split
  · rintro j ⟨⟩
    cases hinst : v.inst with
    | none => exact Instrument.new_realLevels ..
    | some i => exact (h i hinst).congr rfl rfl rfl
  · exact h
  · rintro j ⟨⟩
    exact (h.instrumentFor id).snapshotBegin
  next htype =>
    intro j hj
    obtain ⟨i, hi, rfl⟩ := Option.map_eq_some_iff.mp hj
    exact (h i hi).snapshotLevel (hputs htype)
  · cases hinst : v.inst with
    | none => exact h
    | some i =>
        dsimp only
        split
        next => exact h
        next =>
          cases (i.snapshotEnd rec).2 with
          | some err =>
              rintro j ⟨⟩
              exact (h i hinst).snapshotEnd
          | none =>
              rintro j ⟨⟩
              exact (h i hinst).snapshotEnd
  · rintro j ⟨⟩
    refine ⟨.empty, .empty, ?_⟩
    rintro p ⟨⟩
  · exact h

theorem RealLevels.act (h : v.RealLevels R) (k : InstKey) {msg : ShardMsg}
    (hputs : ∀ rec, msg = .record rec → rec.key = k → rec.type = .snapshotLevel → Puts R rec) :
    (v.act k msg).RealLevels R := by
  have hempty : View.empty.RealLevels R := by rintro i ⟨⟩
  cases msg with
  | record rec =>
      rw [View.act]
      split
      next hkey => exact h.record k.id (hputs rec rfl hkey)
      next => exact h
  | reset ch =>
      rw [View.act]
      split
      next => exact hempty
      next => exact h
  | fence => exact h
  | manifestPrune seq =>
      rw [View.act]
      split
      next => exact hempty
      next => exact h
  | clearShadows =>
      intro j hj
      obtain ⟨i, hi, rfl⟩ := Option.map_eq_some_iff.mp hj
      refine ⟨(h i hi).bids, (h i hi).asks, ?_⟩
      rintro p ⟨⟩

end View

/-! ## Runs -/

/-- A message that puts a level in a book names its side, and states a quantity. -/
def ShardMsg.StatesReal : ShardMsg → Prop
  | .record rec =>
      (rec.type = .levelUpdate → toUint64 rec.fields.qtyRaw ≠ 0 → rec.fields.side ≠ .other) ∧
      (rec.type = .snapshotLevel → toUint64 rec.fields.qtyRaw ≠ 0 ∧ rec.fields.side ≠ .other)
  | _ => True

/-- A message of a run that states a level of an instrument. -/
structure Stated (as : List Turn) (k : InstKey) (side : SideName) (price : ℤ) (l : LevelState)
    (rec : Record) : Prop where
  taken : ∃ a ∈ as, a.2 = .record rec
  key : rec.key = k
  type : rec.type = .levelUpdate ∨ rec.type = .snapshotLevel
  side : rec.fields.side = side
  price : toInt64 rec.fields.priceRaw = price
  level : rec.levelState = l

/-- A level that has a quantity, and was stated for its side. -/
def RealLevel (as : List Turn) (k : InstKey) (side : SideName) (price : ℤ) (l : LevelState) :
    Prop :=
  l.qtyRaw ≠ 0 ∧ ∃ rec, Stated as k side price l rec

namespace Shard

/-- What is claimed of a state: the books hold real levels only. -/
def RealBooks (as : List Turn) (s : Shard) : Prop :=
  ∀ k i, s.instruments[k]? = some i →
    BookReal (RealLevel as k .bid) i.bids ∧ BookReal (RealLevel as k .ask) i.asks

/-- **Live books hold real levels** in every run whose messages state real ones. -/
theorem realBooks_run (maxBuffered : ℤ) (symbols : Option (List String)) {as : List Turn}
    (hreal : ∀ a ∈ as, a.2.StatesReal) :
    (run step (new maxBuffered symbols) as).RealBooks as := by
  intro k i hi
  have hputs {rec : Record} {a : Turn} (ha : a ∈ as) (hrec : a.2 = .record rec) {k : InstKey}
      (hkey : rec.key = k) (htype : rec.type = .levelUpdate ∨ rec.type = .snapshotLevel)
      (hqty : toUint64 rec.fields.qtyRaw ≠ 0) (hside : rec.fields.side ≠ .other) :
      Puts (RealLevel as k) rec :=
    ⟨hside, hqty, rec, ⟨a, ha, hrec⟩, hkey, htype, rfl, rfl, rfl⟩
  have hview : ((run step (new maxBuffered symbols) as).view k).RealLevels (RealLevel as k) := by
    refine run_view (Q := fun k ↦ Instrument.PutsReal (RealLevel as k))
      (P := fun _ v ↦ v.RealLevels (RealLevel as k))
      (fun k ↦ new_holds maxBuffered symbols _ k) ?_ ?_ ?_ ?_
    · intro a ha rec hrec _ htype hqty
      have hstates := hreal a ha
      rw [hrec] at hstates
      exact hputs ha hrec rfl (.inl htype) hqty (hstates.1 htype hqty)
    · rw [new_view]
      rintro j ⟨⟩
    · intro pre a v hpre _ hv
      have ha : a ∈ as := hpre.subset (by simp)
      refine hv.act k fun rec hrec hkey htype ↦ ?_
      have hstates := hreal a ha
      rw [hrec] at hstates
      obtain ⟨hqty, hside⟩ := hstates.2 htype
      exact hputs ha hrec hkey (.inr htype) hqty hside
    · intro pre v v' _ hmove hv hP
      exact hmove.realLevels hv hP
  obtain ⟨hbids, hasks, -⟩ := hview i hi
  exact ⟨hbids, hasks⟩

/-! ## Two sides, an empty level, and no side -/

/-- A snapshot of one bid of size `qty`, which a delta follows that puts a level on `side`. -/
def bidThen (qty : ℤ) (side : SideName) : List Turn :=
  [.record (instDefRec ⟨0, 11⟩ "BTC" 5), .record (snapBeginRec ⟨0, 11⟩ 1 1 5 40),
    .record (snapLevelRec ⟨0, 11⟩ 1 .bid 900 qty), .record (snapEndRec ⟨0, 11⟩ 1 40),
    .record (levelUpdateRec ⟨0, 11⟩ 42 6 side 901 4)].map fun msg ↦ (default, msg)

theorem realBooks_run_bidThen :
    (∃ i, (run step (new 10 none) (bidThen 3 .ask)).instruments[(⟨0, 11⟩ : InstKey)]? = some i ∧
      i.bids.keys = [900] ∧ i.asks.keys = [901]) ∧
    (run step (new 10 none) (bidThen 3 .ask)).RealBooks (bidThen 3 .ask) := by
  constructor
  · have hstate : ((run step (new 10 none) (bidThen 3 .ask)).instruments[(⟨0, 11⟩ : InstKey)]?).any
        (fun i ↦ decide (i.bids.keys = [900] ∧ i.asks.keys = [901])) = true := by
      decide +kernel
    simp only [Option.any_eq_true, decide_eq_true_iff] at hstate
    exact hstate
  · refine realBooks_run 10 none fun a ha ↦ ?_
    simp only [bidThen, List.map_cons, List.map_nil, List.mem_cons, List.not_mem_nil,
      or_false] at ha
    rcases ha with rfl | rfl | rfl | rfl | rfl <;>
      simp [ShardMsg.StatesReal, instDefRec, snapBeginRec, snapLevelRec, snapEndRec,
        levelUpdateRec, toUint64, toUnsigned64]

/-- A delta whose Side is reserved puts a level among the bids, and a snapshot level without
quantity is committed. -/
theorem reserved_side_bids_empty_level_commits :
    ¬(run step (new 10 none) (bidThen 3 .other)).RealBooks (bidThen 3 .other) ∧
    ¬(run step (new 10 none) (bidThen 0 .ask)).RealBooks (bidThen 0 .ask) := by
  constructor
  · have hstate :
        ((run step (new 10 none) (bidThen 3 .other)).instruments[(⟨0, 11⟩ : InstKey)]?).any
          (fun i ↦ i.bids[(901 : ℤ)]?.isSome) = true := by
      decide +kernel
    simp only [Option.any_eq_true] at hstate
    obtain ⟨i, hi, hlevel⟩ := hstate
    obtain ⟨l, hl⟩ := Option.isSome_iff_exists.mp hlevel
    intro hreal
    obtain ⟨-, rec, ⟨a, ha, hrec⟩, -, -, hside, hprice, -⟩ := (hreal _ i hi).1 901 l hl
    simp only [bidThen, List.map_cons, List.map_nil, List.mem_cons, List.not_mem_nil,
      or_false] at ha
    rcases ha with rfl | rfl | rfl | rfl | rfl <;> cases hrec <;>
      revert hside hprice <;> decide
  · have hstate :
        ((run step (new 10 none) (bidThen 0 .ask)).instruments[(⟨0, 11⟩ : InstKey)]?).any
          (fun i ↦ i.bids[(900 : ℤ)]?.any fun l ↦ decide (l.qtyRaw = 0)) = true := by
      decide +kernel
    simp only [Option.any_eq_true, decide_eq_true_iff] at hstate
    obtain ⟨i, hi, l, hl, hqty⟩ := hstate
    exact fun hreal ↦ ((hreal _ i hi).1 900 l hl).1 hqty

end Shard

end EdgeMulticast.MarketByPrice
