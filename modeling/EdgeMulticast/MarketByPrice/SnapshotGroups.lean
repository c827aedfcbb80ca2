import EdgeMulticast.Lib.Blocks
import EdgeMulticast.MarketByPrice.Coordinator
import EdgeMulticast.MarketByPrice.Publisher

/-!
# Snapshot groups from the wire to a committed book

A level names no instrument.  The coordinator stamps it with the instrument of the group it
holds open, which a lost begin or a lost end leaves stale, so a level may well be filed under
an instrument that is not its own.  It does not matter: a shadow is committed only by an end
under its own instrument and id, publishers do not interleave groups, and so nothing but the
levels of the one group can have come between the shadow's begin and that end
(`groups_unmixed`).
-/

namespace EdgeMulticast.MarketByPrice

open Std (ExtTreeMap)
open EdgeMulticast.Lib

/-! ## The snapshot port -/

/-- One level of a group. -/
structure GroupLevel where
  ask : Bool
  price : ℤ
  level : LevelState
deriving DecidableEq, Repr

/-- What is said on the snapshot port. -/
inductive SnapshotMessage where
  | begin (instrumentID snapshotID : ℕ)
  | level (snapshotID : ℕ) (l : GroupLevel)
  | finish (instrumentID snapshotID : ℕ)
deriving DecidableEq, Repr

/-- A group, as the publisher sends it. -/
structure PublishedGroup where
  instrumentID : ℕ
  snapshotID : ℕ
  levels : List GroupLevel
deriving DecidableEq, Repr

namespace PublishedGroup

def framing : Framing PublishedGroup SnapshotMessage where
  opener g := .begin g.instrumentID g.snapshotID
  body g := g.levels.map (.level g.snapshotID)
  closer g := .finish g.instrumentID g.snapshotID
  opener_fresh g g' := by simp
  closer_fresh g g' := by simp

end PublishedGroup

open PublishedGroup

/-- The Snapshot IDs of an instrument ascend. -/
def Ascending (groups : List PublishedGroup) : Prop :=
  groups.Pairwise fun g g' ↦ g.instrumentID = g'.instrumentID → g.snapshotID < g'.snapshotID

instance (groups : List PublishedGroup) : Decidable (Ascending groups) :=
  inferInstanceAs (Decidable (groups.Pairwise _))

namespace Record

def groupLevel (rec : Record) : GroupLevel := ⟨rec.ask, rec.price, rec.level⟩

/-- What a record says on the snapshot port of the channel.  A level's instrument is not said,
so it makes no difference whether it has been stamped. -/
def snapshotOn (ch : ℕ) (rec : Record) : Option SnapshotMessage :=
  if rec.channelID = ch then
    match rec.type with
    | .snapshotBegin => some (.begin rec.instrumentID (toUint32 rec.fields.snapshotId))
    | .snapshotLevel => some (.level (toUint32 rec.fields.snapshotId) rec.groupLevel)
    | .snapshotEnd => some (.finish rec.instrumentID (toUint32 rec.fields.snapshotId))
    | _ => none
  else none

end Record

def ShardMsg.snapshotOn (ch : ℕ) : ShardMsg → Option SnapshotMessage
  | .record rec => rec.snapshotOn ch
  | _ => none

def Input.snapshotOn (ch : ℕ) : Input → Option SnapshotMessage
  | .record rec => rec.snapshotOn ch
  | .disconnect => none

/-- The snapshot messages of the channel, in the order they arrive. -/
def arrivedOn (ch : ℕ) (as : List Arrival) : List SnapshotMessage :=
  as.filterMap fun a ↦ a.2.snapshotOn ch

/-- The snapshot messages of the channel, in the order a shard takes them. -/
def takenOn (ch : ℕ) (as : List Turn) : List SnapshotMessage :=
  as.filterMap fun a ↦ a.2.snapshotOn ch

theorem takenOn_snoc (ch : ℕ) (as : List Turn) (a : Turn) :
    takenOn ch (as ++ [a]) = takenOn ch as ++ (a.2.snapshotOn ch).toList := by
  rw [takenOn, takenOn, List.filterMap_append]
  cases h : a.2.snapshotOn ch <;> simp [h]

/-! ## The coordinator keeps the order -/

namespace Coordinator

variable (c : Coordinator) (ch idx : ℕ) (σ : ℕ → Choices)

/-- The part of a list of messages that one shard receives. -/
def received (sends : Sends) : List SnapshotMessage :=
  (sends.filter fun m ↦ m.1 = idx).filterMap fun m ↦ m.2.snapshotOn ch

theorem received_append (sends sends' : Sends) :
    received ch idx (sends ++ sends') = received ch idx sends ++ received ch idx sends' := by
  simp only [received, List.filter_append, List.filterMap_append]

/-- A message that says nothing on the snapshot port may go to any number of shards. -/
theorem received_broadcast {msg : ShardMsg} (h : msg.snapshotOn ch = none) :
    received ch idx (c.broadcast msg) = [] := by
  rw [received, List.filterMap_eq_nil_iff]
  intro m hm
  obtain ⟨i, -, rfl⟩ := List.mem_map.mp (List.mem_filter.mp hm).1
  exact h

/-- A record that goes to one shard is received once or not at all. -/
theorem received_one (i : ℕ) {rec rec' : Record} (h : rec'.snapshotOn ch = rec.snapshotOn ch) :
    (received ch idx [(i, .record rec')]).Sublist (rec.snapshotOn ch).toList := by
  by_cases hi : i = idx
  · have hone : received ch idx [(i, .record rec')] = (rec.snapshotOn ch).toList := by
      rw [received, List.filter_cons_of_pos (by simpa using hi), List.filter_nil,
        List.filterMap_cons, List.filterMap_nil, ShardMsg.snapshotOn, h]
      cases rec.snapshotOn ch <;> rfl
    rw [hone]
  · rw [received, List.filter_cons_of_neg (by simpa using hi)]
    exact List.nil_sublist _

theorem received_nil {l : List SnapshotMessage} : (received ch idx []).Sublist l :=
  List.nil_sublist _

/-- Classifying a record passes on what it says, and says nothing else. -/
theorem received_classify (prevDefinition : Option DefinitionRef) (rec : Record) :
    (received ch idx (c.classify prevDefinition rec).2).Sublist (rec.snapshotOn ch).toList := by
  have hsilent {msg : ShardMsg} (h : msg.snapshotOn ch = none) :
      (received ch idx (c.broadcast msg)).Sublist (rec.snapshotOn ch).toList := by
    rw [received_broadcast c ch idx h]
    exact List.nil_sublist _
  cases htype : rec.type <;> simp only [classify, htype]
  case strikeInterval =>
    split
    · exact received_nil ch idx
    · split
      · exact received_nil ch idx
      · split
        · exact received_nil ch idx
        · exact received_one ch idx _ rfl
  case snapshotLevel =>
    split
    · exact received_nil ch idx
    · split
      · exact received_nil ch idx
      · exact received_one ch idx _ (by simp only [Record.snapshotOn, htype]; rfl)
  case manifestSummary =>
    simp only [applyManifest]
    split
    · exact received_nil ch idx
    · exact hsilent rfl
  case batchBoundary => exact hsilent (by simp [ShardMsg.snapshotOn, Record.snapshotOn, htype])
  case endOfSession => exact hsilent rfl
  case heartbeat | other => exact received_nil ch idx
  all_goals exact received_one ch idx _ rfl

theorem received_take (input : Input) :
    (received ch idx (c.take input).2).Sublist (input.snapshotOn ch).toList := by
  cases input with
  | disconnect =>
      rw [take, onDisconnect, received_broadcast c ch idx rfl]
      exact List.nil_sublist _
  | record rec =>
      simp only [take, dispatch]
      split
      · rw [received_append, received_broadcast _ ch idx rfl, List.nil_append]
        exact received_classify ..
      · exact received_classify ..

theorem takenOn_sentTo (a : Arrival) :
    takenOn ch (c.sentTo idx a) = received ch idx (c.take a.2).2 := by
  rw [takenOn, sentTo, pick, received, List.filterMap_filterMap]
  generalize (c.take a.2).2 = sends
  induction sends with
  | nil => rfl
  | cons m sends ih =>
      rw [List.filterMap_cons, ih, List.filter_cons]
      by_cases hidx : m.1 = idx
      · simp [hidx, List.filterMap_cons]
      · simp [hidx]

/-- **No shard sees the snapshot port out of order.** -/
theorem takenOn_inbox (as : List Arrival) :
    (takenOn ch (c.inbox idx as)).Sublist (arrivedOn ch as) := by
  induction as generalizing c with
  | nil => exact List.nil_sublist _
  | cons a as ih =>
      have hcons : arrivedOn ch (a :: as) = (a.2.snapshotOn ch).toList ++ arrivedOn ch as := by
        rw [arrivedOn, List.filterMap_cons]
        cases a.2.snapshotOn ch <;> rfl
      rw [inbox, takenOn, List.filterMap_append, ← takenOn, ← takenOn, takenOn_sentTo, hcons]
      exact (received_take c ch idx a.2).append (ih (c.take a.2).1)

end Coordinator

/-! ## What a shadow holds -/

namespace View

variable {v v' : View} {k : InstKey} {p : PendingSnapshot}

/-- The shadow of the instrument. -/
def shadow (v : View) : Option PendingSnapshot := v.inst.bind Instrument.openSnapshot

/-- A message opens an empty shadow, files a level in the one there is, or leaves at most that
one. -/
theorem shadow_record {rec : Record} (h : (v.record k.id rec).shadow = some p) :
    v.shadow = some p ∨
      (rec.type = .snapshotBegin ∧ p.snapshotID = toUint32 rec.fields.snapshotId ∧
        p.sides = Sides.empty) ∨
      ∃ p', rec.type = .snapshotLevel ∧ v.shadow = some p' ∧
        p = Instrument.shadowAfter rec p' := by
  have hfor {id : ℕ} (h : (v.instrumentFor id).openSnapshot = some p) : v.shadow = some p := by
    rw [instrumentFor] at h
    split at h
    next i hi => rwa [shadow, hi]
    next => exact absurd h (by simp [Instrument.new])
  cases htype : rec.type <;> simp only [View.record, htype] at h
  case instrumentDefinition =>
    left
    cases hinst : v.inst with
    | none =>
        simp only [shadow, hinst, Option.bind_some] at h
        exact absurd h (by simp [Instrument.new])
    | some i =>
        simp only [shadow, hinst, Option.bind_some] at h ⊢
        exact h
  case snapshotBegin =>
    rcases (v.instrumentFor k.id).snapshotBegin_cases rec with heq | ⟨-, -, -, heq⟩
    · rw [shadow, Option.bind_some, heq] at h
      exact Or.inl (hfor h)
    · rw [shadow, Option.bind_some, heq] at h
      obtain rfl := Option.some.inj h
      exact Or.inr (Or.inl ⟨rfl, rfl, rfl⟩)
  case snapshotLevel =>
    cases hinst : v.inst with
    | none => exact absurd h (by simp [shadow, hinst])
    | some i =>
        simp only [shadow, hinst, Option.map_some, Option.bind_some, Instrument.snapshotLevel_eq]
          at h ⊢
        obtain ⟨p', hp', rfl⟩ := Option.map_eq_some_iff.mp h
        exact Or.inr (Or.inr ⟨p', trivial, hp', rfl⟩)
  case snapshotEnd =>
    left
    cases hinst : v.inst with
    | none =>
        rw [hinst] at h
        exact h
    | some i =>
        rw [shadow, hinst, Option.bind_some]
        simp only [hinst] at h
        split at h
        · rwa [shadow, hinst, Option.bind_some] at h
        · cases hopen : i.openSnapshot with
          | none => exact absurd hopen (by simp_all)
          | some q =>
              cases hend : (i.snapshotEnd rec).2 with
              | some err =>
                  rw [hend, shadow, Option.bind_some, Instrument.snapshotEnd_of_err hend] at h
                  exact absurd h (by simp)
              | none =>
                  have hcommit := (Instrument.snapshotEnd_eq_none_iff rec hopen).mp hend
                  rw [hend, shadow, Option.bind_some,
                    Instrument.snapshotEnd_of_commit hopen hcommit] at h
                  exact absurd h (by simp)
  case instrumentReset => exact absurd h (by simp [shadow, Instrument.reset])
  all_goals exact Or.inl h

/-- Classifying deltas and evicting buffers leave the shadow alone. -/
theorem Move.shadow {Q : Record → Prop} {id : ℕ} (hmove : Move Q id v v') (hv : v.Holds Q)
    (h : v'.shadow = some p) : v.shadow = some p := by
  cases hmove with
  | turn here transition =>
      rw [View.shadow, here, Option.bind_some]
      rwa [View.shadow, Option.bind_some, transition.openSnapshot (hv.pending _ here)] at h
  | buffer => exact h
  | evict here =>
      rw [View.shadow, Option.bind_some, Instrument.evictInstrument_openSnapshot,
        View.instrumentFor] at h
      split at h
      next i hi => rwa [View.shadow, hi]
      next => exact absurd h (by simp [Instrument.new])

end View

/-- A shadow of the instrument under `k`: since its begin was taken, all its levels were. -/
def Filled (k : InstKey) (pre : List Turn) (p : PendingSnapshot) : Prop :=
  ∃ before after, takenOn k.ch pre = before ++ .begin k.id p.snapshotID :: after ∧
    ∀ ask price l, (p.sides.side ask)[price]? = some l →
      SnapshotMessage.level p.snapshotID ⟨ask, price, l⟩ ∈ after

section

variable {k : InstKey} {pre : List Turn} {p : PendingSnapshot} {rec : Record} {σ : Choices}

theorem Filled.snoc (h : Filled k pre p) (a : Turn) : Filled k (pre ++ [a]) p := by
  obtain ⟨before, after, htaken, hlevels⟩ := h
  refine ⟨before, after ++ (a.2.snapshotOn k.ch).toList, ?_, fun ask price l hl ↦ ?_⟩
  · rw [takenOn_snoc, htaken, List.append_assoc, List.cons_append]
  · exact List.mem_append_left _ (hlevels ask price l hl)

theorem Filled.begin (hkey : rec.key = k) (htype : rec.type = .snapshotBegin)
    (hid : p.snapshotID = toUint32 rec.fields.snapshotId) (hsides : p.sides = Sides.empty) :
    Filled k (pre ++ [(σ, .record rec)]) p := by
  have hsays : rec.snapshotOn k.ch = some (.begin k.id p.snapshotID) := by
    subst hkey
    simp [Record.snapshotOn, Record.key, htype, hid]
  refine ⟨takenOn k.ch pre, [], ?_, fun ask price l hl ↦ ?_⟩
  · rw [takenOn_snoc, ShardMsg.snapshotOn, hsays]
    rfl
  · rw [hsides] at hl
    cases ask <;> simp [Sides.side, Sides.empty] at hl

theorem Filled.level (h : Filled k pre p) (hkey : rec.key = k) (htype : rec.type = .snapshotLevel) :
    Filled k (pre ++ [(σ, .record rec)]) (Instrument.shadowAfter rec p) := by
  rw [Instrument.shadowAfter]
  split
  next => exact h.snoc _
  next hid =>
      obtain ⟨before, after, htaken, hlevels⟩ := h
      have hid' : p.snapshotID = toUint32 rec.fields.snapshotId := not_ne_iff.mp hid
      have hsays : rec.snapshotOn k.ch = some (.level p.snapshotID rec.groupLevel) := by
        subst hkey
        simp [Record.snapshotOn, Record.key, htype, hid']
      change Filled k _ (p.addLevel (sideFromString rec.fields.side) rec.price rec.level)
      rw [Instrument.addLevel_frame]
      refine ⟨before, after ++ [.level p.snapshotID rec.groupLevel], ?_, fun ask price l hl ↦ ?_⟩
      · rw [takenOn_snoc, htaken, ShardMsg.snapshotOn, hsays, List.append_assoc, List.cons_append]
        rfl
      · change ((p.addLevel (sideFromString rec.fields.side) rec.price rec.level).sides.side
          ask)[price]? = some l at hl
        rw [Instrument.addLevel_sides, Sides.side_onSide] at hl
        by_cases hhere : rec.ask = ask ∧ rec.price = price
        · obtain ⟨rfl, rfl⟩ := hhere
          rw [if_pos rfl, getElem?_insert_eq, if_pos rfl] at hl
          obtain rfl := Option.some.inj hl
          exact List.mem_append_right _ (List.mem_singleton_self _)
        · refine List.mem_append_left _ (hlevels ask price l ?_)
          split at hl
          next hask =>
              subst hask
              rwa [getElem?_insert_ne fun hprice ↦ hhere ⟨rfl, hprice⟩] at hl
          next => exact hl

/-- One message. -/
theorem Filled.act {v : View} (h : ∀ p, v.shadow = some p → Filled k pre p) (a : Turn)
    (hp : (v.act k a.2).shadow = some p) : Filled k (pre ++ [a]) p := by
  obtain ⟨σ, msg⟩ := a
  cases msg with
  | record rec =>
      rw [View.act] at hp
      split at hp
      next hkey =>
          rcases View.shadow_record hp with
            hsame | ⟨htype, hid, hsides⟩ | ⟨p', htype, hp', rfl⟩
          · exact (h p hsame).snoc _
          · exact Filled.begin hkey htype hid hsides
          · exact (h p' hp').level hkey htype
      next => exact (h p hp).snoc _
  | reset ch =>
      rw [View.act] at hp
      split at hp
      · exact absurd hp (by simp [View.shadow, View.empty])
      · exact (h p hp).snoc _
  | fence => exact (h p hp).snoc _
  | manifestPrune seq =>
      rw [View.act] at hp
      split at hp
      · exact absurd hp (by simp [View.shadow, View.empty])
      · exact (h p hp).snoc _
  | clearShadows =>
      cases hinst : v.inst <;> simp [View.shadow, View.act, hinst] at hp

end

/-- Every shadow is filled with levels taken since its begin. -/
theorem run_filled (maxBuffered : ℤ) (symbols : Option (List String)) (k : InstKey)
    (as : List Turn) : ∀ p, ((run Shard.step (Shard.new maxBuffered symbols) as).view k).shadow =
      some p → Filled k as p := by
  refine Shard.run_view (Q := fun _ _ ↦ True)
    (P := fun pre v ↦ ∀ p, v.shadow = some p → Filled k pre p)
    (fun k ↦ Shard.new_holds maxBuffered symbols _ k) (fun _ _ _ _ _ ↦ trivial) ?_ ?_ ?_
  · intro p hp
    rw [Shard.new_view] at hp
    exact absurd hp (by simp [View.shadow, View.empty])
  · intro pre a v _ _ h p hp
    exact Filled.act h a hp
  · intro pre v v' _ hmove hv h p hp
    exact h p (hmove.shadow hv hp)

/-! ## Runs -/

/-- An end in a stream under an instrument and an id, and a begin before it under the same, are
those of one group, and only its levels are between them. -/
theorem mem_group {groups : List PublishedGroup} (hascending : Ascending groups)
    {before after : List SnapshotMessage} {instrumentID snapshotID : ℕ}
    (h : (before ++ SnapshotMessage.begin instrumentID snapshotID ::
      (after ++ [SnapshotMessage.finish instrumentID snapshotID])).Sublist
        (framing.stream groups)) :
    ∃ g ∈ groups, g.instrumentID = instrumentID ∧ g.snapshotID = snapshotID ∧
      ∀ l, SnapshotMessage.level snapshotID l ∈ after → l ∈ g.levels := by
  rcases framing.sublist_stream ⟨instrumentID, snapshotID, []⟩
    ⟨instrumentID, snapshotID, []⟩ h with
    ⟨g, hg, hbegin, -, hafter⟩ | ⟨g, g', hgg, hbegin, hfinish⟩
  · obtain ⟨rfl, rfl⟩ := SnapshotMessage.begin.inj hbegin
    refine ⟨g, hg, rfl, rfl, fun l hl ↦ ?_⟩
    obtain ⟨l', hl', heq⟩ := List.mem_map.mp (hafter.subset hl)
    rwa [← (SnapshotMessage.level.inj heq).2]
  · exfalso
    obtain ⟨hinst, hid⟩ := SnapshotMessage.begin.inj hbegin
    obtain ⟨hinst', hid'⟩ := SnapshotMessage.finish.inj hfinish
    have hlt := hascending.forall_sublist hgg (hinst.symm.trans hinst')
    exact absurd (hid.symm.trans hid') (Nat.ne_of_lt hlt)

/-- **Groups are not mixed.**  Whatever is lost on the snapshot port of a channel, and whatever
else the coordinator is given, an end that commits installs levels of the group it ends. -/
theorem groups_unmixed (c : Coordinator) (maxBuffered : ℤ) (symbols : Option (List String))
    (ch : ℕ) {groups : List PublishedGroup} (hascending : Ascending groups) {as : List Arrival}
    (hdelivered : (arrivedOn ch as).Sublist (framing.stream groups)) (idx : ℕ) :
    ∀ pre σ rec, pre ++ [(σ, .record rec)] <+: c.inbox idx as → rec.type = .snapshotEnd →
      rec.channelID = ch → ∀ i,
      (run Shard.step (Shard.new maxBuffered symbols) pre).instruments[rec.key]? = some i →
      (i.snapshotEnd rec).2 = none →
      ∃ g ∈ groups, g.instrumentID = rec.instrumentID ∧
        g.snapshotID = toUint32 rec.fields.snapshotId ∧ ∀ ask price l,
          ((i.snapshotEnd rec).1.sides.side ask)[price]? = some l → ⟨ask, price, l⟩ ∈ g.levels := by
  rintro pre σ rec hpre htype rfl i hi hcommits
  cases hopen : i.openSnapshot with
  | none => exact absurd hcommits (by simp [Instrument.snapshotEnd, Instrument.endSnapshot, hopen])
  | some p =>
      have hcommit := (Instrument.snapshotEnd_eq_none_iff rec hopen).mp hcommits
      obtain ⟨before, after, htaken, hlevels⟩ := run_filled maxBuffered symbols rec.key pre p
        (by rw [View.shadow, Shard.view, hi, Option.bind_some, hopen])
      have hsays : ShardMsg.snapshotOn rec.key.ch (.record rec) =
          some (.finish rec.key.id p.snapshotID) := by
        simp [ShardMsg.snapshotOn, Record.snapshotOn, Record.key, htype, hcommit.snapshotID]
      -- what the shard took is what arrived, less what was lost
      have hstream := ((hpre.filterMap _).sublist.trans (c.takenOn_inbox rec.channelID idx as)).trans
        hdelivered
      rw [← takenOn, takenOn_snoc, show rec.channelID = rec.key.ch from rfl, htaken, hsays,
        Option.toList_some, List.append_assoc, List.cons_append] at hstream
      obtain ⟨g, hg, hinst, hid, hmem⟩ := mem_group hascending hstream
      refine ⟨g, hg, hinst, hid.trans hcommit.snapshotID, fun ask price l hl ↦ ?_⟩
      rw [Instrument.snapshotEnd_of_commit hopen hcommit] at hl
      exact hmem _ (hlevels ask price l hl)

/-- Two instruments under one id: the end of the first group and the begin of the second are
lost, so the second's level is filed under the first.  The group after them is complete. -/
def lossyDelivery : List Arrival :=
  [instDefRec ⟨7, 11⟩ "A" 1, instDefRec ⟨7, 22⟩ "B" 1, snapBeginRec ⟨7, 11⟩ 5 2 0 40,
    snapLevelRec ⟨7, 0⟩ 5 .bid 100 1, snapLevelRec ⟨7, 0⟩ 5 .bid 200 1, snapEndRec ⟨7, 22⟩ 5 40,
    snapBeginRec ⟨7, 11⟩ 6 1 0 50, snapLevelRec ⟨7, 0⟩ 6 .ask 101 3,
    snapEndRec ⟨7, 11⟩ 6 50].map fun rec ↦ (default, .record rec)

/-- The groups it is the remainder of. -/
def lossyGroups : List PublishedGroup :=
  [⟨11, 5, [⟨false, 100, 1, 2, 0⟩, ⟨false, 99, 4, 2, 0⟩]⟩, ⟨22, 5, [⟨false, 200, 1, 2, 0⟩]⟩,
    ⟨11, 6, [⟨true, 101, 3, 2, 0⟩]⟩]

theorem groups_unmixed_lossy :
    let inbox := ({ n := 2 } : Coordinator).inbox 1 lossyDelivery
    let e := snapEndRec ⟨7, 11⟩ 6 50
    ∃ i, (run Shard.step (Shard.new 10 none) inbox.dropLast).instruments[e.key]? = some i ∧
      (i.snapshotEnd e).2 = none ∧
      ∃ g ∈ lossyGroups, g.instrumentID = 11 ∧ g.snapshotID = 6 ∧ ∀ ask price l,
        ((i.snapshotEnd e).1.sides.side ask)[price]? = some l → ⟨ask, price, l⟩ ∈ g.levels := by
  intro inbox e
  obtain ⟨i, hi⟩ : ∃ i, (run Shard.step (Shard.new 10 none) inbox.dropLast).instruments[
      e.key]? = some i := Option.isSome_iff_exists.mp (by decide)
  have hcommits : ((run Shard.step (Shard.new 10 none) inbox.dropLast).instruments[
      e.key]?).all (fun i ↦ (i.snapshotEnd e).2.isNone) = true := by decide
  rw [hi, Option.all_some, Option.isNone_iff_eq_none] at hcommits
  have hlast : inbox.dropLast ++ [(default, .record e)] <+: inbox := by
    rw [List.IsPrefix]
    exact ⟨[], rfl⟩
  exact ⟨i, hi, hcommits, groups_unmixed _ 10 none 7 (by decide) (by decide) 1 _ default e hlast
    rfl rfl i hi hcommits⟩

/-- The foreign level is in the first shadow, and the group after it is committed. -/
example :
    let shard (n : ℕ) := (run System.step (System.new 2 10 none) (lossyDelivery.take n)).shards 1
    ((shard 5).view ⟨7, 11⟩).shadow.map (fun p ↦ (p.snapshotID, p.receivedLevels)) = some (5, 2) ∧
      ((shard 9).view ⟨7, 11⟩).inst.map (fun i ↦ (i.status, i.asks.keys)) = some (.ready, [101]) := by
  decide

end EdgeMulticast.MarketByPrice
