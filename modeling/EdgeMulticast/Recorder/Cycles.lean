import EdgeMulticast.Lib.Blocks
import EdgeMulticast.Recorder.Coherent

/-!
# Snapshot groups under loss

A publisher sends snapshot groups one after the other, each a begin, its levels and an end.  A
level carries the group's snapshot id and no instrument, ids ascend for one instrument, and two
instruments may use the same id.

An open cycle holds levels that were received after its begin under its id (`Traced`).  When
messages are lost these need not be the levels of its group: behind a lost end and a lost begin
come the levels of another instrument under the same id, and the end of that group closes the
cycle, because `snapshot_end` does not look at the instrument the end names
(`lost_end_mixes_groups`).  `cycles_unmixed` says that this is all that can go wrong.
-/

namespace EdgeMulticast.Recorder

open Std (ExtTreeMap)
open EdgeMulticast.Lib

/-! ## The publisher -/

structure PriceLevel where
  side : ℕ
  priceRaw : ℤ
  qtyRaw : ℕ
deriving DecidableEq, Repr

/-- A snapshot group, as the publisher sends it. -/
structure PublishedGroup where
  instrumentId : ℕ
  anchorSeq : ℕ
  snapshotId : ℕ
  levels : List PriceLevel
  timestampNs : ℕ := 0
deriving DecidableEq, Repr

namespace PublishedGroup

/-- The book the group states, one side of it. -/
def side (g : PublishedGroup) (isBid : Bool) : Levels :=
  (g.levels.filter fun l ↦ decide (l.side = sideBid) == isBid).foldl
    (fun m l ↦ m.insert l.priceRaw l.qtyRaw) ∅

def level (g : PublishedGroup) (l : PriceLevel) : SnapshotLevel :=
  ⟨g.snapshotId, l.side, l.priceRaw, l.qtyRaw⟩

def begin (g : PublishedGroup) : SnapshotBegin :=
  ⟨g.instrumentId, g.anchorSeq, g.levels.length, g.snapshotId, g.timestampNs⟩

def finish (g : PublishedGroup) : SnapshotEnd := ⟨g.instrumentId, g.anchorSeq, g.snapshotId⟩

/-- The messages of a group. -/
def framing : Framing PublishedGroup StateBody where
  opener g := .snapshotBegin g.begin
  body g := g.levels.map fun l ↦ .snapshotLevel (g.level l)
  closer g := .snapshotEnd g.finish
  opener_fresh g g' := by simp
  closer_fresh g g' := by simp

end PublishedGroup

open PublishedGroup

/-- What a publisher keeps to: the ids of an instrument ascend, and a count of levels is a
`u32`. -/
structure Published (groups : List PublishedGroup) : Prop where
  ascending : groups.Pairwise fun g g' ↦
    g.instrumentId = g'.instrumentId → g.snapshotId < g'.snapshotId
  counted : ∀ g ∈ groups, g.levels.length < 2 ^ 32

instance (groups : List PublishedGroup) : Decidable (Published groups) :=
  decidable_of_iff (_ ∧ _) ⟨fun ⟨ascending, counted⟩ ↦ ⟨ascending, counted⟩,
    fun h ↦ ⟨h.ascending, h.counted⟩⟩

/-- A snapshot message of the channel. -/
def snapshotOn (channel : Channel) : Decoded → Option StateBody
  | .state (.reset _) _ => none
  | .state body p => if Channel.of p.inst = channel then some body else none
  | _ => none

theorem eq_state_of_snapshotOn {channel : Channel} {d : Decoded} {body : StateBody}
    (h : snapshotOn channel d = some body) :
    ∃ p, d = .state body p ∧ Channel.of p.inst = channel := by
  unfold snapshotOn at h
  split at h
  · exact absurd h (by simp)
  next body' p _ =>
      split at h
      next hscope => exact ⟨p, by rw [Option.some.inj h], hscope⟩
      next => exact absurd h (by simp)
  · exact absurd h (by simp)

/-- The snapshot messages of the channel, in the order of the archive. -/
def snapshots (channel : Channel) (ds : List Decoded) : List StateBody :=
  ds.filterMap (snapshotOn channel)

theorem snapshots_snoc (channel : Channel) (ds : List Decoded) (d : Decoded) :
    snapshots channel (ds ++ [d]) = snapshots channel ds ++ (snapshotOn channel d).toList := by
  rw [snapshots, snapshots, List.filterMap_append]
  cases h : snapshotOn channel d <;> simp [h]

/-! ## What an open cycle holds -/

namespace BookCycle

variable (c : BookCycle) (ls : List SnapshotLevel)

@[simp] theorem push_instrumentId (l : SnapshotLevel) :
    (c.push l).instrumentId = c.instrumentId := by
  simp only [push]
  split <;> rfl

@[simp] theorem push_totalLevels (l : SnapshotLevel) :
    (c.push l).totalLevels = c.totalLevels := by
  simp only [push]
  split <;> rfl

@[simp] theorem push_anchorSeq (l : SnapshotLevel) : (c.push l).anchorSeq = c.anchorSeq := by
  simp only [push]
  split <;> rfl

@[simp] theorem push_levels (l : SnapshotLevel) :
    (c.push l).levels = (c.levels + 1) % 2 ^ 32 := by
  simp only [push]
  split <;> rfl

theorem foldl_push : (ls.foldl push c).instrumentId = c.instrumentId ∧
    (ls.foldl push c).anchorSeq = c.anchorSeq ∧ (ls.foldl push c).totalLevels = c.totalLevels ∧
      (c.levels < 2 ^ 32 → (ls.foldl push c).levels = (c.levels + ls.length) % 2 ^ 32) := by
  induction ls generalizing c with
  | nil => exact ⟨rfl, rfl, rfl, fun h ↦ (Nat.mod_eq_of_lt h).symm⟩
  | cons l ls ih =>
      obtain ⟨hid, hanchor, htotal, hlevels⟩ := ih (c.push l)
      refine ⟨hid.trans (by simp), hanchor.trans (by simp), htotal.trans (by simp), fun _ ↦ ?_⟩
      rw [List.foldl_cons, hlevels (by rw [push_levels]; omega), push_levels, List.length_cons]
      omega

/-- The sides of a cycle: the levels of each, inserted in their order. -/
theorem foldl_push_sides :
    (ls.foldl push c).bids = (ls.filter fun l ↦ decide (l.side = sideBid)).foldl
        (fun m l ↦ m.insert l.priceRaw l.qtyRaw) c.bids ∧
      (ls.foldl push c).asks = (ls.filter fun l ↦ !decide (l.side = sideBid)).foldl
        (fun m l ↦ m.insert l.priceRaw l.qtyRaw) c.asks := by
  induction ls generalizing c with
  | nil => exact ⟨rfl, rfl⟩
  | cons l ls ih =>
      obtain ⟨hbids, hasks⟩ := ih (c.push l)
      rw [List.foldl_cons, hbids, hasks]
      by_cases hside : l.side = sideBid <;> simp [push, hside]

end BookCycle

/-- A level under a snapshot id. -/
def levelOf (snapshotId : ℕ) : StateBody → Option SnapshotLevel
  | .snapshotLevel l => if l.snapshotId = snapshotId then some l else none
  | _ => none

/-- A cycle holds levels received under its id, in their order, after a begin that was received
under it and that is followed by messages satisfying `R`. -/
def Traced (R : List StateBody → Prop) (received : List StateBody) (snapshotId : ℕ)
    (c : BookCycle) : Prop :=
  ∃ (before : List StateBody) (begin : SnapshotBegin) (after : List StateBody)
    (ls : List SnapshotLevel), received = before ++ .snapshotBegin begin :: after ∧ R after ∧
      begin.snapshotId = snapshotId ∧ ls.Sublist (after.filterMap (levelOf snapshotId)) ∧
        c = ls.foldl BookCycle.push (BookCycle.opened begin)

namespace Traced

variable {R : List StateBody → Prop} {received : List StateBody} {s : ℕ} {c : BookCycle}

theorem opened (begin : SnapshotBegin) (hR : R []) :
    Traced R (received ++ [.snapshotBegin begin]) begin.snapshotId (BookCycle.opened begin) :=
  ⟨received, begin, [], [], rfl, hR, rfl, List.nil_sublist _, rfl⟩

theorem append {more : List StateBody} (h : Traced R received s c)
    (hR : ∀ after, R after → R (after ++ more)) : Traced R (received ++ more) s c := by
  obtain ⟨before, begin, after, ls, rfl, hafter, hid, hls, rfl⟩ := h
  refine ⟨before, begin, after ++ more, ls, by simp, hR after hafter, hid, hls.trans ?_, rfl⟩
  rw [List.filterMap_append]
  exact List.sublist_append_left ..

theorem push {l : SnapshotLevel} (h : Traced R received l.snapshotId c)
    (hR : ∀ after, R after → R (after ++ [.snapshotLevel l])) :
    Traced R (received ++ [.snapshotLevel l]) l.snapshotId (c.push l) := by
  obtain ⟨before, begin, after, ls, rfl, hafter, hid, hls, rfl⟩ := h
  refine ⟨before, begin, after ++ [.snapshotLevel l], ls ++ [l], by simp, hR after hafter, hid,
    ?_, ?_⟩
  · rw [List.filterMap_append]
    exact hls.append (by simp [levelOf])
  · rw [List.foldl_append]
    rfl

end Traced

namespace Fold

variable {f : Fold} (input : EventInput)

/-- The message is a begin under the id that is folded. -/
def begins (f : Fold) (channel : Channel) (s : ℕ) : Decoded → Prop
  | .state (.snapshotBegin begin) p => Channel.of p.inst = channel ∧ begin.snapshotId = s ∧
      (f.table.resolve channel begin.instrumentId p.recvTsNs).isSome
  | _ => False

/-- What a message does to the open cycles: a begin opens one, a level is pushed to one, and no
other message adds to any. -/
theorem message_cycles {d : Decoded} {channel : Channel} {s : ℕ} {c : BookCycle}
    (h : (f.message input d).book.cycles[(⟨channel, s⟩ : Scoped Channel)]? = some c) :
    f.book.cycles[(⟨channel, s⟩ : Scoped Channel)]? = some c ∧ ¬f.begins channel s d ∨
      (∃ begin, snapshotOn channel d = some (.snapshotBegin begin) ∧ begin.snapshotId = s ∧
        c = BookCycle.opened begin) ∨
      ∃ l c', snapshotOn channel d = some (.snapshotLevel l) ∧ l.snapshotId = s ∧
        f.book.cycles[(⟨channel, s⟩ : Scoped Channel)]? = some c' ∧ c = c'.push l := by
  rcases d with ⟨body, p⟩ | ⟨body, p⟩ | ⟨body, p⟩
  · have hbook := congrArg Prod.fst (f.market_book p body)
    rw [message, show (f.market p body).book = _ from hbook] at h
    split at h
    · exact Or.inl ⟨h, id⟩
    · exact Or.inl ⟨by rwa [Book.market_cycles] at h, id⟩
  · have hbook := congrArg Prod.fst (f.state_book input.persistSnapshotLevels p body)
    rw [message, show (f.state p input.persistSnapshotLevels body).book = _ from hbook] at h
    split at h
    next hnone =>
        refine Or.inl ⟨h, ?_⟩
        cases body with
        | reset | snapshotLevel | snapshotEnd => exact id
        | snapshotBegin begin =>
            rintro ⟨rfl, -, hresolved⟩
            rw [instrumentOfState, Option.bind_some] at hnone
            exact absurd hresolved (by simp [hnone])
    · cases body with
      | reset r => exact Or.inl ⟨h, id⟩
      | snapshotBegin begin =>
          rw [Book.state, Book.snapshotBegin_cycles, getElem?_insert_eq] at h
          split at h
          next hk =>
              obtain ⟨rfl, rfl⟩ := Scoped.mk.inj hk
              exact Or.inr (Or.inl ⟨begin, if_pos rfl, rfl, (Option.some.inj h).symm⟩)
          next hk =>
              refine Or.inl ⟨h, ?_⟩
              rintro ⟨rfl, rfl, -⟩
              exact hk rfl
      | snapshotLevel l =>
          rw [Book.state, Book.snapshotLevel_cycles] at h
          split at h
          next hk =>
              obtain ⟨rfl, rfl⟩ := Scoped.mk.inj hk
              obtain ⟨c', hc', rfl⟩ := Option.map_eq_some_iff.mp h
              exact Or.inr (Or.inr ⟨l, c', if_pos rfl, rfl, hc', rfl⟩)
          next => exact Or.inl ⟨h, id⟩
      | snapshotEnd finish =>
          rw [Book.state, Book.snapshotEnd_cycles] at h
          split at h
          · exact absurd h (by simp)
          · exact Or.inl ⟨h, id⟩
  · rw [message, reference_book] at h
    exact Or.inl ⟨h, id⟩

/-- Every open cycle of the channel is traced. -/
def AllTraced (R : ℕ → List StateBody → Prop) (channel : Channel) (received : List StateBody)
    (f : Fold) : Prop :=
  ∀ s c, f.book.cycles[(⟨channel, s⟩ : Scoped Channel)]? = some c → Traced (R s) received s c

theorem step_traced {R : ℕ → List StateBody → Prop} {channel : Channel}
    {received : List StateBody} (d : Decoded) (hnil : ∀ s, R s [])
    (hsnoc : ∀ s, ¬(f.observe d.provenance).begins channel s d →
      ∀ after, R s after → R s (after ++ (snapshotOn channel d).toList))
    (h : AllTraced R channel received f) :
    AllTraced R channel (received ++ (snapshotOn channel d).toList) (f.step input d) := by
  intro s c hc
  rcases message_cycles input hc with ⟨hold, hkept⟩ | ⟨begin, hd, rfl, rfl⟩ | ⟨l, c', hd, rfl, hold, rfl⟩
  · rw [observe_bookCycles] at hold
    exact (h s c hold).append (hsnoc s hkept)
  · rw [hd]
    exact Traced.opened begin (hnil _)
  · rw [observe_bookCycles] at hold
    have hkept : ¬(f.observe d.provenance).begins channel l.snapshotId d := by
      obtain ⟨p, rfl, -⟩ := eq_state_of_snapshotOn hd
      exact id
    have hpush := hsnoc l.snapshotId hkept
    rw [hd] at hpush ⊢
    exact (h _ c' hold).push hpush

end Fold

theorem fold_traced (input : EventInput) (channel : Channel) (ds : List Decoded) :
    Fold.AllTraced (fun _ _ ↦ True) channel (snapshots channel ds) (fold input ds) := by
  refine run_history (P := fun pre f ↦ Fold.AllTraced _ channel (snapshots channel pre) f) ds ?_ ?_
  · exact fun s c hc ↦ absurd hc (by simp)
  · intro pre d _ h
    rw [snapshots_snoc]
    exact Fold.step_traced input d (fun _ ↦ trivial) (fun _ _ _ _ ↦ trivial) h

/-! ## A cycle that its own end closes -/

/-- The levels of a group, as they are received. -/
theorem filterMap_body (g : PublishedGroup) :
    (framing.body g).filterMap (levelOf g.snapshotId) = g.levels.map g.level := by
  have hlevel : levelOf g.snapshotId ∘ (fun l ↦ StateBody.snapshotLevel (g.level l)) =
      some ∘ g.level := by
    funext l
    exact if_pos rfl
  rw [framing, List.filterMap_map, hlevel, List.filterMap_eq_map]

/-- The sides of a cycle that holds the levels of a group. -/
theorem foldl_push_group (g : PublishedGroup) (c : BookCycle) (hbids : c.bids = ∅)
    (hasks : c.asks = ∅) : ((g.levels.map g.level).foldl BookCycle.push c).bids = g.side true ∧
      ((g.levels.map g.level).foldl BookCycle.push c).asks = g.side false := by
  obtain ⟨hbids', hasks'⟩ := c.foldl_push_sides (g.levels.map g.level)
  rw [hbids', hasks', hbids, hasks, List.filter_map, List.filter_map, List.foldl_map,
    List.foldl_map, side, side]
  constructor
  · congr 2
    funext l
    exact (beq_true _).symm
  · congr 2
    funext l
    exact (beq_false _).symm

/-- A complete cycle that holds levels of a group holds all of them. -/
theorem eq_of_complete {g : PublishedGroup} {begin : SnapshotBegin} {ls : List SnapshotLevel}
    (hsub : ls.Sublist (g.levels.map g.level)) (hcounted : g.levels.length < 2 ^ 32)
    (htotal : begin.totalLevels = g.levels.length)
    (hcomplete : (ls.foldl BookCycle.push (BookCycle.opened begin)).levels =
      (ls.foldl BookCycle.push (BookCycle.opened begin)).totalLevels) :
    ls = g.levels.map g.level := by
  obtain ⟨-, -, htotal', hlevels⟩ := (BookCycle.opened begin).foldl_push ls
  have hle := hsub.length_le
  rw [htotal', hlevels (by simp [BookCycle.opened])] at hcomplete
  simp only [BookCycle.opened, htotal, Nat.zero_add] at hcomplete
  rw [List.length_map] at hle
  rw [Nat.mod_eq_of_lt (by omega)] at hcomplete
  exact hsub.eq_of_length (by rw [hcomplete, List.length_map])

/-- A begin and an end in the stream are those of two groups. -/
theorem mem_stream {groups : List PublishedGroup} :
    (∀ begin, StateBody.snapshotBegin begin ∈ framing.stream groups →
      ∃ g : PublishedGroup, begin = g.begin) ∧
    ∀ finish, StateBody.snapshotEnd finish ∈ framing.stream groups →
      ∃ g : PublishedGroup, finish = g.finish := by
  constructor
  · intro begin hmem
    obtain ⟨g, -, hmem⟩ := List.mem_flatMap.mp hmem
    exact ⟨g, by simpa [Framing.block, framing] using hmem⟩
  · intro finish hmem
    obtain ⟨g, -, hmem⟩ := List.mem_flatMap.mp hmem
    exact ⟨g, by simpa [Framing.block, framing] using hmem⟩

/-- A complete cycle that the end of its own instrument closes holds the levels of one group,
and the end is the group's. -/
theorem Traced.group {groups : List PublishedGroup} (hpublished : Published groups)
    {R : List StateBody → Prop} {received : List StateBody} {finish : SnapshotEnd} {c : BookCycle}
    (h : Traced R received finish.snapshotId c) (hcomplete : c.levels = c.totalLevels)
    (hid : finish.instrumentId = c.instrumentId)
    (hdelivered : (received ++ [StateBody.snapshotEnd finish]).Sublist (framing.stream groups)) :
    ∃ g ∈ groups, g.instrumentId = c.instrumentId ∧ finish = g.finish ∧
      c.bids = g.side true ∧ c.asks = g.side false := by
  obtain ⟨before, begin, after, ls, rfl, -, hbegin, hls, rfl⟩ := h
  have hinstrument := ((BookCycle.opened begin).foldl_push ls).1
  obtain ⟨g, rfl⟩ := mem_stream.1 begin (hdelivered.subset (by simp))
  obtain ⟨g', rfl⟩ := mem_stream.2 finish (hdelivered.subset (by simp))
  rw [hinstrument] at hid ⊢
  rw [List.append_assoc, List.cons_append] at hdelivered
  rcases framing.sublist_stream g g' hdelivered with
    ⟨b, hb, hopener, hcloser, hafter⟩ | ⟨b, b', hbb, hopener, hcloser⟩
  · have hbegin' := StateBody.snapshotBegin.inj hopener
    have hfinish := StateBody.snapshotEnd.inj hcloser
    have hids : g'.finish.snapshotId = b.snapshotId := congrArg SnapshotEnd.snapshotId hfinish
    -- as many levels as the group has, all of them the group's
    have hsub : ls.Sublist (b.levels.map b.level) := by
      rw [← filterMap_body]
      rw [hids] at hls
      exact hls.trans (hafter.filterMap _)
    obtain rfl := eq_of_complete hsub (hpublished.counted b hb)
      (congrArg SnapshotBegin.totalLevels hbegin') hcomplete
    refine ⟨b, hb, ?_, hfinish, foldl_push_group b _ rfl rfl⟩
    exact (congrArg SnapshotBegin.instrumentId hbegin').symm
  · -- two groups of the instrument under one id
    exfalso
    have hbegin' := StateBody.snapshotBegin.inj hopener
    have hfinish := StateBody.snapshotEnd.inj hcloser
    have hsame : b.instrumentId = b'.instrumentId := by
      have hb : g.begin.instrumentId = b.instrumentId := congrArg SnapshotBegin.instrumentId hbegin'
      have hb' : g'.finish.instrumentId = b'.instrumentId :=
        congrArg SnapshotEnd.instrumentId hfinish
      rw [← hb, ← hb', hid]
      rfl
    have hlt := hpublished.ascending.forall_sublist hbb hsame
    have hb : g.begin.snapshotId = b.snapshotId := congrArg SnapshotBegin.snapshotId hbegin'
    have hb' : g'.finish.snapshotId = b'.snapshotId := congrArg SnapshotEnd.snapshotId hfinish
    omega

/-! ## Runs -/

/-- What an end installs is one group of the instrument, and the end is the group's. -/
def InstallsGroup (groups : List PublishedGroup) (k : Scoped Channel) (book : InstrumentBook)
    (d : Decoded) : Prop :=
  ∃ g ∈ groups, g.instrumentId = k.id ∧ d = .state (.snapshotEnd g.finish) d.provenance ∧
    book.bids = g.side true ∧ book.asks = g.side false

namespace Fold

/-- Whenever the message anchors a book of the channel, it installs a group. -/
def Unmixed (input : EventInput) (channel : Channel) (groups : List PublishedGroup) (f : Fold)
    (d : Decoded) : Prop :=
  ∀ k : Scoped Channel, k.scope = channel →
    ∀ cycle ∈ (f.observe d.provenance).anchoring k d,
      InstallsGroup groups k ((f.step input d).book.book k) d

/-- Whenever the message anchors a book of the channel, it names the book's instrument. -/
def EndsOwn (channel : Channel) (f : Fold) (d : Decoded) : Prop :=
  ∀ k : Scoped Channel, k.scope = channel →
    ∀ cycle ∈ (f.observe d.provenance).anchoring k d, d.names = some k.id

instance (channel : Channel) (f : Fold) (d : Decoded) : Decidable (EndsOwn channel f d) :=
  decidable_of_iff (∀ k ∈ (f.observe d.provenance).anchored d, k.scope = channel →
      ∀ cycle ∈ (f.observe d.provenance).anchoring k d, d.names = some k.id)
    ⟨fun h k hk cycle hcycle ↦ h k (anchored_of_anchoring hcycle) hk cycle hcycle,
      fun h k _ ↦ h k⟩

end Fold

/-- **Groups are not mixed** in a run that receives any part of what was published, exactly
when every end that anchors a book names the instrument of the book. -/
theorem cycles_unmixed (input : EventInput) (channel : Channel) {groups : List PublishedGroup}
    (hpublished : Published groups) (ds : List Decoded)
    (hdelivered : (snapshots channel ds).Sublist (framing.stream groups)) :
    (∀ pre d, pre ++ [d] <+: ds → (fold input pre).Unmixed input channel groups d) ↔
      ∀ pre d, pre ++ [d] <+: ds → (fold input pre).EndsOwn channel d := by
  constructor
  · intro h pre d hpre k hk cycle hcycle
    obtain ⟨g, -, hg, hd, -⟩ := h pre d hpre k hk cycle hcycle
    rw [hd, ← hg]
    rfl
  · intro h pre d hpre k hk cycle hcycle
    have hnames := h pre d hpre k hk cycle hcycle
    have hprefix : (snapshots channel (pre ++ [d])).Sublist (framing.stream groups) :=
      (hpre.sublist.filterMap _).trans hdelivered
    obtain ⟨n, hbook⟩ := Fold.message_anchoring input hcycle
    obtain ⟨finish, p, rfl⟩ := Fold.end_of_anchoring hcycle
    obtain ⟨rfl, -, here, hcomplete, -⟩ := Fold.anchoring_snapshotEnd.mp hcycle
    obtain rfl : Channel.of p.inst = channel := hk
    rw [Fold.observe_bookCycles] at here
    have htraced := fold_traced input _ pre _ _ here
    rw [snapshots_snoc] at hprefix
    have hown : snapshotOn (Channel.of p.inst) (.state (.snapshotEnd finish) p) =
        some (.snapshotEnd finish) := if_pos rfl
    rw [hown] at hprefix
    obtain ⟨g, hg, hid, rfl, hbids, hasks⟩ := htraced.group hpublished hcomplete
      (Option.some.inj hnames) hprefix
    refine ⟨g, hg, hid, rfl, ?_, ?_⟩
    · rw [Fold.step, hbook]
      exact hbids
    · rw [Fold.step, hbook]
      exact hasks

/-! ## A group whose level is lost, and a lost end -/

/-- Two instruments of a channel, whose groups use the same id. -/
def twoGroups : List PublishedGroup :=
  [⟨5, 10, 1, [⟨sideBid, 100, 1⟩], 0⟩, ⟨6, 20, 1, [⟨sideBid, 200, 1⟩], 0⟩,
    ⟨5, 30, 2, [⟨sideBid, 300, 1⟩], 0⟩]

/-- The datagrams of the stream that are received, one message each, by their number. -/
def receivedOf (numbers : List ℕ) : List RecordedDatagram :=
  [datagram .refdata 1 [.reference (.definition (definition 5))],
    datagram .refdata 2 [.reference (.definition (definition 6))]] ++
  (((framing.stream twoGroups).zipIdx).filter fun m ↦ numbers.contains m.2).map fun m ↦
    datagram .snapshot m.2 [.state m.1]

/-- A level of the second group is lost: it is refused, and the third is installed. -/
theorem cycles_unmixed_lost_level :
    let ds := inOrder 0 0 (receivedOf [0, 1, 2, 3, 5, 6, 7, 8])
    (fold ⟨0, false⟩ ds.dropLast).Unmixed ⟨0, false⟩ ⟨1, 7⟩ twoGroups
      (.state (.snapshotEnd ⟨5, 30, 2⟩) ((datagram .snapshot 8 []).provenance 9 0)) := by
  refine (cycles_unmixed ⟨0, false⟩ ⟨1, 7⟩ (by decide) _ (by decide)).mpr ?_ _ _ ⟨[], rfl⟩
  change ∀ pre d, pre ++ [d] <+: [_, _, _, _, _, _, _, _, _, _] → _
  simp only [forall_prefix_cons]
  refine ⟨?_, ?_, ?_, ?_, ?_, ?_, ?_, ?_, ?_, ?_, forall_prefix_nil⟩ <;> decide

/-- The level and the end of the first group and the begin of the second are lost: the book of
the first instrument is certain and holds the level of the second. -/
theorem lost_end_mixes_groups :
    let ds := inOrder 0 0 (receivedOf [0, 4])
    let d : Decoded := .state (.snapshotEnd ⟨6, 20, 1⟩) ((datagram .snapshot 5 []).provenance 4 0)
    Published twoGroups ∧ (snapshots ⟨1, 7⟩ (ds ++ [d])).Sublist (framing.stream twoGroups) ∧
      (((fold ⟨0, false⟩ ds).step ⟨0, false⟩ d).book.book ⟨⟨1, 7⟩, 5⟩).bids.toList = [(200, 1)] ∧
      (((fold ⟨0, false⟩ ds).step ⟨0, false⟩ d).book.book ⟨⟨1, 7⟩, 5⟩).certain = true ∧
      ¬(fold ⟨0, false⟩ ds).Unmixed ⟨0, false⟩ ⟨1, 7⟩ twoGroups d := by
  intro ds d
  refine ⟨by decide, by decide, by decide, by decide, fun h ↦ ?_⟩
  have hanchor : (((fold ⟨0, false⟩ ds).observe d.provenance).anchoring ⟨⟨1, 7⟩, 5⟩ d).isSome := by
    decide
  obtain ⟨cycle, hcycle⟩ := Option.isSome_iff_exists.mp hanchor
  obtain ⟨g, -, hid, hd, -⟩ := h ⟨⟨1, 7⟩, 5⟩ rfl cycle hcycle
  have hinstrument : some 6 = some g.instrumentId := congrArg Decoded.names hd
  rw [hid] at hinstrument
  exact absurd hinstrument (by decide)

end EdgeMulticast.Recorder
