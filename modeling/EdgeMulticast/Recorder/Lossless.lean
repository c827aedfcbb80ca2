import EdgeMulticast.Lib.Checkpoint
import EdgeMulticast.Recorder.Cycles

/-!
# The book of a feed that loses nothing

The publisher of a delta feed numbers its deltas and sends, on another port, groups that state
its whole book at a number.  When both ports are delivered in order and nothing is lost, a book
that says it is certain should be the publisher's at the later of its anchor and the newest
delta received.

There is no order between the ports, and the derivation does not compare the anchor of a group
with the number of a delta: a group that ends behind newer deltas takes them back
(`late_cycle_loses_delta`), and a delta older than the anchor is applied again.
`certain_is_published` says that this is all that goes wrong, once the messages find their
definitions.
-/

namespace EdgeMulticast.Recorder

open Std (ExtTreeMap)
open EdgeMulticast.Lib
open PublishedGroup

/-! ## The publisher -/

/-- Two sides of a book. -/
structure Sides where
  bids : Levels
  asks : Levels

def InstrumentBook.sides (book : InstrumentBook) : Sides := ⟨book.bids, book.asks⟩

namespace Sides

/-- What a delta means. -/
def apply (s : Sides) : MessageBody → Sides
  | .level l =>
      let set (side : Levels) : Levels :=
        if l.qtyRaw = 0 then side.erase l.priceRaw else side.insert l.priceRaw l.qtyRaw
      if l.side = sideBid then { s with bids := set s.bids } else { s with asks := set s.asks }
  | .clear c =>
      let fromPrice := if c.scope = scopeFromPrice then some c.fromPriceRaw else none
      { bids := if c.clearSide = clearBid ∨ c.clearSide = clearBoth then
          clearSide s.bids fromPrice true else s.bids
        asks := if c.clearSide = clearAsk ∨ c.clearSide = clearBoth then
          clearSide s.asks fromPrice false else s.asks }
  | .quote _ | .trade _ => s

/-- The messages of one instrument, applied. -/
def take (instrumentId : ℕ) (s : Sides) (body : MessageBody) : Sides :=
  if instrumentOfMarket body = instrumentId then s.apply body else s

end Sides

/-- What the publisher of a delta feed has sent on `mktdata`: market messages, numbered by their
datagrams, from the books it started with. -/
structure DeltaFeed where
  initial : ℕ → Sides
  log : List (ℕ × MessageBody)
  ascending : log.Pairwise fun e e' ↦ e.1 ≤ e'.1
  deltas : ∀ e ∈ log, ∀ q, e.2 ≠ .quote q

namespace DeltaFeed

/-- The publisher's book of an instrument after a number. -/
def after (feed : DeltaFeed) (instrumentId n : ℕ) : Sides :=
  replay (Sides.take instrumentId) (feed.initial instrumentId) (upTo n feed.log)

end DeltaFeed

/-- The numbered market message of the channel, if it is one. -/
def marketOn (channel : Channel) : Decoded → Option (ℕ × MessageBody)
  | .market body p => if Channel.of p.inst = channel then some (p.sequenceNumber, body) else none
  | _ => none

theorem eq_market_of_marketOn {channel : Channel} {d : Decoded} {e : ℕ × MessageBody}
    (h : marketOn channel d = some e) :
    ∃ body p, d = .market body p ∧ Channel.of p.inst = channel ∧ e = (p.sequenceNumber, body) := by
  unfold marketOn at h
  split at h
  next body p =>
      split at h
      next hscope => exact ⟨body, p, rfl, hscope, (Option.some.inj h).symm⟩
      next => exact absurd h (by simp)
  · exact absurd h (by simp)

/-- The market messages of the channel, in the order of the archive. -/
def marketOf (channel : Channel) (ds : List Decoded) : List (ℕ × MessageBody) :=
  ds.filterMap (marketOn channel)

theorem marketOf_snoc (channel : Channel) (ds : List Decoded) (d : Decoded) :
    marketOf channel (ds ++ [d]) = marketOf channel ds ++ (marketOn channel d).toList := by
  rw [marketOf, marketOf, List.filterMap_append]
  cases h : marketOn channel d <;> simp [h]

/-- No begin under the id. -/
def NoBegin (snapshotId : ℕ) (after : List StateBody) : Prop :=
  ∀ m ∈ after, ∀ begin, m = .snapshotBegin begin → begin.snapshotId ≠ snapshotId

/-- An end closes a group whose id has not been used since its begin, and that states the
publisher's book at its anchor. -/
def Closes (feed : DeltaFeed) (received : List StateBody) (finish : SnapshotEnd) : Prop :=
  ∃ (g : PublishedGroup) (before after : List StateBody), finish = g.finish ∧
    received = before ++ .snapshotBegin g.begin :: after ∧ NoBegin g.snapshotId after ∧
    after.filterMap (levelOf g.snapshotId) = g.levels.map g.level ∧
    g.levels.length < 2 ^ 32 ∧
    (⟨g.side true, g.side false⟩ : Sides) = feed.after g.instrumentId g.anchorSeq

/-- Everything the publisher has sent is received, each port in order, so far. -/
structure Lossless (feed : DeltaFeed) (channel : Channel) (ds : List Decoded) : Prop where
  market : marketOf channel ds <+: feed.log
  groups : ∀ received m, received ++ [m] <+: snapshots channel ds →
    ∀ finish, m = .snapshotEnd finish → Closes feed received finish

/-! ## Anchors and deltas in step -/

/-- A market message that changes a book. -/
def MessageBody.isDelta : MessageBody → Bool
  | .level _ | .clear _ => true
  | .quote _ | .trade _ => false

/-- The begin that a message is. -/
def Decoded.opens : Decoded → Option SnapshotBegin
  | .state (.snapshotBegin begin) _ => some begin
  | _ => none

namespace Fold

variable (f : Fold) (k : Scoped Channel)

/-- The anchor of the last cycle that was applied to the book. -/
def anchorAfter (anchor : Option ℕ) (d : Decoded) : Option ℕ :=
  (((f.observe d.provenance).anchoring k d).map (·.anchorSeq)).or anchor

/-- The message comes where the anchors of the book have it come. -/
structure InStep (anchor : Option ℕ) (received : List (ℕ × MessageBody)) (d : Decoded) :
    Prop where
  /-- A begin of the channel finds a definition in force. -/
  begins : Channel.of d.provenance.inst = k.scope → ∀ begin ∈ d.opens,
    (f.table.resolve k.scope begin.instrumentId d.provenance.recvTsNs).isSome = true
  /-- A cycle that anchors the book is behind no delta of it that has been received. -/
  anchors : ∀ cycle ∈ (f.observe d.provenance).anchoring k d, ∀ e ∈ received,
    instrumentOfMarket e.2 = k.id → e.2.isDelta = true → e.1 ≤ cycle.anchorSeq
  /-- A delta of a certain book finds a definition in force exactly when it is numbered after
  the anchor. -/
  deltas : ∀ e ∈ marketOn k.scope d, instrumentOfMarket e.2 = k.id → e.2.isDelta = true →
    ((f.observe d.provenance).book.book k).certain = true →
      ((f.table.resolve k.scope k.id d.provenance.recvTsNs).isSome = true ↔
        ∀ a ∈ anchor, a < e.1)

instance (anchor : Option ℕ) (received : List (ℕ × MessageBody)) (d : Decoded) :
    Decidable (f.InStep k anchor received d) :=
  decidable_of_iff (_ ∧ _ ∧ _)
    ⟨fun ⟨begins, anchors, deltas⟩ ↦ ⟨begins, anchors, deltas⟩,
      fun h ↦ ⟨h.begins, h.anchors, h.deltas⟩⟩

/-- A book that says it is certain is the publisher's at the later of its anchor and of the
number up to which messages have been received, and its top is the top of its sides. -/
def Right (feed : DeltaFeed) (anchor : Option ℕ) (received : List (ℕ × MessageBody)) : Prop :=
  (f.book.book k).certain = true → (f.book.book k).recomputeTop.top = (f.book.book k).top ∧
    ∃ a, anchor = some a ∧ ∀ n, received = upTo n feed.log →
      (f.book.book k).sides = feed.after k.id (max a n)

end Fold

/-- The anchor of the last cycle that was applied to the book of an instrument. -/
def lastAnchor (input : EventInput) (k : Scoped Channel) (ds : List Decoded) : Option ℕ :=
  ghost (Fold.step input) (fun f anchor d ↦ f.anchorAfter k anchor d) {} none ds

/-! ## Books and sides -/

namespace InstrumentBook

variable {book : InstrumentBook}

/-- An established book applies a delta as the publisher does. -/
theorem market_sides {body : MessageBody} (hestablished : book.established = true)
    (hquote : ∀ q, body ≠ .quote q) : (book.market body).1.sides = book.sides.apply body := by
  cases body with
  | quote q => exact absurd rfl (hquote q)
  | trade t => rfl
  | level l =>
      simp only [market, level, hestablished, Bool.not_true, Bool.false_eq_true, if_false,
        recomputeTop, sides, applyLevel, Sides.apply]
      split <;> rfl
  | clear c =>
      simp only [market, clear, hestablished, Bool.not_true, Bool.false_eq_true, if_false,
        recomputeTop, sides, applyClear, Sides.apply]
      split <;> split <;> rfl

/-- A message that is no delta leaves the sides alone. -/
theorem apply_of_not_isDelta {body : MessageBody} (h : body.isDelta = false) (s : Sides) :
    s.apply body = s := by
  cases body with
  | quote | trade => rfl
  | level | clear => exact absurd h Bool.noConfusion

/-- A market message that leaves a book certain leaves its top the top of its sides. -/
theorem market_top {body : MessageBody} (hquote : ∀ q, body ≠ .quote q)
    (h : book.recomputeTop.top = book.top) :
    (book.market body).1.recomputeTop.top = (book.market body).1.top := by
  cases body with
  | quote q => exact absurd rfl (hquote q)
  | trade t => exact h
  | level l =>
      simp only [market, level]
      split
      · split <;> exact h
      · rfl
  | clear c =>
      simp only [market, clear]
      split
      · exact h
      · rfl

end InstrumentBook

/-! ## What a group installs -/

theorem Lossless.mono {feed : DeltaFeed} {channel : Channel} {pre ds : List Decoded}
    (h : Lossless feed channel ds) (hpre : pre <+: ds) : Lossless feed channel pre where
  market := (hpre.filterMap _).trans h.market
  groups received m hreceived := h.groups received m (hreceived.trans (hpre.filterMap _))

/-- A complete cycle that follows the last begin under its id is the publisher's book. -/
theorem Traced.published {feed : DeltaFeed} {channel : Channel} {ds : List Decoded}
    {received : List StateBody} {finish : SnapshotEnd} {c : BookCycle}
    (hlossless : Lossless feed channel ds)
    (hfinish : received ++ [.snapshotEnd finish] <+: snapshots channel ds)
    (h : Traced (NoBegin finish.snapshotId) received finish.snapshotId c)
    (hcomplete : c.levels = c.totalLevels) :
    (⟨c.bids, c.asks⟩ : Sides) = feed.after c.instrumentId c.anchorSeq := by
  obtain ⟨g, before, after, rfl, hreceived, hafter, hlevels, hcounted, hstates⟩ :=
    hlossless.groups received _ hfinish finish rfl
  obtain ⟨before', begin, after', ls, hreceived', hafter', hid, hls, rfl⟩ := h
  obtain ⟨hbegin, rfl⟩ := last_unique
    (p := fun m ↦ ∃ b, m = StateBody.snapshotBegin b ∧ b.snapshotId = g.snapshotId)
    ⟨g.begin, rfl, rfl⟩ ⟨begin, rfl, hid⟩ (fun m hm ⟨b, hb, hbid⟩ ↦ hafter m hm b hb hbid)
    (fun m hm ⟨b, hb, hbid⟩ ↦ hafter' m hm b hb hbid) (hreceived.symm.trans hreceived')
  obtain rfl := StateBody.snapshotBegin.inj hbegin
  have hsub : ls.Sublist (g.levels.map g.level) := hlevels ▸ hls
  obtain rfl := eq_of_complete hsub hcounted rfl hcomplete
  obtain ⟨hbids, hasks⟩ := foldl_push_group g (BookCycle.opened g.begin) rfl rfl
  obtain ⟨hinstrument, hanchor, -⟩ := (BookCycle.opened g.begin).foldl_push (g.levels.map g.level)
  rw [hbids, hasks, hstates, hinstrument, hanchor]
  rfl

/-! ## One step -/

namespace Fold

variable {f : Fold} {k : Scoped Channel} {anchor : Option ℕ} {feed : DeltaFeed}

/-- The reader's state of one book: it holds the publisher's log from the anchor of the last
cycle. -/
def HoldsLog (feed : DeltaFeed) (k : Scoped Channel) (received : List (ℕ × MessageBody))
    (anchor : Option ℕ) (book : InstrumentBook) : Prop :=
  book.certain = true → book.recomputeTop.top = book.top ∧ ∃ a, anchor = some a ∧
    Holds (Sides.take k.id) (feed.initial k.id) feed.log received a book.sides

theorem HoldsLog.of_uncertain {received : List (ℕ × MessageBody)} {book : InstrumentBook}
    (h : book.certain = false) : HoldsLog feed k received anchor book :=
  fun hcertain ↦ absurd (h.symm.trans hcertain) Bool.noConfusion

theorem HoldsLog.observe {received : List (ℕ × MessageBody)}
    (h : HoldsLog feed k received anchor (f.book.book k)) (p : WireProvenance) :
    HoldsLog feed k received anchor ((f.observe p).book.book k) := by
  rw [book_observe]
  split
  · exact h
  · split
    · exact HoldsLog.of_uncertain rfl
    · exact h

/-- A market message of the channel. -/
theorem HoldsLog.market {ds : List Decoded} {p : WireProvenance} {body : MessageBody}
    (input : EventInput) (htidy : f.Tidy)
    (h : HoldsLog feed k (marketOf k.scope ds) anchor (f.book.book k))
    (hscope : Channel.of p.inst = k.scope)
    (hnext : marketOf k.scope ds ++ [(p.sequenceNumber, body)] <+: feed.log)
    (hdelta : instrumentOfMarket body = k.id → body.isDelta = true →
      (f.book.book k).certain = true →
        ((f.table.resolve k.scope k.id p.recvTsNs).isSome = true ↔
          ∀ a ∈ anchor, a < p.sequenceNumber)) :
    HoldsLog feed k (marketOf k.scope ds ++ [(p.sequenceNumber, body)]) anchor
      ((f.message input (.market body p)).book.book k) := by
  have hquote : ∀ q, body ≠ .quote q := 
    feed.deltas (p.sequenceNumber, body) (hnext.subset (by simp))
  intro hcertain
  have hwas : (f.book.book k).certain = true := by
    by_contra hnot
    refine absurd (message_certain input (d := .market body p) ?_ rfl (Bool.eq_false_iff.mpr hnot))
      (by simp [hcertain])
    intro hquotes
    cases body with
    | quote q => exact hquote q rfl
    | trade | level | clear => exact absurd hquotes.1 Bool.noConfusion
  obtain ⟨htop, a, rfl, hholds⟩ := h hwas
  rw [message_market]
  by_cases hown : instrumentOfMarket body = k.id ∧ body.isDelta = true
  · -- a delta of the book is applied exactly when it is numbered after the anchor
    have hk : (⟨Channel.of p.inst, instrumentOfMarket body⟩ : Scoped Channel) = k :=
      Scoped.ext hscope hown.1
    have htake (s : Sides) : Sides.take k.id s body = s.apply body := if_pos hown.1
    by_cases ha : a < p.sequenceNumber
    · have hresolved := (hdelta hown.1 hown.2 hwas).mpr fun a' ha' ↦ by
        obtain rfl := Option.some.inj ha'
        exact ha
      rw [if_pos ⟨hk, hresolved⟩]
      refine ⟨InstrumentBook.market_top hquote htop, a, rfl, ?_⟩
      rw [InstrumentBook.market_sides ((htidy.coherent k).anchored hwas) hquote, ← htake]
      exact hholds.apply_after hnext ha
    · have hskipped : ¬(f.table.resolve k.scope k.id p.recvTsNs).isSome = true := fun hresolved ↦
        ha ((hdelta hown.1 hown.2 hwas).mp hresolved a rfl)
      rw [if_neg fun hboth ↦ hskipped hboth.2]
      exact ⟨htop, a, rfl, hholds.skip_before feed.ascending hnext (Nat.le_of_not_lt ha)⟩
  · -- any other message leaves the sides alone, in the book and in the log
    have htake (s : Sides) : Sides.take k.id s body = s := by
      rw [Sides.take]
      split
      next hid =>
          refine InstrumentBook.apply_of_not_isDelta (Bool.eq_false_iff.mpr fun hd ↦ ?_) s
          exact hown ⟨hid, hd⟩
      next => rfl
    have hsame : (if ⟨Channel.of p.inst, instrumentOfMarket body⟩ = k ∧
        (f.table.resolve k.scope k.id p.recvTsNs).isSome then
          ((f.book.book k).market body).1 else f.book.book k) = f.book.book k := by
      split
      next hfolded =>
          cases body with
          | quote q => exact absurd rfl (hquote q)
          | trade t => rfl
          | level | clear => exact absurd ⟨congrArg Scoped.id hfolded.1, rfl⟩ hown
      next => rfl
    rw [hsame]
    refine ⟨htop, a, rfl, ?_⟩
    by_cases ha : a < p.sequenceNumber
    · rw [← htake (f.book.book k).sides]
      exact hholds.apply_after hnext ha
    · exact hholds.skip_before feed.ascending hnext (Nat.le_of_not_lt ha)

/-- A cycle that anchors the book, behind no delta of it. -/
theorem HoldsLog.of_anchor {received : List (ℕ × MessageBody)} {cycle : BookCycle}
    (book : InstrumentBook) (hreceived : received <+: feed.log)
    (hpublished : (⟨cycle.bids, cycle.asks⟩ : Sides) = feed.after k.id cycle.anchorSeq)
    (hbehind : ∀ e ∈ received, instrumentOfMarket e.2 = k.id → e.2.isDelta = true →
      e.1 ≤ cycle.anchorSeq) :
    HoldsLog feed k received (some cycle.anchorSeq) (book.anchor cycle).1 := by
  refine fun _ ↦ ⟨rfl, cycle.anchorSeq, rfl, ?_⟩
  rw [show (book.anchor cycle).1.sides = feed.after k.id cycle.anchorSeq from hpublished]
  refine Holds.checkpoint feed.ascending hreceived fun e he hlt s ↦ ?_
  rw [Sides.take]
  split
  next hown =>
      refine InstrumentBook.apply_of_not_isDelta (Bool.eq_false_iff.mpr fun hdelta ↦ ?_) s
      exact absurd (hbehind e he hown hdelta) (Nat.not_le_of_lt hlt)
  next => rfl

/-- What holds of the fold after the messages `pre`. -/
structure Follows (feed : DeltaFeed) (k : Scoped Channel) (pre : List Decoded) (f : Fold)
    (anchor : Option ℕ) : Prop where
  tidy : f.Tidy
  traced : AllTraced NoBegin k.scope (snapshots k.scope pre) f
  book : HoldsLog feed k (marketOf k.scope pre) anchor (f.book.book k)

theorem Follows.traced_step {pre : List Decoded} (h : Follows feed k pre f anchor)
    (input : EventInput) {d : Decoded} (hin : f.InStep k anchor (marketOf k.scope pre) d) :
    AllTraced NoBegin k.scope (snapshots k.scope (pre ++ [d])) (f.step input d) := by
  rw [snapshots_snoc]
  refine step_traced input d (fun s m hm ↦ absurd hm List.not_mem_nil) ?_ h.traced
  intro s hkept after hafter m hm begin hbegin
  rcases List.mem_append.mp hm with hm | hm
  · exact hafter m hm begin hbegin
  · subst hbegin
    have hd : snapshotOn k.scope d = some (.snapshotBegin begin) := Option.mem_toList.mp hm
    rintro rfl
    obtain ⟨p, rfl, hscope⟩ := eq_state_of_snapshotOn hd
    refine hkept ⟨hscope, rfl, ?_⟩
    rw [observe_table]
    exact hin.begins hscope begin rfl

/-- **One step.** -/
theorem Follows.step {pre ds : List Decoded} (h : Follows feed k pre f anchor)
    (input : EventInput) {d : Decoded} (hlossless : Lossless feed k.scope ds)
    (hpre : pre ++ [d] <+: ds) (hin : f.InStep k anchor (marketOf k.scope pre) d) :
    Follows feed k (pre ++ [d]) (f.step input d) (f.anchorAfter k anchor d) := by
  refine ⟨h.tidy.step input d, h.traced_step input hin, ?_⟩
  have hbook := h.book.observe d.provenance
  have htidy := h.tidy.observe d.provenance
  have hmarket := (hlossless.mono hpre).market
  rw [marketOf_snoc] at hmarket ⊢
  rw [Fold.step, anchorAfter]
  cases hanchor : (f.observe d.provenance).anchoring k d with
  | some cycle =>
      -- the cycle is the publisher's book at its anchor
      obtain ⟨n, hn⟩ := message_anchoring input hanchor
      obtain ⟨finish, p, rfl⟩ := end_of_anchoring hanchor
      obtain ⟨rfl, -, here, hcomplete, -⟩ := anchoring_snapshotEnd.mp hanchor
      rw [observe_bookCycles] at here
      have hreceived := hpre.filterMap (snapshotOn (Channel.of p.inst))
      rw [← snapshots, snapshots_snoc, show snapshotOn (Channel.of p.inst)
        (.state (.snapshotEnd finish) p) = some (.snapshotEnd finish) from if_pos rfl] at hreceived
      rw [hn]
      refine HoldsLog.of_anchor _ hmarket ?_ ?_
      · exact Traced.published hlossless hreceived (h.traced _ _ here) hcomplete
      · rw [show marketOn (Channel.of p.inst) (.state (.snapshotEnd finish) p) = none from rfl,
          Option.toList_none, List.append_nil]
        exact hin.anchors cycle hanchor
  | none =>
      rw [Option.map_none, Option.none_or]
      cases hd : marketOn k.scope d with
      | some e =>
          obtain ⟨body, p, rfl, hscope, rfl⟩ := eq_market_of_marketOn hd
          rw [hd] at hmarket
          refine HoldsLog.market input htidy hbook hscope hmarket fun hid hdelta hcertain ↦ ?_
          rw [observe_table]
          exact hin.deltas _ hd hid hdelta hcertain
      | none =>
          rw [Option.toList_none, List.append_nil]
          rcases message_cases input d k with ⟨n, hn⟩ | ⟨r, htouches, hr⟩
          · rw [hn]
            exact hbook
          · rw [hr]
            cases htouches with
            | @market body p _ here =>
                have hown : marketOn k.scope (.market body p) = some (p.sequenceNumber, body) :=
                  if_pos (congrArg Scoped.scope here)
                exact absurd (hd.symm.trans hown) (by simp)
            | reset => exact HoldsLog.of_uncertain (InstrumentBook.reset_certain ..)
            | anchor anchors => exact absurd (hanchor.symm.trans anchors) (by simp)

end Fold

/-! ## Runs -/

/-- Two deltas of one instrument, from an empty book. -/
def twoDeltas : DeltaFeed where
  initial _ := ⟨∅, ∅⟩
  log := [(11, .level ⟨5, sideBid, 100, 1, 0⟩), (12, .level ⟨5, sideBid, 101, 2, 0⟩)]
  ascending := by simp
  deltas := by simp

def delta (sequenceNumber : ℕ) (priceRaw : ℤ) (qtyRaw : ℕ) : RecordedDatagram :=
  datagram .mktdata sequenceNumber [.market (.level ⟨5, sideBid, priceRaw, qtyRaw, 0⟩)]

/-- The group at 11 is sent between the two deltas. -/
def inStep : List Decoded :=
  inOrder 0 0 [datagram .refdata 1 [.reference (.definition (definition 5))], delta 11 100 1,
    datagram .snapshot 1 (snapshotGroup 5 1 11 [(sideBid, 100, 1)]), delta 12 101 2]

/-- What the group at 11 closes with. -/
theorem lossless_of_snapshots {ds : List Decoded} (hmarket : marketOf ⟨1, 7⟩ ds <+: twoDeltas.log)
    (hgroup : snapshots ⟨1, 7⟩ ds = [.snapshotBegin ⟨5, 11, 1, 1, 0⟩,
      .snapshotLevel ⟨1, sideBid, 100, 1⟩, .snapshotEnd ⟨5, 11, 1⟩]) :
    Lossless twoDeltas ⟨1, 7⟩ ds := by
  refine ⟨hmarket, ?_⟩
  rw [hgroup]
  simp only [forall_prefix_cons]
  refine ⟨?_, ?_, ?_, forall_prefix_nil⟩
  · rintro finish ⟨⟩
  · rintro finish ⟨⟩
  · rintro finish ⟨⟩
    exact ⟨⟨5, 11, 1, [⟨sideBid, 100, 1⟩], 0⟩, [], [.snapshotLevel ⟨1, sideBid, 100, 1⟩],
      rfl, rfl, by simp [NoBegin], rfl, by decide, rfl⟩

/-- The group at 11 ends behind the delta 12. -/
def lateCycle : List Decoded :=
  inOrder 0 0 [datagram .refdata 1 [.reference (.definition (definition 5))],
    delta 11 100 1, delta 12 101 2,
    datagram .snapshot 1 (snapshotGroup 5 1 11 [(sideBid, 100, 1)])]

end EdgeMulticast.Recorder
