import EdgeMulticast.Load.Landing

/-!
# The turns of a pass

What a pass may derive is what its scan finds neither held nor recorded, each object once.  What it
holds or has recorded at a turn was held or recorded when it began, or is of an object that it has
derived at a turn before.
-/

namespace EdgeMulticast.Load

open EdgeMulticast.Lib
open EdgeMulticast.Rows

variable {sink : RowSink} {config : Config} {json : LineCodec Entry}

/-! ## The order of the turns -/

theorem map_snd_ranked (taken : String → ℕ) (derivable : List (ℕ × String)) :
    (ranked taken derivable).map Prod.snd = derivable.map Prod.fst := by
  induction derivable generalizing taken with
  | nil => rfl
  | cons head rest ih =>
      obtain ⟨position, feed⟩ := head
      rw [ranked, List.map_cons, List.map_cons, ih]

/-- The turns are the positions of what is derivable, in another order. -/
theorem perm_takeTurns (derivable : List (ℕ × String)) :
    (takeTurns derivable).Perm (derivable.map Prod.fst) := by
  rw [takeTurns, ← map_snd_ranked fun _ ↦ 0]
  exact (List.perm_insertionSort _ _).map Prod.snd

namespace Loader

variable {l : Loader sink} {v : Visit} {index k : ℕ} {m : SegmentManifest}

theorem derivable_eq {candidates : List Candidate} : (l.scan config candidates).derivable =
    ((candidates.map fun c ↦ l.sight config c.published.scanned).zipIdx.filterMap fun (s, index) ↦
      s.derivableFeed.map (index, ·)) := rfl

theorem derivableFeed_eq_some {s : Sighting} {feed : String} :
    s.derivableFeed = some feed ↔ ∃ m, s = .derivable m ∧ m.feed = feed := by
  cases s <;> simp [Sighting.derivableFeed]

theorem sight_eq_derivable {read : ManifestRead} : l.sight config read = .derivable m ↔
    read = .found m ∧ m.site = config.site ∧ m.recorder = config.recorder ∧
      ¬l.Known (objectId m) := by
  cases read with
  | gone => simp [sight]
  | failed => simp [sight]
  | found m' =>
      rw [sight, Known, ← any_pending, Ledger.isLoaded]
      split
      next hhost =>
          refine iff_of_false Sighting.noConfusion ?_
          rintro ⟨heq, hsite, hrecorder, -⟩
          cases heq
          exact hhost.elim (· hsite) (· hrecorder)
      next hhost =>
          obtain ⟨hsite, hrecorder⟩ := not_or.mp hhost
          split
          next hloaded =>
              refine iff_of_false Sighting.noConfusion ?_
              rintro ⟨heq, -, -, hknown⟩
              cases heq
              exact hknown (.inr (of_decide_eq_true hloaded))
          next hloaded =>
              split
              next hheld =>
                  refine iff_of_false Sighting.noConfusion ?_
                  rintro ⟨heq, -, -, hknown⟩
                  cases heq
                  exact hknown (.inl hheld)
              next hheld =>
                  constructor
                  · intro heq
                    cases heq
                    refine ⟨rfl, not_not.mp hsite, not_not.mp hrecorder, ?_⟩
                    rintro (h | h)
                    · exact hheld h
                    · exact hloaded (decide_eq_true h)
                  · rintro ⟨heq, -⟩
                    cases heq
                    rfl

/-- What a pass takes turns with: the objects of its host, read by the scan, that are neither held nor
recorded. -/
theorem mem_turns : index ∈ l.turns config v ↔ ∃ c m,
    (config.candidates v.directory)[index]? = some c ∧ c.published.scanned = .found m ∧
      m.site = config.site ∧ m.recorder = config.recorder ∧ ¬l.Known (objectId m) := by
  rw [turns, (perm_takeTurns _).mem_iff, derivable_eq]
  constructor
  · intro h
    obtain ⟨⟨position, feed⟩, hmem, rfl⟩ := List.mem_map.mp h
    obtain ⟨⟨s, index⟩, hs, heq⟩ := List.mem_filterMap.mp hmem
    obtain ⟨feed', hfeed, heq⟩ := Option.map_eq_some_iff.mp heq
    cases heq
    obtain ⟨m, rfl, -⟩ := derivableFeed_eq_some.mp hfeed
    rw [List.mem_zipIdx_iff_getElem?, List.getElem?_map] at hs
    obtain ⟨c, hc, hsight⟩ := Option.map_eq_some_iff.mp hs
    exact ⟨c, m, hc, sight_eq_derivable.mp hsight⟩
  · rintro ⟨c, m, hc, hsight⟩
    refine List.mem_map.mpr ⟨(index, m.feed), List.mem_filterMap.mpr ⟨(.derivable m, index), ?_, rfl⟩,
      rfl⟩
    rw [List.mem_zipIdx_iff_getElem?, List.getElem?_map, hc, Option.map_some,
      sight_eq_derivable.mpr hsight]

/-- The positions of what is derivable are those of the scan, in its order. -/
theorem derivable_sublist (l : Loader sink) (candidates : List Candidate) :
    List.Sublist ((l.scan config candidates).derivable.map Prod.fst)
      (List.range' 0 candidates.length) := by
  rw [derivable_eq]
  have hindices : List.range' 0 candidates.length =
      ((candidates.map fun c ↦ l.sight config c.published.scanned).zipIdx.map Prod.snd) := by
    rw [List.zipIdx_map_snd, List.length_map]
  rw [hindices]
  generalize (candidates.map fun c ↦ l.sight config c.published.scanned).zipIdx = indexed
  induction indexed with
  | nil => exact List.Sublist.refl _
  | cons head indexed ih =>
      obtain ⟨s, index⟩ := head
      rw [List.filterMap_cons]
      dsimp only
      cases s.derivableFeed with
      | none => exact ih.cons _
      | some feed => exact ih.cons_cons _

theorem nodup_turns : (l.turns config v).Nodup := by
  rw [turns, (perm_takeTurns _).nodup_iff]
  exact List.Nodup.sublist (l.derivable_sublist _) List.nodup_range'

end Loader

/-! ## One turn -/

namespace Loader

/-- An object that the sink is about to be given is pending behind its last one. -/
def holding (l : Loader sink) (m : SegmentManifest) (derived : Derived) : Loader sink :=
  { l with pending := l.pending ++ [⟨objectId m, derived.trailer, m.feed⟩] }

/-- What loading an object does: nothing to what is held or recorded, or a call of the sink with its
rows, which has failed or has landed some of what the sink held. -/
theorem load_cases (config : Config) (json : LineCodec Entry) (v : Visit) (l : Loader sink)
    (p : Published) (m : SegmentManifest) :
    (∃ kind, l.load config json v p m = (l, .error ⟨kind, false⟩)) ∨
    ∃ dropScope dgs, p.archive = .ok (dropScope, dgs) ∧
      ((∃ kind s, sink.writeBatch (batch m (derive dgs (l.input m dropScope))) v.nowNs l.sink =
          (.error kind, s) ∧
        l.load config json v p m = ({ l with sink := s }, .error ⟨kind, true⟩)) ∨
      ∃ landed s recorded, sink.writeBatch (batch m (derive dgs (l.input m dropScope))) v.nowNs l.sink =
          (.ok landed, s) ∧
        l.load config json v p m =
          ((recordLanded json v.append
            { l.holding m (derive dgs (l.input m dropScope)) with sink := s } landed).1,
            .ok recorded)) := by
  rw [Loader.load.eq_def]
  cases p.archive with
  | error kind => exact .inl ⟨kind, rfl⟩
  | ok archive =>
      obtain ⟨dropScope, dgs⟩ := archive
      dsimp only
      split
      next => exact .inl ⟨.replay, rfl⟩
      next =>
          refine .inr ⟨dropScope, dgs, rfl, ?_⟩
          generalize sink.writeBatch (batch m (derive dgs (l.input m dropScope))) v.nowNs l.sink = call
          obtain ⟨answer, s⟩ := call
          cases answer with
          | error kind => exact .inl ⟨kind, s, rfl, rfl⟩
          | ok landed => exact .inr ⟨landed, s, _, rfl, rfl⟩

end Loader

/-- A pass stops before an object: a signal is there, or it has derived as many as it may. -/
def Going.Cut (config : Config) (v : Visit) (g : Going sink) (index : ℕ) : Prop :=
  v.stop index = true ∨ config.maxObjects ≠ 0 ∧ config.maxObjects ≤ g.pass.derived

namespace Going

variable {v : Visit} {g : Going sink} {c : Candidate} {index : ℕ}

/-- What deriving an object does: nothing to what is held or recorded, or a call of the sink with its
rows, which is lost with everything it held or which has landed some of it. -/
theorem derive_cases (config : Config) (json : LineCodec Entry) (v : Visit) (g : Going sink)
    (c : Candidate) :
    (g.derive config json v c).loader = g.loader ∧ (g.derive config json v c).ended = g.ended ∨
    ∃ m dropScope dgs, c.published.reread = .found m ∧ c.published.archive = .ok (dropScope, dgs) ∧
      ((∃ kind s, sink.writeBatch (Loader.batch m (Rows.derive dgs (g.loader.input m dropScope)))
          v.nowNs g.loader.sink = (.error kind, s) ∧
        (g.derive config json v c).loader = { g.loader with sink := s, pending := [] } ∧
        (g.loader.load config json v c.published m).2 = .error ⟨kind, true⟩) ∨
      ∃ landed s, sink.writeBatch (Loader.batch m (Rows.derive dgs (g.loader.input m dropScope)))
          v.nowNs g.loader.sink = (.ok landed, s) ∧
        (g.derive config json v c).loader = (Loader.recordLanded json v.append
          { g.loader.holding m (Rows.derive dgs (g.loader.input m dropScope)) with sink := s }
          landed).1 ∧
        (g.derive config json v c).ended = g.ended) := by
  rw [Going.derive.eq_def]
  cases hreread : c.published.reread with
  | gone => exact .inl ⟨rfl, rfl⟩
  | failed => exact .inl ⟨rfl, rfl⟩
  | found m =>
      dsimp only
      rcases g.loader.load_cases config json v c.published m with
        ⟨kind, h⟩ | ⟨dropScope, dgs, harchive, ⟨kind, s, hcall, h⟩ | ⟨landed, s, recorded, hcall, h⟩⟩
      · rw [h]
        exact .inl ⟨rfl, rfl⟩
      · refine .inr ⟨m, dropScope, dgs, rfl, harchive, .inl ⟨kind, s, hcall, ?_, congrArg Prod.snd h⟩⟩
        rw [h]
        rfl
      · rw [h]
        exact .inr ⟨m, dropScope, dgs, rfl, harchive, .inr ⟨landed, s, hcall, rfl, rfl⟩⟩

/-- What a turn does: nothing, or what deriving its candidate does. -/
theorem turn_cases (config : Config) (json : LineCodec Entry) (v : Visit)
    (candidates : List Candidate) (g : Going sink) (index : ℕ) :
    (g.turn config json v candidates index).loader = g.loader ∧
      (g.ended = true ∨ g.Cut config v index ∨ candidates[index]? = none) ∨
    g.ended = false ∧ ¬g.Cut config v index ∧ ∃ c, candidates[index]? = some c ∧
      g.turn config json v candidates index = g.derive config json v c := by
  rw [Going.turn.eq_def]
  cases hover : g.ended with
  | true => exact .inl ⟨rfl, .inl rfl⟩
  | false =>
      rw [if_neg Bool.false_ne_true]
      split
      next hcut => exact .inl ⟨rfl, .inr (.inl hcut)⟩
      next hcut =>
          cases candidates[index]? with
          | none => exact .inl ⟨rfl, .inr (.inr rfl)⟩
          | some c => exact .inr ⟨rfl, hcut, c, rfl, rfl⟩

end Going

/-! ## What a turn keeps -/

namespace Loader

variable {l : Loader sink} {m : SegmentManifest} {derived : Derived} {s : sink.State}
  {initial landed : List ObjectId} {nowNs : ℕ} {append : ObjectId → Append × ℕ}

theorem heldIds_holding : (l.holding m derived).heldIds = l.heldIds ++ [objectId m] :=
  List.map_append

theorem Sorted.holding (h : l.Sorted json) (hm : ¬l.Known (objectId m)) (derived : Derived) :
    (l.holding m derived).Sorted json := by
  obtain ⟨hheld, hloaded⟩ := not_or.mp hm
  constructor
  · exact h.backed
  · rw [heldIds_holding]
    exact List.Nodup.append h.nodup (List.nodup_singleton _) (List.disjoint_singleton.mpr hheld)
  · intro id hid
    rw [heldIds_holding] at hid
    rcases List.mem_append.mp hid with hid | hid
    · exact h.apart id hid
    · rwa [List.mem_singleton.mp hid]

/-- An object handed to the sink in a call that has landed some of what it then held. -/
theorem Kept.accepted (h : l.Kept initial)
    (hcall : sink.writeBatch (batch m derived) nowNs l.sink = (.ok landed, s)) :
    (Loader.recordLanded json append { l.holding m derived with sink := s } landed).1.Kept initial := by
  have hlands := sink.lands_writeBatch (batch m derived) nowNs l.sink
  rw [hcall] at hlands
  refine Kept.recordLanded (l := l.holding m derived) ?_ h.landed hlands
  rw [heldIds_holding]
  exact h.held.append_right _

/-- An object handed to the sink in a call that has failed. -/
theorem Kept.refused {kind : ErrorKind} (h : l.Kept initial)
    (hcall : sink.writeBatch (batch m derived) nowNs l.sink = (.error kind, s)) :
    Kept initial { l with sink := s, pending := [] } := by
  have hlands := sink.lands_writeBatch (batch m derived) nowNs l.sink
  rw [hcall] at hlands
  exact Kept.lost h.landed hlands

theorem Sorted.withSink (h : l.Sorted json) (s : sink.State) : Sorted json { l with sink := s } :=
  ⟨h.backed, h.nodup, h.apart⟩

theorem Sorted.lost (h : l.Sorted json) : Sorted json { l with sink := s, pending := [] } :=
  ⟨h.backed, List.nodup_nil, fun _ hid ↦ absurd hid List.not_mem_nil⟩

end Loader

end EdgeMulticast.Load
