import EdgeMulticast.Load.Turns

/-!
# The account of the objects

A loader's account of an object is never ahead of its rows, and never stuck behind them: what is
pending is what the sink holds, what is recorded has landed, and what is lost or left without an entry
is derived again.  It is so over passes and restarts, as long as what a pass meets is steady: the
manifests that it reads are of different objects and do not change, those that are there can be read
and are where their feed's are looked for, and an append that fails leaves nothing behind.
-/

namespace EdgeMulticast.Load

open EdgeMulticast.Lib
open EdgeMulticast.Rows

/-! ## What a pass is to meet -/

/-- A manifest is there, and an object beside it, while the pass loads. -/
def Published.Stands (p : Published) (m : SegmentManifest) : Prop :=
  p.manifest = some m ∧ (p.compressed ≠ .nothing ∨ p.plain ≠ .nothing)

/-- The manifests under one name of the objects directory, whether they are looked at or not. -/
def Listed.contents : Listed → List Published
  | .manifest p => [p]
  | .directory _ (some found) => found.filterMap Found.published
  | .directory _ none | .failed | .other | .untyped => []

/-- Whether what is under a name is looked at. -/
def Config.walks (config : Config) : Listed → Bool
  | .manifest _ => config.feeds = none
  | .directory name _ => config.scans name
  | .failed | .other | .untyped => true

/-- A pass meets what is steady. -/
structure Visit.Steady {sink : RowSink} (config : Config) (json : LineCodec Entry) (v : Visit)
    (l : Loader sink) : Prop where
  /-- An append that fails leaves nothing behind. -/
  clean (id : ObjectId) : (v.append id).1.Clean
  /-- No two manifests that are read are of one object. -/
  distinct : (config.candidates v.directory).Pairwise fun c c' ↦ ∀ m m',
    c.published.scanned = .found m → c'.published.scanned = .found m' → objectId m ≠ objectId m'
  /-- A manifest that is there when it is loaded is as it was when it was scanned. -/
  unchanged : ∀ c ∈ config.candidates v.directory, ∀ m m', c.published.scanned = .found m →
    c.published.manifest = some m' → m' = m
  /-- In a pass that has seen the whole directory, a manifest that is there was read. -/
  legible : config.enumeration v.directory = .complete → ∀ listed ∈ v.directory.getD [],
    config.walks listed → ∀ p ∈ listed.contents, ∀ m, p.Stands m →
      p.object ≠ none ∧ p.scanned = .found m
  /-- What is not looked at is not known under a feed that is. -/
  placed : config.enumeration v.directory = .complete → ∀ listed ∈ v.directory.getD [],
    ¬config.walks listed → ∀ p ∈ listed.contents, ∀ m, p.Stands m → ∀ feed,
      l.Under json (objectId m) feed → ∀ feeds, config.feeds = some feeds → feed ∉ feeds

namespace Loader

variable {sink : RowSink} (config : Config) (json : LineCodec Entry) (v : Visit) (l : Loader sink)

/-- A pass that has come to one of its turns. -/
def atTurn (k : ℕ) : Going sink := l.after config json v ((l.turns config v).take k)

/-- A pass that has come to its end but for the compaction. -/
def posted : Loader sink := ((l.after config json v (l.turns config v)).loader.post json v).1

/-- At one of its turns a pass comes to load an object. -/
def Derives (k : ℕ) (p : Published) (m : SegmentManifest) : Prop :=
  ∃ index c, (l.turns config v)[k]? = some index ∧
    (config.candidates v.directory)[index]? = some c ∧ c.published = p ∧ p.reread = .found m ∧
    (l.atTurn config json v k).ended = false ∧ ¬(l.atTurn config json v k).Cut config v index

/-- The load of an object that a pass comes to at one of its turns is lost with all the sink held. -/
def Loses (k : ℕ) (p : Published) (m : SegmentManifest) : Prop :=
  l.Derives config json v k p m ∧
    ∃ kind, ((l.atTurn config json v k).loader.load config json v p m).2 = .error ⟨kind, true⟩

/-- A pass that has come to one of its turns has derived an object. -/
def HasDerived (k : ℕ) (id : ObjectId) : Prop :=
  ∃ j < k, ∃ p m, l.Derives config json v j p m ∧ objectId m = id

/-- At one of its turns a pass stops loading. -/
def Ends (k : ℕ) : Prop :=
  (∃ index, (l.turns config v)[k]? = some index ∧ (l.atTurn config json v k).Cut config v index) ∨
    ∃ p m, l.Loses config json v k p m

variable {config json v l} {k index : ℕ} {p : Published} {m : SegmentManifest} {id : ObjectId}

theorem atTurn_succ (h : (l.turns config v)[k]? = some index) :
    l.atTurn config json v (k + 1) =
      (l.atTurn config json v k).turn config json v (config.candidates v.directory) index := by
  rw [atTurn, List.take_add_one, h, Option.toList_some, after, run_snoc]
  rfl

theorem atTurn_succ_of_none (h : (l.turns config v)[k]? = none) :
    l.atTurn config json v (k + 1) = l.atTurn config json v k := by
  rw [atTurn, List.take_add_one, h, Option.toList_none, List.append_nil]
  rfl

theorem atTurn_length : l.atTurn config json v (l.turns config v).length =
    l.after config json v (l.turns config v) := by
  rw [atTurn, List.take_length]

/-- The turns of a pass, one after the other. -/
theorem atTurn_induction (config : Config) (json : LineCodec Entry) (v : Visit) (l : Loader sink)
    {P : ℕ → Prop} (init : P 0)
    (next : ∀ k index, (l.turns config v)[k]? = some index → P k → P (k + 1))
    (idle : ∀ k, l.atTurn config json v (k + 1) = l.atTurn config json v k → P k → P (k + 1))
    (k : ℕ) : P k := by
  induction k with
  | zero => exact init
  | succ k ih =>
      cases h : (l.turns config v)[k]? with
      | none => exact idle k (atTurn_succ_of_none h) ih
      | some index => exact next k index h ih

/-- What a turn does to what is held and recorded. -/
theorem step_cases (h : (l.turns config v)[k]? = some index) :
    (l.atTurn config json v (k + 1)).loader = (l.atTurn config json v k).loader ∨
    ∃ p m dropScope dgs, l.Derives config json v k p m ∧ p.archive = .ok (dropScope, dgs) ∧
      ((∃ kind s, sink.writeBatch (batch m (derive dgs ((l.atTurn config json v k).loader.input m
          dropScope))) v.nowNs (l.atTurn config json v k).loader.sink = (.error kind, s) ∧
        (l.atTurn config json v (k + 1)).loader =
          { (l.atTurn config json v k).loader with sink := s, pending := [] }) ∨
      ∃ landed s, sink.writeBatch (batch m (derive dgs ((l.atTurn config json v k).loader.input m
          dropScope))) v.nowNs (l.atTurn config json v k).loader.sink = (.ok landed, s) ∧
        (l.atTurn config json v (k + 1)).loader = (recordLanded json v.append
          { (l.atTurn config json v k).loader.holding m (derive dgs
              ((l.atTurn config json v k).loader.input m dropScope)) with sink := s } landed).1) := by
  rw [atTurn_succ h]
  rcases (l.atTurn config json v k).turn_cases config json v (config.candidates v.directory) index
    with ⟨hsame, -⟩ | ⟨hover, hcut, c, hc, hturn⟩
  · exact .inl hsame
  · rw [hturn]
    rcases (l.atTurn config json v k).derive_cases config json v c with
      ⟨hsame, -⟩ | ⟨m, dropScope, dgs, hreread, harchive, hcall⟩
    · exact .inl hsame
    · refine .inr ⟨c.published, m, dropScope, dgs, ⟨index, c, h, hc, rfl, hreread, hover, hcut⟩,
        harchive, ?_⟩
      rcases hcall with ⟨kind, s, hcall, hloader, -⟩ | ⟨landed, s, hcall, hloader, -⟩
      · exact .inl ⟨kind, s, hcall, hloader⟩
      · exact .inr ⟨landed, s, hcall, hloader⟩

/-! ## The objects that a pass derives -/

theorem reread_eq_found (h : p.reread = .found m) : p.manifest = some m := by
  rw [Published.reread] at h
  split at h
  next =>
      cases hm : p.manifest with
      | none =>
          rw [hm] at h
          cases h
      | some m' =>
          rw [hm] at h
          cases h
          rfl
  next =>
      split at h <;> cases h

/-- An object that a pass derives is one that its scan has read, and found neither held nor
recorded. -/
theorem Derives.scanned (h : l.Derives config json v k p m) (hsteady : v.Steady config json l) :
    ∃ index c, (l.turns config v)[k]? = some index ∧
      (config.candidates v.directory)[index]? = some c ∧ c.published.scanned = .found m ∧
      ¬l.Known (objectId m) := by
  obtain ⟨index, c, hturn, hc, rfl, hreread, -, -⟩ := h
  obtain ⟨c', m', hc', hscanned, -, -, hknown⟩ := mem_turns.mp (List.mem_of_getElem? hturn)
  cases hc.symm.trans hc'
  have hm := hsteady.unchanged c (List.mem_of_getElem? hc) m' m hscanned (reread_eq_found hreread)
  subst hm
  exact ⟨index, c, hturn, hc, hscanned, hknown⟩

/-- No two turns derive one object. -/
theorem Derives.distinct {j : ℕ} {p' : Published} {m' : SegmentManifest} (hjk : j ≠ k)
    (hsteady : v.Steady config json l) (h : l.Derives config json v k p m)
    (h' : l.Derives config json v j p' m') : objectId m' ≠ objectId m := by
  obtain ⟨index, c, hturn, hc, hscanned, -⟩ := h.scanned hsteady
  obtain ⟨index', c', hturn', hc', hscanned', -⟩ := h'.scanned hsteady
  obtain ⟨hk, hturn⟩ := List.getElem?_eq_some_iff.mp hturn
  obtain ⟨hj, hturn'⟩ := List.getElem?_eq_some_iff.mp hturn'
  have hindex : index' ≠ index := by
    rintro rfl
    exact hjk ((nodup_turns.getElem_inj_iff).mp (hturn'.trans hturn.symm))
  obtain ⟨hi, hc⟩ := List.getElem?_eq_some_iff.mp hc
  obtain ⟨hi', hc'⟩ := List.getElem?_eq_some_iff.mp hc'
  rcases Nat.lt_or_gt_of_ne hindex with hlt | hgt
  · have hpair := List.pairwise_iff_getElem.mp hsteady.distinct index' index hi' hi hlt
    rw [hc, hc'] at hpair
    exact hpair m' m hscanned' hscanned
  · have hpair := List.pairwise_iff_getElem.mp hsteady.distinct index index' hi hi' hgt
    rw [hc, hc'] at hpair
    exact (hpair m m' hscanned hscanned').symm

/-- A turn that comes to an object derives it. -/
theorem Derives.turn (h : l.Derives config json v k p m) : ∃ c, c.published = p ∧
    l.atTurn config json v (k + 1) = (l.atTurn config json v k).derive config json v c := by
  obtain ⟨index, c, hturn, hc, hp, -, hover, hcut⟩ := h
  refine ⟨c, hp, ?_⟩
  rw [atTurn_succ hturn]
  rcases (l.atTurn config json v k).turn_cases config json v (config.candidates v.directory) index
    with ⟨-, hquiet⟩ | ⟨-, -, c', hc', hturn⟩
  · rcases hquiet with hover' | hcut' | hnone
    · rw [hover] at hover'
      cases hover'
    · exact absurd hcut' hcut
    · rw [hc] at hnone
      cases hnone
  · cases hc.symm.trans hc'
    exact hturn

/-- Behind a load that is lost nothing is pending, and the ledger is as it was. -/
theorem Loses.next (h : l.Loses config json v k p m) : ∃ s,
    (l.atTurn config json v (k + 1)).loader =
      { (l.atTurn config json v k).loader with sink := s, pending := [] } := by
  obtain ⟨hderives, kind, hload⟩ := h
  obtain ⟨c, rfl, hturn⟩ := hderives.turn
  have hreread : c.published.reread = .found m := by
    obtain ⟨_, _, _, _, _, hreread, _⟩ := hderives
    exact hreread
  rw [hturn, Going.derive.eq_def, hreread]
  dsimp only
  rcases (l.atTurn config json v k).loader.load_cases config json v c.published m with
    ⟨kind', h⟩ | ⟨dropScope, dgs, -, ⟨kind', s, -, h⟩ | ⟨landed, s, recorded, -, h⟩⟩
  · rw [h] at hload
    cases hload
  · rw [h]
    exact ⟨s, rfl⟩
  · rw [h] at hload
    cases hload

/-! ## What a pass keeps -/

variable {initial : List ObjectId}

/-- What holds of a pass at each of its turns. -/
structure Underway (initial : List ObjectId) (config : Config) (json : LineCodec Entry) (v : Visit)
    (l : Loader sink) (k : ℕ) : Prop where
  sorted : (l.atTurn config json v k).loader.Sorted json
  kept : (l.atTurn config json v k).loader.Kept initial
  /-- What is held or recorded was so when the pass began, or has been derived. -/
  known (id : ObjectId) : (l.atTurn config json v k).loader.Known id →
    l.Known id ∨ l.HasDerived config json v k id
  under (id : ObjectId) (feed : String) : (l.atTurn config json v k).loader.Under json id feed →
    l.Under json id feed ∨ l.HasDerived config json v k id

theorem HasDerived.succ (h : l.HasDerived config json v k id) :
    l.HasDerived config json v (k + 1) id := by
  obtain ⟨j, hj, h⟩ := h
  exact ⟨j, hj.trans k.lt_succ_self, h⟩

theorem Derives.hasDerived (h : l.Derives config json v k p m) :
    l.HasDerived config json v (k + 1) (objectId m) := ⟨k, k.lt_succ_self, p, m, h, rfl⟩

/-- What a pass comes to derive is neither held nor recorded. -/
theorem Underway.fresh (h : Underway initial config json v l k) (hsteady : v.Steady config json l)
    (hderives : l.Derives config json v k p m) :
    ¬(l.atTurn config json v k).loader.Known (objectId m) := by
  intro hknown
  obtain ⟨-, -, -, -, -, hfresh⟩ := hderives.scanned hsteady
  rcases h.known _ hknown with hknown | ⟨j, hj, p', m', hderives', heq⟩
  · exact hfresh hknown
  · exact hderives.distinct hj.ne hsteady hderives' heq

/-- What is known or under a feed once an object is pending as well was so before, or is that object. -/
theorem known_holding {l : Loader sink} {derived : Derived} {s : sink.State}
    (h : Known { l.holding m derived with sink := s } id) : l.Known id ∨ objectId m = id := by
  rcases h with h | h
  · have h := (congrArg (id ∈ ·) (heldIds_holding (l := l))).mp h
    rcases List.mem_append.mp h with h | h
    · exact .inl (.inl h)
    · exact .inr (List.mem_singleton.mp h).symm
  · exact .inl (.inr h)

theorem under_holding {l : Loader sink} {derived : Derived} {s : sink.State} {feed : String}
    (h : Under json { l.holding m derived with sink := s } id feed) : l.Under json id feed ∨ objectId m = id := by
  rcases h with ⟨q, hq, hid, hfeed⟩ | h
  · rcases List.mem_append.mp hq with hq | hq
    · exact .inl (.inl ⟨q, hq, hid, hfeed⟩)
    · cases List.mem_singleton.mp hq
      exact .inr hid
  · exact .inl (.inr h)

theorem Underway.same (h : Underway initial config json v l k)
    (heq : (l.atTurn config json v (k + 1)).loader = (l.atTurn config json v k).loader) :
    Underway initial config json v l (k + 1) := by
  constructor
  · exact heq ▸ h.sorted
  · exact heq ▸ h.kept
  · intro id hknown
    exact (h.known id (heq ▸ hknown)).imp_right HasDerived.succ
  · intro id feed hunder
    exact (h.under id feed (heq ▸ hunder)).imp_right HasDerived.succ

/-- A turn keeps what holds of a pass. -/
theorem Underway.next (h : Underway initial config json v l k) (hsteady : v.Steady config json l)
    (hturn : (l.turns config v)[k]? = some index) :
    Underway initial config json v l (k + 1) := by
  rcases step_cases hturn with
    hsame | ⟨p, m, dropScope, dgs, hderives, -, ⟨kind, s, hcall, heq⟩ | ⟨landed, s, hcall, heq⟩⟩
  · exact h.same hsame
  · -- everything held is lost, and nothing is recorded
    constructor
    · exact heq ▸ h.sorted.lost
    · exact heq ▸ h.kept.refused hcall
    · intro id hknown
      rw [heq] at hknown
      rcases hknown with hknown | hknown
      · exact absurd hknown List.not_mem_nil
      · exact (h.known id (.inr hknown)).imp_right HasDerived.succ
    · intro id feed hunder
      rw [heq] at hunder
      rcases hunder with ⟨q, hq, -⟩ | hunder
      · cases hq
      · exact (h.under id feed (.inr hunder)).imp_right HasDerived.succ
  · have hsorted := (h.sorted.holding (h.fresh hsteady hderives)
      (derive dgs ((l.atTurn config json v k).loader.input m dropScope))).withSink s
    constructor
    · exact heq ▸ hsorted.recordLanded hsteady.clean
    · exact heq ▸ h.kept.accepted hcall
    · intro id hknown
      rw [heq] at hknown
      rcases known_holding (known_recordLanded hknown) with hknown | rfl
      · exact (h.known id hknown).imp_right HasDerived.succ
      · exact .inr hderives.hasDerived
    · intro id feed hunder
      rw [heq] at hunder
      rcases under_holding (under_recordLanded hsorted hsteady.clean hunder) with hunder | rfl
      · exact (h.under id feed hunder).imp_right HasDerived.succ
      · exact .inr hderives.hasDerived

theorem underway (hsorted : l.Sorted json) (hkept : l.Kept initial)
    (hsteady : v.Steady config json l) (k : ℕ) : Underway initial config json v l k := by
  induction k using atTurn_induction config json v l with
  | init => exact ⟨hsorted, hkept, fun _ h ↦ .inl h, fun _ _ h ↦ .inl h⟩
  | idle k heq ih => exact ih.same (congrArg Going.loader heq)
  | next k index hturn ih => exact ih.next hsteady hturn

/-! ## The end of a pass -/

section Post

variable {l : Loader sink}

theorem post_cases (json : LineCodec Entry) (v : Visit) (l : Loader sink) :
    (∃ kind s, sink.postIfDue v.nowNs l.sink = (.error kind, s) ∧
      l.post json v = ({ l with sink := s, pending := [] }, .error kind)) ∨
    ∃ landed s recorded, sink.postIfDue v.nowNs l.sink = (.ok landed, s) ∧
      l.post json v = ((recordLanded json v.append { l with sink := s } landed).1, .ok recorded) := by
  rw [post]
  generalize sink.postIfDue v.nowNs l.sink = call
  obtain ⟨answer, s⟩ := call
  cases answer with
  | error kind => exact .inl ⟨kind, s, rfl, rfl⟩
  | ok landed => exact .inr ⟨landed, s, _, rfl, rfl⟩

theorem Sorted.post (h : l.Sorted json) (hclean : ∀ id, (v.append id).1.Clean) :
    (l.post json v).1.Sorted json := by
  rcases l.post_cases json v with ⟨kind, s, -, heq⟩ | ⟨landed, s, recorded, -, heq⟩
  · exact heq ▸ h.lost
  · exact heq ▸ (h.withSink s).recordLanded hclean

theorem Kept.post (h : l.Kept initial) : (l.post json v).1.Kept initial := by
  have hlands := sink.lands_postIfDue v.nowNs l.sink
  rcases l.post_cases json v with ⟨kind, s, hcall, heq⟩ | ⟨landed, s, recorded, hcall, heq⟩
  · rw [hcall] at hlands
    exact heq ▸ Kept.lost h.landed hlands
  · rw [hcall] at hlands
    exact heq ▸ Kept.recordLanded h.held h.landed hlands

theorem known_post (h : (l.post json v).1.Known id) : l.Known id := by
  rcases l.post_cases json v with ⟨kind, s, -, heq⟩ | ⟨landed, s, recorded, -, heq⟩
  · rw [heq] at h
    rcases h with h | h
    · cases h
    · exact .inr h
  · rw [heq] at h
    exact known_recordLanded (l := { l with sink := s }) h

theorem under_post {feed : String} (hsorted : l.Sorted json)
    (hclean : ∀ id, (v.append id).1.Clean) (h : (l.post json v).1.Under json id feed) :
    l.Under json id feed := by
  rcases l.post_cases json v with ⟨kind, s, -, heq⟩ | ⟨landed, s, recorded, -, heq⟩
  · rw [heq] at h
    rcases h with ⟨q, hq, -⟩ | h
    · cases hq
    · exact .inr h
  · rw [heq] at h
    exact under_recordLanded (l := { l with sink := s }) (hsorted.withSink s) hclean h

variable {present : List ObjectId}

theorem compacted_cases (config : Config) (json : LineCodec Entry) (v : Visit)
    (present : List ObjectId) (l : Loader sink) :
    (l.compacted config json v present).1 = l ∨
      config.enumeration v.directory = .complete ∧ (l.compacted config json v present).1 =
        { l with ledger := (l.ledger.compact json present config.feeds v.compaction).1 } := by
  rw [compacted]
  cases config.enumeration v.directory with
  | incomplete => exact .inl rfl
  | complete => exact .inr ⟨rfl, rfl⟩

theorem Sorted.compacted (h : l.Sorted json) :
    (l.compacted config json v present).1.Sorted json := by
  rcases l.compacted_cases config json v present with heq | ⟨-, heq⟩
  · rwa [heq]
  · rw [heq]
    exact ⟨h.backed.compact, h.nodup, fun id hid hloaded ↦
      h.apart id hid (Ledger.mem_loaded_of_compact h.backed hloaded)⟩

theorem Kept.compacted (h : l.Kept initial) (hsorted : l.Sorted json) :
    (l.compacted config json v present).1.Kept initial := by
  rcases l.compacted_cases config json v present with heq | ⟨-, heq⟩
  · rwa [heq]
  · rw [heq]
    exact ⟨h.held, fun id hid ↦ h.landed id (Ledger.mem_loaded_of_compact hsorted.backed hid)⟩

theorem known_compacted (hsorted : l.Sorted json)
    (h : (l.compacted config json v present).1.Known id) : l.Known id := by
  rcases l.compacted_cases config json v present with heq | ⟨-, heq⟩
  · rwa [heq] at h
  · rw [heq] at h
    exact h.imp_right (Ledger.mem_loaded_of_compact hsorted.backed)

end Post

/-! ## What a compaction keeps -/

theorem mem_candidates {c : Candidate} : c ∈ config.candidates v.directory ↔
    ∃ listed ∈ v.directory.getD [], c ∈ config.manifests listed := by
  rw [Config.candidates, (List.perm_insertionSort _ _).mem_iff]
  cases v.directory with
  | none => simp
  | some listed => exact List.mem_flatMap

theorem exists_manifest {listed : Listed} (hwalks : config.walks listed)
    (hp : p ∈ listed.contents) (hobject : p.object ≠ none) :
    ∃ c ∈ config.manifests listed, c.published = p := by
  obtain ⟨object, hobject⟩ := Option.ne_none_iff_exists'.mp hobject
  cases listed with
  | manifest p' =>
      cases List.mem_singleton.mp hp
      refine ⟨⟨p, [] ++ [object]⟩, ?_, rfl⟩
      rw [Config.manifests, if_pos (of_decide_eq_true hwalks), Published.candidate, hobject]
      exact List.mem_singleton_self _
  | directory name listing =>
      cases listing with
      | none => cases hp
      | some found =>
          refine ⟨⟨p, [name] ++ [object]⟩, ?_, rfl⟩
          rw [Config.manifests, if_pos (show config.scans name = true from hwalks)]
          refine List.mem_filterMap.mpr ⟨p, hp, ?_⟩
          rw [Published.candidate, hobject, Option.map_some]
  | failed => cases hp
  | other => cases hp
  | untyped => cases hp

theorem mem_present {c : Candidate} (hc : c ∈ config.candidates v.directory)
    (hscanned : c.published.scanned = .found m) :
    objectId m ∈ (l.scan config (config.candidates v.directory)).present := by
  refine List.mem_map.mpr ⟨m, List.mem_filterMap.mpr ⟨_, List.mem_map_of_mem hc, ?_⟩, rfl⟩
  rw [hscanned, sight]
  split
  · rfl
  · split
    · rfl
    · split <;> rfl

/-- A manifest in the directory, wherever it is, stands with its object. -/
def Present (v : Visit) (id : ObjectId) : Prop :=
  ∃ listed ∈ v.directory.getD [], ∃ p ∈ listed.contents, ∃ m, p.Stands m ∧ objectId m = id

/-- An entry is of an object that a pass may not drop: it did not see the whole directory, or did not
look for the entry's feed, or the object is there. -/
def Spared (config : Config) (v : Visit) (e : Entry) : Prop :=
  config.enumeration v.directory = .incomplete ∨
    (∃ feeds, config.feeds = some feeds ∧ e.feed ∉ feeds) ∨ Present v e.id

/-- A pass does not drop what it may not. -/
theorem written_of_spared {e : Entry} (hsorted : l.Sorted json) (hkept : l.Kept initial)
    (hsteady : v.Steady config json l)
    (he : e ∈ (l.posted config json v).ledger.written json) (hspared : Spared config v e) :
    e ∈ (l.runOnce config json v).1.ledger.written json := by
  have hlast := underway hsorted hkept hsteady (l.turns config v).length
  change e ∈ ((l.posted config json v).compacted config json v
    (l.scan config (config.candidates v.directory)).present).1.ledger.written json
  rw [compacted]
  cases hcomplete : config.enumeration v.directory with
  | incomplete => exact he
  | complete =>
      refine Ledger.written_compact he ?_
      rw [Ledger.keeps, Bool.or_eq_true, Bool.or_eq_true]
      refine .inl ?_
      rcases hspared with hincomplete | ⟨feeds, hfeeds, hfeed⟩ | ⟨listed, hlisted, p, hp, m, hm, hid⟩
      · rw [hcomplete] at hincomplete
        cases hincomplete
      · rw [hfeeds]
        exact .inl (decide_eq_true hfeed)
      · by_cases hwalks : config.walks listed
        · obtain ⟨hobject, hscanned⟩ := hsteady.legible hcomplete listed hlisted hwalks p hp m hm
          obtain ⟨c, hc, rfl⟩ := exists_manifest hwalks hp hobject
          refine .inr (decide_eq_true ?_)
          rw [← hid]
          exact mem_present (mem_candidates.mpr ⟨listed, hlisted, hc⟩) hscanned
        · have hunder : (l.posted config json v).Under json e.id e.feed := .inr ⟨e, he, rfl, rfl⟩
          rw [posted, ← atTurn_length] at hunder
          rcases hlast.under _ _ (under_post hlast.sorted hsteady.clean hunder) with
            hunder | ⟨j, -, p', m', hderives, hid'⟩
          · -- it was known when the pass began, under a feed that is not looked for
            refine .inl ?_
            rw [← hid] at hunder
            have hplaced := hsteady.placed hcomplete listed hlisted hwalks p hp m hm e.feed hunder
            cases hfeeds : config.feeds with
            | none =>
                refine absurd ?_ hwalks
                cases listed <;> simp [Config.walks, Config.scans, hfeeds]
            | some feeds => exact decide_eq_true (hplaced feeds hfeeds)
          · -- the pass has derived it, and seen it for that
            obtain ⟨index, c, -, hc, hscanned, -⟩ := hderives.scanned hsteady
            refine .inr (decide_eq_true ?_)
            rw [← hid']
            exact mem_present (List.mem_of_getElem? hc) hscanned

/-! ## What is lost is derived again -/

/-- A pass that is over has stopped at one of its turns. -/
theorem exists_ends (hover : (l.atTurn config json v k).ended = true) :
    ∃ j < k, l.Ends config json v j := by
  induction k using atTurn_induction config json v l with
  | init => cases hover
  | idle k heq ih =>
      obtain ⟨j, hj, hends⟩ := ih (heq ▸ hover)
      exact ⟨j, hj.trans k.lt_succ_self, hends⟩
  | next k index hturn ih =>
      have hlater (h : (l.atTurn config json v k).ended = true) :
          ∃ j < k + 1, l.Ends config json v j := by
        obtain ⟨j, hj, hends⟩ := ih h
        exact ⟨j, hj.trans k.lt_succ_self, hends⟩
      rcases (l.atTurn config json v k).turn_cases config json v (config.candidates v.directory) index
        with ⟨-, h | hcut | hnone⟩ | ⟨hover', hcut, c, hc, heq⟩
      · exact hlater h
      · exact ⟨k, k.lt_succ_self, .inl ⟨index, hturn, hcut⟩⟩
      · obtain ⟨c, m, hc, -⟩ := mem_turns.mp (List.mem_of_getElem? hturn)
        rw [hnone] at hc
        cases hc
      · rw [atTurn_succ hturn, heq] at hover
        rcases (l.atTurn config json v k).derive_cases config json v c with
          ⟨-, hsame⟩ | ⟨m, dropScope, dgs, hreread, -, ⟨kind, s, -, -, hload⟩ | ⟨_, _, -, -, hsame⟩⟩
        · exact hlater (hsame ▸ hover)
        · exact ⟨k, k.lt_succ_self, .inr ⟨c.published, m,
            ⟨index, c, hturn, hc, rfl, hreread, hover', hcut⟩, kind, hload⟩⟩
        · exact hlater (hsame ▸ hover)

/-- An object of the host that can be read, and is neither held nor recorded, has a turn; the pass
derives it there unless it has stopped before. -/
theorem derives_again {c : Candidate} (hc : (config.candidates v.directory)[index]? = some c)
    (hscanned : c.published.scanned = .found m) (hreread : c.published.reread = .found m)
    (hsite : m.site = config.site) (hrecorder : m.recorder = config.recorder)
    (hknown : ¬l.Known (objectId m)) : ∃ k, (l.turns config v)[k]? = some index ∧
      (l.Derives config json v k c.published m ∨ ∃ j ≤ k, l.Ends config json v j) := by
  obtain ⟨k, hk, hturn⟩ := List.getElem_of_mem
    (mem_turns.mpr ⟨c, m, hc, hscanned, hsite, hrecorder, hknown⟩)
  have hturn : (l.turns config v)[k]? = some index := hturn ▸ List.getElem?_eq_getElem hk
  refine ⟨k, hturn, ?_⟩
  cases hover : (l.atTurn config json v k).ended with
  | true =>
      obtain ⟨j, hj, hends⟩ := exists_ends hover
      exact .inr ⟨j, hj.le, hends⟩
  | false =>
      by_cases hcut : (l.atTurn config json v k).Cut config v index
      · exact .inr ⟨k, le_rfl, .inl ⟨index, hturn, hcut⟩⟩
      · exact .inl ⟨index, c, hturn, hc, rfl, hreread, hover, hcut⟩

/-- What a load has lost is neither held nor recorded. -/
theorem Underway.lost (h : Underway initial config json v l k) (hsteady : v.Steady config json l)
    (hloses : l.Loses config json v k p m)
    (hid : id ∈ (l.atTurn config json v k).loader.heldIds ∨ id = objectId m) :
    ¬(l.atTurn config json v (k + 1)).loader.Known id := by
  obtain ⟨s, heq⟩ := hloses.next
  rw [heq]
  rintro (hknown | hknown)
  · cases hknown
  · rcases hid with hid | rfl
    · exact h.sorted.apart id hid hknown
    · exact h.fresh hsteady hloses.1 (.inr hknown)

/-- What has landed, and has no entry for that could not be written, is neither held nor recorded. -/
theorem not_known_of_landed {l : Loader sink} {append : ObjectId → Append × ℕ} {s : sink.State}
    {held landed landed' : List ObjectId} {left : ℕ} (hsorted : l.Sorted json)
    (hheld : l.heldIds.Perm held)
    (hlands : Lands held (sink.reported l.sink) (sink.holds s) (sink.reported s) (.ok landed))
    (hreported : sink.reported s = sink.reported l.sink ++ landed') (hid : id ∈ landed')
    (hfile : l.ledger.file ≠ .inMemory) (happend : (append id).1 = .failed left) :
    ¬(recordLanded json append { l with sink := s } landed).1.Known id := by
  obtain ⟨hperm, hreported'⟩ := hlands
  cases List.append_cancel_left (hreported.symm.trans hreported')
  have hmem : id ∈ l.heldIds :=
    hheld.symm.subset (hperm.subset (List.mem_append_left _ hid))
  exact not_known_recordLanded (l := { l with sink := s }) hsorted.nodup hid hfile happend
    (hsorted.apart id hmem)

/-- An object that a turn lands, and has no entry of, is neither held nor recorded. -/
theorem Underway.unwritten {landed : List ObjectId} {left : ℕ}
    (h : Underway initial config json v l k) (hsteady : v.Steady config json l)
    (hreported : sink.reported (l.atTurn config json v (k + 1)).loader.sink =
      sink.reported (l.atTurn config json v k).loader.sink ++ landed) (hid : id ∈ landed)
    (hfile : (l.atTurn config json v k).loader.ledger.file ≠ .inMemory)
    (happend : (v.append id).1 = .failed left) :
    ¬(l.atTurn config json v (k + 1)).loader.Known id := by
  have hsame {s : sink.State} (hs : sink.reported s =
      sink.reported (l.atTurn config json v k).loader.sink)
      (hreported : sink.reported s =
        sink.reported (l.atTurn config json v k).loader.sink ++ landed) : False := by
    rw [hs, List.self_eq_append_right] at hreported
    rw [hreported] at hid
    cases hid
  cases hturn : (l.turns config v)[k]? with
  | none =>
      rw [atTurn_succ_of_none hturn] at hreported
      exact (hsame rfl hreported).elim
  | some index =>
      rcases step_cases hturn with
        heq | ⟨p, m, dropScope, dgs, hderives, -, ⟨kind, s, hcall, heq⟩ | ⟨landed', s, hcall, heq⟩⟩
      · rw [heq] at hreported
        exact (hsame rfl hreported).elim
      · have hlands := sink.lands_writeBatch (batch m (derive dgs
          ((l.atTurn config json v k).loader.input m dropScope))) v.nowNs
          (l.atTurn config json v k).loader.sink
        rw [hcall] at hlands
        rw [heq] at hreported
        exact (hsame hlands.2 hreported).elim
      · have hlands := sink.lands_writeBatch (batch m (derive dgs
          ((l.atTurn config json v k).loader.input m dropScope))) v.nowNs
          (l.atTurn config json v k).loader.sink
        rw [hcall] at hlands
        rw [heq, sink_recordLanded] at hreported
        rw [heq]
        refine not_known_of_landed (h.sorted.holding (h.fresh hsteady hderives) _) ?_ hlands
          hreported hid hfile happend
        rw [heldIds_holding]
        exact h.kept.held.append_right _

/-- An object that the end of a pass lands, and has no entry of, is neither held nor recorded. -/
theorem unwritten_post {l : Loader sink} {landed : List ObjectId} {left : ℕ}
    (hsorted : l.Sorted json) (hkept : l.Kept initial)
    (hreported : sink.reported (l.post json v).1.sink = sink.reported l.sink ++ landed)
    (hid : id ∈ landed) (hfile : l.ledger.file ≠ .inMemory)
    (happend : (v.append id).1 = .failed left) : ¬(l.post json v).1.Known id := by
  have hlands := sink.lands_postIfDue v.nowNs l.sink
  rcases l.post_cases json v with ⟨kind, s, hcall, heq⟩ | ⟨landed', s, recorded, hcall, heq⟩
  · rw [hcall] at hlands
    rw [heq, hlands.2, List.self_eq_append_right] at hreported
    rw [hreported] at hid
    cases hid
  · rw [hcall] at hlands
    rw [heq, sink_recordLanded] at hreported
    rw [heq]
    exact not_known_of_landed hsorted hkept.held hlands hreported hid hfile happend

end Loader

end EdgeMulticast.Load
