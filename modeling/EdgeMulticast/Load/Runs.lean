import EdgeMulticast.Load.Accounts
import EdgeMulticast.Load.Json

/-!
# Runs of the loader

A run is any sequence of passes, with restarts between them, after a way out that posts what is held or
in the middle of a pass.
-/

namespace EdgeMulticast.Load

open EdgeMulticast.Lib
open EdgeMulticast.Rows
open EdgeMulticast.Loss (Captured CaptureDropScope)

namespace Loader

variable {sink : RowSink}

/-- A loader that has opened its ledger and done nothing. -/
structure Fresh (json : LineCodec Entry) (l : Loader sink) : Prop where
  opened : Ledger.open json l.ledger.file = some l.ledger
  whole : Whole l.ledger.file.bytes
  pending : l.pending = []
  holds : sink.holds l.sink = []

/-- What a loader can come to, where each of its passes meets what it is to meet. -/
inductive Reached (config : Config) (json : LineCodec Entry) (meets : Visit → Loader sink → Prop)
    (start : Loader sink) : Loader sink → Prop where
  | start : Reached config json meets start start
  | pass {l : Loader sink} {v : Visit} (h : Reached config json meets start l) (hv : meets v l) :
      Reached config json meets start (l.runOnce config json v).1
  /-- It ends, with what the way out does, and is started again. -/
  | left {l l' : Loader sink} {nowNs : ℕ} {append : ObjectId → Append × ℕ}
      (h : Reached config json meets start l) (hclean : ∀ id, (append id).1.Clean)
      (hnext : (l.leave json nowNs append).1.restart json = some l') :
      Reached config json meets start l'
  /-- It ends at one of the turns of a pass, and is started again. -/
  | broken {l l' : Loader sink} {v : Visit} {k : ℕ} (h : Reached config json meets start l)
      (hv : meets v l) (hnext : (l.atTurn config json v k).loader.restart json = some l') :
      Reached config json meets start l'
  /-- It ends behind the last turn of a pass, and is started again. -/
  | brokenPosted {l l' : Loader sink} {v : Visit} (h : Reached config json meets start l)
      (hv : meets v l) (hnext : (l.posted config json v).restart json = some l') :
      Reached config json meets start l'

/-! ## Between passes -/

variable {config : Config} {json : LineCodec Entry} {l l' start : Loader sink} {v : Visit}
  {initial : List ObjectId} {append : ObjectId → Append × ℕ} {nowNs : ℕ} {id : ObjectId}

theorem leave_cases (json : LineCodec Entry) (nowNs : ℕ) (append : ObjectId → Append × ℕ)
    (l : Loader sink) :
    (∃ kind s, sink.flush nowNs l.sink = (.error kind, s) ∧
      l.leave json nowNs append = ({ l with sink := s }, .error kind)) ∨
    ∃ landed s recorded, sink.flush nowNs l.sink = (.ok landed, s) ∧
      l.leave json nowNs append =
        ((recordLanded json append { l with sink := s } landed).1, .ok recorded) := by
  rw [leave]
  generalize sink.flush nowNs l.sink = call
  obtain ⟨answer, s⟩ := call
  cases answer with
  | error kind => exact .inl ⟨kind, s, rfl, rfl⟩
  | ok landed => exact .inr ⟨landed, s, _, rfl, rfl⟩

/-- The way out keeps the account, where the flush does not fail. -/
theorem Kept.leave {recorded : Recorded} (h : l.Kept initial)
    (hok : (l.leave json nowNs append).2 = .ok recorded) :
    (l.leave json nowNs append).1.Kept initial := by
  have hlands := sink.lands_flush nowNs l.sink
  rcases l.leave_cases json nowNs append with ⟨kind, s, hcall, heq⟩ | ⟨landed, s, _, hcall, heq⟩
  · rw [heq] at hok
    cases hok
  · rw [hcall] at hlands
    exact heq ▸ Kept.recordLanded h.held h.landed hlands

/-- What a loader that has ended leaves to the next one: its file, and what has landed. -/
structure Ended (json : LineCodec Entry) (initial : List ObjectId) (l : Loader sink) : Prop where
  backed : l.ledger.Backed json
  landed : ∀ id ∈ l.ledger.loaded, id ∈ sink.reported l.sink ∨ id ∈ initial

theorem Ended.leave (hsorted : l.Sorted json) (hkept : l.Kept initial)
    (hclean : ∀ id, (append id).1.Clean) : (l.leave json nowNs append).1.Ended json initial := by
  have hlands := sink.lands_flush nowNs l.sink
  rcases l.leave_cases json nowNs append with ⟨kind, s, hcall, heq⟩ | ⟨landed, s, _, hcall, heq⟩
  · rw [hcall] at hlands
    rw [heq]
    refine ⟨hsorted.backed, fun id hid ↦ ?_⟩
    rw [hlands.2]
    exact hkept.landed id hid
  · rw [hcall] at hlands
    exact heq ▸ ⟨((hsorted.withSink s).recordLanded hclean).backed,
      (Kept.recordLanded hkept.held hkept.landed hlands).landed⟩

theorem restart_spec (hended : l.Ended json initial) (h : l.restart json = some l') :
    l'.Sorted json ∧ l'.Kept initial := by
  obtain ⟨ledger, hopen, rfl⟩ := Option.map_eq_some_iff.mp h
  obtain ⟨hfile, hloaded⟩ := Ledger.open_spec hopen
  refine ⟨⟨Ledger.backed_open hopen hended.backed.whole, List.nodup_nil, fun _ hid ↦ ?_⟩, ?_, ?_⟩
  · cases hid
  · rw [sink.holds_restarted]
    exact List.Perm.nil
  · intro id hid
    rw [sink.reported_restarted]
    obtain ⟨e, he, rfl⟩ := (hloaded id).mp hid
    rw [Ledger.written, hfile] at he
    by_cases hmemory : l.ledger.file = .inMemory
    · rw [hmemory] at he
      cases he
    · exact hended.landed _ ((hended.backed.entry hmemory _).mpr ⟨e, he, rfl⟩)

theorem Fresh.sorted (h : l.Fresh json) : l.Sorted json ∧ l.Kept l.ledger.loaded := by
  have hheld : l.heldIds = [] := by
    rw [heldIds, h.pending]
    rfl
  refine ⟨⟨Ledger.backed_open h.opened h.whole, ?_, ?_⟩, ?_, fun _ hid ↦ .inr hid⟩
  · rw [hheld]
    exact List.nodup_nil
  · intro id hid
    rw [hheld] at hid
    cases hid
  · rw [hheld, h.holds]

theorem Sorted.posted (hsorted : l.Sorted json) (hkept : l.Kept initial)
    (hsteady : v.Steady config json l) :
    (l.posted config json v).Sorted json ∧ (l.posted config json v).Kept initial := by
  have hlast := underway hsorted hkept hsteady (l.turns config v).length
  rw [Loader.posted, ← atTurn_length]
  exact ⟨hlast.sorted.post hsteady.clean, hlast.kept.post⟩

theorem Sorted.runOnce (hsorted : l.Sorted json) (hkept : l.Kept initial)
    (hsteady : v.Steady config json l) :
    (l.runOnce config json v).1.Sorted json ∧ (l.runOnce config json v).1.Kept initial := by
  obtain ⟨hs, hk⟩ := hsorted.posted hkept hsteady
  exact ⟨hs.compacted, hk.compacted hs⟩

/-- What every run keeps. -/
theorem Reached.sorted (hstart : start.Fresh json)
    (h : Reached config json (Visit.Steady config json) start l) :
    l.Sorted json ∧ l.Kept start.ledger.loaded := by
  induction h with
  | start => exact hstart.sorted
  | pass h hsteady ih => exact ih.1.runOnce ih.2 hsteady
  | left h hclean hnext ih => exact restart_spec (.leave ih.1 ih.2 hclean) hnext
  | @broken l l' v k h hsteady hnext ih =>
      have hunder := underway ih.1 ih.2 hsteady k
      exact restart_spec ⟨hunder.sorted.backed, hunder.kept.landed⟩ hnext
  | brokenPosted h hsteady hnext ih =>
      obtain ⟨hs, hk⟩ := ih.1.posted ih.2 hsteady
      exact restart_spec ⟨hs.backed, hk.landed⟩ hnext

/-! ## What a pass does to the account -/

/-- The account of a pass. -/
structure PassKept (initial : List ObjectId) (config : Config) (json : LineCodec Entry) (v : Visit)
    (l : Loader sink) : Prop where
  /-- What is pending is what the sink holds, and what is recorded has landed: at every turn, behind
  the last one and at the end. -/
  turn (k : ℕ) : (l.atTurn config json v k).loader.Kept initial
  posted : (l.posted config json v).Kept initial
  done : (l.runOnce config json v).1.Kept initial
  /-- What is held or recorded is not derived. -/
  once {k : ℕ} {p : Published} {m : SegmentManifest} : l.Derives config json v k p m →
    ¬(l.atTurn config json v k).loader.Known (objectId m)
  /-- Nothing comes to be held or recorded but by being derived. -/
  only {id : ObjectId} : (l.runOnce config json v).1.Known id →
    l.Known id ∨ l.HasDerived config json v (l.turns config v).length id
  /-- What is neither held nor recorded is derived, while it is there and can be read, unless the pass
  stops before its turn. -/
  again {index : ℕ} {c : Candidate} {m : SegmentManifest} :
    (config.candidates v.directory)[index]? = some c → c.published.scanned = .found m →
    c.published.reread = .found m → m.site = config.site → m.recorder = config.recorder →
    ¬l.Known (objectId m) → ∃ k, (l.turns config v)[k]? = some index ∧
      (l.Derives config json v k c.published m ∨ ∃ j ≤ k, l.Ends config json v j)
  /-- What is lost with a failed insert is neither held nor recorded. -/
  lost {k : ℕ} {p : Published} {m : SegmentManifest} {id : ObjectId} :
    l.Loses config json v k p m →
    id ∈ (l.atTurn config json v k).loader.heldIds ∨ id = objectId m →
    ¬(l.atTurn config json v (k + 1)).loader.Known id
  lostPosted {kind : ErrorKind} {id : ObjectId} :
    ((l.after config json v (l.turns config v)).loader.post json v).2 = .error kind →
    id ∈ (l.after config json v (l.turns config v)).loader.heldIds →
    ¬(l.posted config json v).Known id
  /-- What has landed and is left without an entry is neither held nor recorded. -/
  unwritten {k left : ℕ} {landed : List ObjectId} {id : ObjectId} :
    sink.reported (l.atTurn config json v (k + 1)).loader.sink =
      sink.reported (l.atTurn config json v k).loader.sink ++ landed → id ∈ landed →
    (l.atTurn config json v k).loader.ledger.file ≠ .inMemory → (v.append id).1 = .failed left →
    ¬(l.atTurn config json v (k + 1)).loader.Known id
  unwrittenPosted {left : ℕ} {landed : List ObjectId} {id : ObjectId} :
    sink.reported (l.posted config json v).sink =
      sink.reported (l.after config json v (l.turns config v)).loader.sink ++ landed → id ∈ landed →
    (l.after config json v (l.turns config v)).loader.ledger.file ≠ .inMemory →
    (v.append id).1 = .failed left → ¬(l.posted config json v).Known id
  /-- The compaction drops no entry of an object that is there, of a feed that was not looked for, or
  behind a walk that has left something out. -/
  spared {e : Entry} : e ∈ (l.posted config json v).ledger.written json → Spared config v e →
    e ∈ (l.runOnce config json v).1.ledger.written json ∧
      e.id ∈ (l.runOnce config json v).1.ledger.loaded

theorem passKept (hsorted : l.Sorted json) (hkept : l.Kept initial)
    (hsteady : v.Steady config json l) : PassKept initial config json v l := by
  have hunder := underway hsorted hkept hsteady
  obtain ⟨hs, hk⟩ := hsorted.posted hkept hsteady
  obtain ⟨hs', hk'⟩ := hsorted.runOnce hkept hsteady
  constructor
  case turn => exact fun k ↦ (hunder k).kept
  case posted => exact hk
  case done => exact hk'
  case once => exact fun hderives ↦ (hunder _).fresh hsteady hderives
  case only =>
    intro id hknown
    have hposted := known_compacted hs hknown
    rw [Loader.posted, ← atTurn_length] at hposted
    exact (hunder _).known id (known_post hposted)
  case again => exact fun hc hscanned hreread ↦ derives_again hc hscanned hreread
  case lost => exact fun hloses hid ↦ (hunder _).lost hsteady hloses hid
  case lostPosted =>
    intro kind id herror hid
    rw [← atTurn_length] at herror hid
    rw [Loader.posted, ← atTurn_length]
    rcases post_cases json v (l.atTurn config json v (l.turns config v).length).loader with
      ⟨kind', s, -, heq⟩ | ⟨landed, s, recorded, -, heq⟩
    · rw [heq]
      rintro (hknown | hknown)
      · cases hknown
      · exact (hunder _).sorted.apart id hid hknown
    · rw [heq] at herror
      cases herror
  case unwritten =>
    exact fun hreported hid hfile happend ↦
      (hunder _).unwritten hsteady hreported hid hfile happend
  case unwrittenPosted =>
    intro left landed id hreported hid hfile happend
    have hlast := hunder (l.turns config v).length
    rw [Loader.posted] at hreported ⊢
    rw [← atTurn_length] at hreported hfile ⊢
    exact unwritten_post hlast.sorted hlast.kept hreported hid hfile happend
  case spared =>
    intro e he hspared
    have hwritten := written_of_spared hsorted hkept hsteady he hspared
    refine ⟨hwritten, (hs'.backed.entry ?_ e.id).mpr ⟨e, hwritten, rfl⟩⟩
    intro hmemory
    rw [Ledger.written_of_inMemory hmemory] at hwritten
    cases hwritten

/-- In every run whose passes meet what is steady, the account of the objects is kept: between the
passes, by a way out that lands what is held, and by every pass. -/
theorem account_kept (hstart : start.Fresh json)
    (h : Reached config json (Visit.Steady config json) start l) :
    l.Kept start.ledger.loaded ∧
      (∀ nowNs append recorded, (l.leave json nowNs append).2 = .ok recorded →
        (l.leave json nowNs append).1.Kept start.ledger.loaded) ∧
      ∀ v : Visit, v.Steady config json l → PassKept start.ledger.loaded config json v l := by
  obtain ⟨hsorted, hkept⟩ := h.sorted hstart
  exact ⟨hkept, fun _ _ _ hok ↦ hkept.leave hok, fun _ hsteady ↦ passKept hsorted hkept hsteady⟩

end Loader

/-! ## A manifest that cannot be read once -/

/-- A sink that lands each batch when it is given. -/
def promptSink : RowSink where
  State := List ObjectId
  holds _ := []
  reported s := s
  writeBatch rows _ s := (.ok [rows.id], s ++ [rows.id])
  postIfDue _ s := (.ok [], s)
  flush _ s := (.ok [], s)
  restarted s := s
  lands_writeBatch _ _ _ := ⟨List.Perm.refl _, rfl⟩
  lands_postIfDue _ s := ⟨List.Perm.refl _, (List.append_nil s).symm⟩
  lands_flush _ s := ⟨List.Perm.refl _, (List.append_nil s).symm⟩
  holds_restarted _ := rfl
  reported_restarted _ := rfl

def everyFeed : Config where
  feeds := none
  site := "a"
  recorder := "b"
  maxObjects := 0
  marketData := []

/-- The manifest of the first object that a recorder has written, or of the second one. -/
def stated (second : Bool) : SegmentManifest where
  site := "a"
  recorder := "b"
  env := "c"
  feed := "d"
  objectKey := if second then "20-30-1" else "10-20-0"
  sha256 := if second then "f" else "e"
  segmentSeq := if second then 1 else 0
  interfaceDropTotal := 0

def stored (second : Bool) (scanned : ManifestRead) : Published where
  stem := (stated second).objectKey
  startNs := if second then 20 else 10
  compressed := .file
  plain := .nothing
  scanned := scanned
  manifest := some (stated second)
  readable := true
  archive := .ok (.portRole, [.read .mktdata ⟨1, 0, 5000⟩ (.ofWord 1 0)])
  events := true

/-- A pass that meets both objects, and reads the manifest of the first one as given. -/
def visitOf (scanned : ManifestRead) : Visit where
  nowNs := 0
  directory := some [.directory "d" (some
    [.manifest (stored false scanned), .manifest (stored true (.found (stated true)))])]
  stop _ := false
  append _ := (.written, 0)
  compaction := .done

def emptyLoader : Loader promptSink := ⟨{ file := .absent }, [], []⟩

theorem candidates_visitOf (scanned : ManifestRead) :
    everyFeed.candidates (visitOf scanned).directory =
      [⟨stored false scanned, ["d", "10-20-0.pcapng.zst"]⟩,
        ⟨stored true (.found (stated true)), ["d", "20-30-1.pcapng.zst"]⟩] := rfl

theorem steady_visitOf :
    (visitOf (.found (stated false))).Steady everyFeed entryJson emptyLoader := by
  constructor
  case clean => exact fun _ ↦ trivial
  case distinct =>
    rw [candidates_visitOf, List.pairwise_pair]
    intro m m' hm hm'
    cases hm
    cases hm'
    decide
  case unchanged =>
    rw [candidates_visitOf]
    intro c hc m m' hm hm'
    rcases List.mem_pair.mp hc with rfl | rfl
    · cases hm
      cases hm'
      rfl
    · cases hm
      cases hm'
      rfl
  case legible =>
    intro _ listed hlisted _ p hp m hm
    cases List.mem_singleton.mp hlisted
    rcases List.mem_pair.mp hp with rfl | rfl
    · cases hm.1
      exact ⟨Option.some_ne_none _, rfl⟩
    · cases hm.1
      exact ⟨Option.some_ne_none _, rfl⟩
  case placed =>
    intro _ listed hlisted hwalks
    cases List.mem_singleton.mp hlisted
    exact absurd rfl hwalks

theorem fresh_emptyLoader : emptyLoader.Fresh entryJson := ⟨rfl, whole_nil, rfl, rfl⟩

theorem account_kept_first :
    Loader.PassKept [] everyFeed entryJson (visitOf (.found (stated false))) emptyLoader :=
  (Loader.account_kept fresh_emptyLoader .start).2.2 _ steady_visitOf

/-- What the loader has recorded of two objects, and a pass that cannot read the manifest of the first
one: the compaction drops its entry, though the object is there, and it is derived again. -/
theorem unread_dropped :
    let first := (emptyLoader.runOnce everyFeed entryJson (visitOf (.found (stated false)))).1
    let second := first.runOnce everyFeed entryJson (visitOf .failed)
    let third := second.1.runOnce everyFeed entryJson (visitOf (.found (stated false)))
    objectId (stated false) ∈ first.ledger.loaded ∧
      Loader.Present (visitOf .failed) (objectId (stated false)) ∧
      everyFeed.enumeration (visitOf .failed).directory = .complete ∧
      objectId (stated false) ∉ second.1.ledger.loaded ∧ third.2.derived = 1 := by
  dsimp only
  refine ⟨by decide +kernel, ?_, rfl, by decide +kernel, by decide +kernel⟩
  exact ⟨_, List.mem_cons_self, stored false .failed, List.mem_cons_self, stated false,
    ⟨rfl, .inl (by decide)⟩, rfl⟩

end EdgeMulticast.Load
