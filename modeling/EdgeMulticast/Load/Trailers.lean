import EdgeMulticast.Load.Runs

/-!
# The trailers that a loader keeps

The objects of a feed as its recorder published them, run by run, and what the loader's ledger and its
pending objects say about them: the trailer that it consults for a feed is of an object that is held or
recorded, and no such object of the feed is of a higher segment.
-/

namespace EdgeMulticast.Load

open EdgeMulticast.Lib
open EdgeMulticast.Rows
open EdgeMulticast.Loss (Captured CaptureDropScope)

/-- An object that a run of a recorder published. -/
structure Publication where
  run : ℕ
  manifest : SegmentManifest
  dropScope : CaptureDropScope
  dgs : List Captured
deriving DecidableEq

namespace Publication

def id (p : Publication) : ObjectId := objectId p.manifest

def feed (p : Publication) : String := p.manifest.feed

def seq (p : Publication) : ℕ := p.manifest.segmentSeq

/-- What its derivation leaves for the next one, whatever was known before it. -/
def trailer (p : Publication) : SegmentTrailer :=
  (derive p.dgs ⟨p.manifest, p.dropScope, none, .archive⟩).trailer

@[simp] theorem segmentSeq_trailer (p : Publication) : p.trailer.segmentSeq = p.seq := rfl

/-- One object is the one right before another of the same run. -/
def Precedes (q p : Publication) : Prop := q.feed = p.feed ∧ q.run = p.run ∧ q.seq + 1 = p.seq

end Publication

/-- What the runs of recorders have published.  Within a run a segment has one object, and its number
is one that can still be advanced. -/
structure History where
  published : ObjectId → Option Publication
  id_eq {id : ObjectId} {p : Publication} : published id = some p → p.id = id
  distinct {id id' : ObjectId} {p p' : Publication} : published id = some p →
    published id' = some p' → p.feed = p'.feed → p.run = p'.run → p.seq = p'.seq → id = id'
  word {id : ObjectId} {p : Publication} : published id = some p → p.seq < Loss.U64_MAX

/-! ## The ledger -/

/-- The ledger's trailers are of the highest segments that it has loaded. -/
structure Ledger.Trails (h : History) (l : Ledger) : Prop where
  covered : ∀ id ∈ l.loaded, ∃ p, h.published id = some p ∧
    ∃ t, l.trailers p.feed = some t ∧ p.seq ≤ t.segmentSeq
  source {feed : String} {t : SegmentTrailer} : l.trailers feed = some t →
    ∃ id ∈ l.loaded, ∃ p, h.published id = some p ∧ p.feed = feed ∧ p.trailer = t

/-- An entry is of an object as it was published. -/
def Entry.Of (h : History) (e : Entry) : Prop :=
  ∃ p, h.published e.id = some p ∧ e.trailer = p.trailer ∧ e.feed = p.feed

namespace Ledger

variable {h : History} {json : LineCodec Entry} {l : Ledger} {e : Entry}

theorem Trails.remember (htrails : l.Trails h) (he : e.Of h) : (l.remember e).Trails h := by
  obtain ⟨p, hp, htrailer, hfeed⟩ := he
  by_cases hall : (l.trailers e.feed).all fun t ↦ t.segmentSeq ≤ e.trailer.segmentSeq
  · have htrailers : (l.remember e).trailers = Function.update l.trailers e.feed (some e.trailer) :=
      if_pos hall
    constructor
    · intro id hid
      rw [htrailers]
      rcases mem_loaded_remember.mp hid with rfl | hid
      · exact ⟨p, hp, e.trailer, by rw [hfeed, Function.update_self], by rw [htrailer]; exact le_rfl⟩
      · obtain ⟨p', hp', t, ht, hle⟩ := htrails.covered id hid
        refine ⟨p', hp', ?_⟩
        by_cases heq : p'.feed = e.feed
        · rw [heq] at ht ⊢
          rw [ht] at hall
          exact ⟨e.trailer, Function.update_self _ _ _, hle.trans (of_decide_eq_true hall)⟩
        · exact ⟨t, by rwa [Function.update_of_ne heq], hle⟩
    · intro feed t ht
      rw [htrailers] at ht
      by_cases heq : feed = e.feed
      · subst heq
        rw [Function.update_self] at ht
        cases ht
        exact ⟨e.id, mem_loaded_remember.mpr (.inl rfl), p, hp, hfeed.symm, htrailer.symm⟩
      · rw [Function.update_of_ne heq] at ht
        obtain ⟨id, hid, hsource⟩ := htrails.source ht
        exact ⟨id, mem_loaded_remember.mpr (.inr hid), hsource⟩
  · have htrailers : (l.remember e).trailers = l.trailers := if_neg hall
    constructor
    · intro id hid
      rw [htrailers]
      rcases mem_loaded_remember.mp hid with rfl | hid
      · cases ht : l.trailers e.feed with
        | none => exact absurd (by rw [ht]; rfl) hall
        | some t =>
            refine ⟨p, hp, t, by rw [← hfeed, ht], ?_⟩
            rw [ht] at hall
            rw [htrailer] at hall
            exact (Nat.le_of_not_le fun hle ↦ hall (decide_eq_true hle))
      · exact htrails.covered id hid
    · intro feed t ht
      rw [htrailers] at ht
      obtain ⟨id, hid, hsource⟩ := htrails.source ht
      exact ⟨id, mem_loaded_remember.mpr (.inr hid), hsource⟩

theorem trails_open {file : LedgerFile} (hopen : «open» json file = some l)
    (hentries : ∀ e ∈ json.values file.bytes, e.Of h) : l.Trails h := by
  rw [«open»] at hopen
  split at hopen
  next =>
      cases hopen
      refine run_induction (P := fun l' : Ledger ↦ l'.Trails h) _ ⟨fun _ hid ↦ ?_, fun ht ↦ ?_⟩
        fun l' e he hl' ↦ hl'.remember (hentries e he)
      · cases hid
      · cases ht
  next => cases hopen

theorem Trails.record {append : Append} (htrails : l.Trails h) (he : e.Of h) :
    (l.record json e append).1.Trails h := by
  obtain ⟨file, heq⟩ := l.record_memory json e append
  rw [heq]
  split
  · exact Trails.remember (l := { l with file }) ⟨htrails.covered, htrails.source⟩ he
  · exact ⟨htrails.covered, htrails.source⟩

variable {present : List ObjectId} {inScope : Option (List String)} {io : Compaction}

/-- A compaction keeps an entry of each trailer's segment. -/
theorem Trails.compact (htrails : l.Trails h) (hbacked : l.Backed json)
    (hwritten : ∀ e ∈ l.written json, e.Of h) :
    (l.compact json present inScope io).1.Trails h := by
  rcases l.compact_cases json present inScope io with heq | ⟨hfile, heq⟩
  · rwa [heq]
  · rw [heq]
    constructor
    · intro id hid
      obtain ⟨e, he, rfl⟩ := List.mem_map.mp hid
      exact htrails.covered e.id ((hbacked.entry hfile _).mpr ⟨e, List.mem_of_mem_filter he, rfl⟩)
    · intro feed t ht
      obtain ⟨id, hid, p, hp, hfeed, htrailer⟩ := htrails.source ht
      obtain ⟨e, he, rfl⟩ := (hbacked.entry hfile id).mp hid
      obtain ⟨p', hp', htrailer', hfeed'⟩ := hwritten e he
      cases hp.symm.trans hp'
      refine ⟨e.id, List.mem_map.mpr ⟨e, List.mem_filter.mpr ⟨he, ?_⟩, rfl⟩, p, hp, hfeed, htrailer⟩
      rw [keeps, Bool.or_eq_true]
      refine .inr ?_
      rw [hfeed', hfeed, ht]
      exact decide_eq_true (by rw [htrailer', htrailer])

end Ledger

/-! ## The loader -/

namespace Loader

variable {sink : RowSink} {config : Config} {json : LineCodec Entry} {v : Visit} {h : History}
  {l l' start : Loader sink} {append : ObjectId → Append × ℕ}

/-- What is pending and what is written is as it was published. -/
structure Told (h : History) (json : LineCodec Entry) (l : Loader sink) : Prop where
  backed : l.ledger.Backed json
  trails : l.ledger.Trails h
  pending : ∀ q ∈ l.pending, ∃ p, h.published q.id = some p ∧ q.trailer = p.trailer ∧ q.feed = p.feed
  written : ∀ e ∈ l.ledger.written json, e.Of h

theorem Told.withSink (htold : l.Told h json) (s : sink.State) :
    Told h json { l with sink := s } :=
  ⟨htold.backed, htold.trails, htold.pending, htold.written⟩

theorem Told.lost (htold : l.Told h json) (s : sink.State) :
    Told h json { l with sink := s, pending := [] } :=
  ⟨htold.backed, htold.trails, fun _ hq ↦ absurd hq List.not_mem_nil, htold.written⟩

theorem Told.recordLanded (htold : l.Told h json) (hclean : ∀ id, (append id).1.Clean)
    (landed : List ObjectId) : (Loader.recordLanded json append l landed).1.Told h json := by
  refine recordLanded_induction json append landed (P := fun l' ↦ l'.Told h json) htold ?_
  intro state id _ hstate
  rcases recordOne_cases json append state id with ⟨-, heq⟩ | ⟨done, hdone, -, heq⟩
  · rwa [heq]
  · rw [heq]
    obtain ⟨p, hp, htrailer, hfeed⟩ := hstate.pending done hdone
    have he : (entryOf append done).Of h := ⟨p, hp, htrailer, hfeed⟩
    constructor
    · exact hstate.backed.record (hclean id)
    · exact hstate.trails.record he
    · exact fun q hq ↦ hstate.pending q (List.mem_of_mem_eraseP hq)
    · intro e hmem
      rcases Ledger.mem_written_record hstate.backed (hclean id) hmem with hmem | ⟨-, rfl⟩
      · exact hstate.written e hmem
      · exact he

theorem Told.holding (htold : l.Told h json) {m : SegmentManifest} {dropScope : CaptureDropScope}
    {dgs : List Captured} {run : ℕ}
    (hp : h.published (objectId m) = some ⟨run, m, dropScope, dgs⟩) :
    (l.holding m (derive dgs (l.input m dropScope))).Told h json := by
  refine ⟨htold.backed, htold.trails, fun q hq ↦ ?_, htold.written⟩
  rcases List.mem_append.mp hq with hq | hq
  · exact htold.pending q hq
  · cases List.mem_singleton.mp hq
    exact ⟨_, hp, rfl, rfl⟩

/-- A pass meets the objects as they were published, and an append that fails leaves nothing. -/
structure Meets (h : History) (config : Config) (v : Visit) (_l : Loader sink) : Prop where
  clean (id : ObjectId) : (v.append id).1.Clean
  published : ∀ c ∈ config.candidates v.directory, ∀ m dropScope dgs,
    c.published.manifest = some m → c.published.archive = .ok (dropScope, dgs) →
      ∃ run, h.published (objectId m) = some ⟨run, m, dropScope, dgs⟩

theorem Derives.published {k : ℕ} {p : Published} {m : SegmentManifest}
    {dropScope : CaptureDropScope} {dgs : List Captured} (hderives : l.Derives config json v k p m)
    (hmeets : Meets h config v l) (harchive : p.archive = .ok (dropScope, dgs)) :
    ∃ run, h.published (objectId m) = some ⟨run, m, dropScope, dgs⟩ := by
  obtain ⟨index, c, -, hc, rfl, hreread, -⟩ := hderives
  exact hmeets.published c (List.mem_of_getElem? hc) m dropScope dgs (reread_eq_found hreread) harchive

theorem Told.atTurn (htold : l.Told h json) (hmeets : Meets h config v l) (k : ℕ) :
    (l.atTurn config json v k).loader.Told h json := by
  induction k using atTurn_induction config json v l with
  | init => exact htold
  | idle k heq ih => rwa [heq]
  | next k index hturn ih =>
      rcases step_cases hturn with
        heq | ⟨p, m, dropScope, dgs, hderives, harchive, ⟨kind, s, -, heq⟩ | ⟨landed, s, -, heq⟩⟩
      · rwa [heq]
      · exact heq ▸ ih.lost s
      · obtain ⟨run, hp⟩ := hderives.published hmeets harchive
        exact heq ▸ ((ih.holding hp).withSink s).recordLanded hmeets.clean landed

theorem Told.posted (htold : l.Told h json) (hmeets : Meets h config v l) :
    (l.posted config json v).Told h json := by
  have hlast : (l.atTurn config json v (l.turns config v).length).loader.Told h json :=
    htold.atTurn hmeets _
  rw [Loader.posted, ← atTurn_length]
  rcases post_cases json v (l.atTurn config json v (l.turns config v).length).loader with
    ⟨kind, s, -, heq⟩ | ⟨landed, s, recorded, -, heq⟩
  · exact heq ▸ hlast.lost s
  · exact heq ▸ (hlast.withSink s).recordLanded hmeets.clean landed

theorem Told.runOnce (htold : l.Told h json) (hmeets : Meets h config v l) :
    (l.runOnce config json v).1.Told h json := by
  have hposted : (l.posted config json v).Told h json := htold.posted hmeets
  change ((l.posted config json v).compacted config json v _).1.Told h json
  rcases (l.posted config json v).compacted_cases config json v
    (l.scan config (config.candidates v.directory)).present with heq | ⟨-, heq⟩
  · rwa [heq]
  · rw [heq]
    refine ⟨hposted.backed.compact, hposted.trails.compact hposted.backed hposted.written,
      hposted.pending, fun e he ↦ hposted.written e ?_⟩
    exact Ledger.written_subset_compact he

theorem Told.restart (htold : l.Told h json) (hnext : l.restart json = some l') :
    l'.Told h json := by
  obtain ⟨ledger, hopen, rfl⟩ := Option.map_eq_some_iff.mp hnext
  obtain ⟨hfile, -⟩ := Ledger.open_spec hopen
  refine ⟨Ledger.backed_open hopen htold.backed.whole, Ledger.trails_open hopen htold.written,
    fun _ hq ↦ absurd hq List.not_mem_nil, fun e he ↦ htold.written e ?_⟩
  rwa [Ledger.written, hfile] at he

theorem Told.leave {nowNs : ℕ} (htold : l.Told h json) (hclean : ∀ id, (append id).1.Clean) :
    (l.leave json nowNs append).1.Told h json := by
  rcases l.leave_cases json nowNs append with ⟨kind, s, -, heq⟩ | ⟨landed, s, _, -, heq⟩
  · exact heq ▸ htold.withSink s
  · exact heq ▸ (htold.withSink s).recordLanded hclean landed

/-- A loader that starts with nothing. -/
structure Empty (l : Loader sink) : Prop where
  ledger : l.ledger = { file := .absent } ∨ l.ledger = .inMemory
  pending : l.pending = []

theorem Empty.told (hstart : start.Empty) : start.Told h json := by
  have hledger : start.ledger.file.bytes = [] ∧ start.ledger.loaded = [] ∧
      start.ledger.trailers = fun _ ↦ none := by
    rcases hstart.ledger with heq | heq <;>
    · rw [heq]
      exact ⟨rfl, rfl, rfl⟩
  obtain ⟨hbytes, hloaded, htrailers⟩ := hledger
  have hwritten : start.ledger.written json = [] := by
    rw [Ledger.written, hbytes]
    rfl
  refine ⟨⟨?_, ?_, fun _ id ↦ ?_⟩, ⟨fun id hid ↦ ?_, fun ht ↦ ?_⟩, fun q hq ↦ ?_, fun e he ↦ ?_⟩
  · rw [hbytes]
    exact whole_nil
  · rw [hbytes]
    rfl
  · rw [hloaded, hwritten]
    simp
  · rw [hloaded] at hid
    cases hid
  · rw [htrailers] at ht
    cases ht
  · rw [hstart.pending] at hq
    cases hq
  · rw [hwritten] at he
    cases he

/-- Every run keeps what was published. -/
theorem Reached.told (hstart : start.Empty)
    (hreached : Reached config json (Meets h config) start l) : l.Told h json := by
  induction hreached with
  | start => exact hstart.told
  | pass _ hv ih => exact ih.runOnce hv
  | left _ hclean hnext ih => exact (ih.leave hclean).restart hnext
  | broken _ hv hnext ih => exact (ih.atTurn hv _).restart hnext
  | brokenPosted _ hv hnext ih => exact (ih.posted hv).restart hnext

end Loader

end EdgeMulticast.Load
