import EdgeMulticast.Load.Trailers

/-!
# Boundaries between the objects of a run

An era that an object begins with is settled by the trailer of the object right before it.  The loader
consults the trailer of the highest segment that it knows for the feed, so this is that trailer as long
as no object of another run, or of a later segment, is known in its place.
-/

namespace EdgeMulticast.Load

open EdgeMulticast.Lib
open EdgeMulticast.Rows
open EdgeMulticast.Loss (Captured CaptureDropScope EraCoverage)
open EdgeMulticast.Recorder (ChannelInstance)

/-! ## What a derivation reads of the trailer before it -/

/-- A trailer is read only if it is of the segment right before. -/
def adjacent (input : DeriveInput) : DeriveInput :=
  { input with preceding := input.preceding.filter fun t ↦ t.precedes input.manifest.segmentSeq }

theorem filter_adjacent (input : DeriveInput) :
    (adjacent input).preceding.filter (fun t ↦ t.precedes input.manifest.segmentSeq) =
      input.preceding.filter fun t ↦ t.precedes input.manifest.segmentSeq := by
  rw [adjacent, Option.filter_filter]
  simp

theorem boundary_adjacent (coverage : EraCoverage) (key : ChannelInstance) (input : DeriveInput) :
    boundary coverage key (adjacent input) = boundary coverage key input := by
  rw [boundary, boundary]
  split
  · rfl
  · rw [show (adjacent input).manifest = input.manifest from rfl, filter_adjacent]

theorem interfaceDropDelta_adjacent (input : DeriveInput) :
    interfaceDropDelta (adjacent input).manifest (adjacent input).preceding =
      interfaceDropDelta input.manifest input.preceding :=
  congrArg (Option.map fun t : SegmentTrailer ↦
    input.manifest.interfaceDropTotal - t.interfaceDropTotal) (filter_adjacent input)

theorem rowOfRun_adjacent (f : Fold) (input : DeriveInput) :
    f.rowOfRun (adjacent input) = f.rowOfRun input := by
  funext report key loss run
  simp only [Fold.rowOfRun, boundary_adjacent, interfaceDropDelta_adjacent]
  rfl

theorem derive_adjacent (dgs : List Captured) (input : DeriveInput) :
    derive dgs (adjacent input) = derive dgs input := by
  simp only [derive, boundary_adjacent, rowOfRun_adjacent]
  rfl

/-- Two derivations of an object give the same rows where the trailers they are given are the same or
not of the segment right before. -/
theorem derive_congr (dgs : List Captured) {input input' : DeriveInput}
    (h : adjacent input = adjacent input') : derive dgs input = derive dgs input' := by
  rw [← derive_adjacent, h, derive_adjacent]

theorem certain_of_precedes {dgs : List Captured} {input : DeriveInput} {t : SegmentTrailer}
    (hpreceding : input.preceding = some t) (ht : t.precedes input.manifest.segmentSeq) {row : EraRow}
    (hrow : row ∈ (derive dgs input).era) : row.anchorCertain = 1 := by
  obtain ⟨⟨key, loss⟩, -, hrow⟩ := List.mem_flatMap.mp hrow
  obtain ⟨coverage, -, rfl⟩ := List.mem_map.mp hrow
  show (boundary coverage key input).1 = 1
  rw [boundary]
  split
  · rfl
  · rw [hpreceding, Option.filter_some, if_pos ht]
    dsimp only
    split <;> rfl

/-! ## The trailer that is consulted -/

/-- Among trailers the last of the highest segment. -/
theorem latest_spec (ts : List SegmentTrailer) :
    let best := ts.foldl (fun best t ↦
      if best.all fun (b : SegmentTrailer) ↦ b.segmentSeq ≤ t.segmentSeq then some t else best) none
    (best = none → ts = []) ∧
      ∀ b, best = some b → b ∈ ts ∧ ∀ t ∈ ts, t.segmentSeq ≤ b.segmentSeq := by
  induction ts using List.reverseRecOn with
  | nil => exact ⟨fun _ ↦ rfl, (fun _ hb ↦ by cases hb)⟩
  | append_singleton ts t ih =>
      dsimp only at ih ⊢
      rw [List.foldl_append, List.foldl_cons, List.foldl_nil]
      generalize ts.foldl (fun best t ↦
        if best.all fun (b : SegmentTrailer) ↦ b.segmentSeq ≤ t.segmentSeq then some t else best)
        none = best at ih ⊢
      obtain ⟨hnone, hsome⟩ := ih
      by_cases hall : best.all fun b ↦ b.segmentSeq ≤ t.segmentSeq
      · rw [if_pos hall]
        refine ⟨(fun h ↦ by cases h), fun b hb ↦ ?_⟩
        cases hb
        refine ⟨List.mem_append_right ts List.mem_cons_self, fun t' ht' ↦ ?_⟩
        rcases List.mem_append.mp ht' with ht' | ht'
        · cases hbest : best with
          | none =>
              rw [hnone hbest] at ht'
              cases ht'
          | some b =>
              rw [hbest] at hall
              exact ((hsome b hbest).2 t' ht').trans (of_decide_eq_true hall)
        · rw [List.mem_singleton.mp ht']
      · rw [if_neg hall]
        cases hbest : best with
        | none => exact absurd (by rw [hbest]; rfl) hall
        | some b =>
            refine ⟨(fun h ↦ by cases h), fun b' hb' ↦ ?_⟩
            cases hb'
            obtain ⟨hmem, hmax⟩ := hsome b hbest
            refine ⟨List.mem_append_left _ hmem, fun t' ht' ↦ ?_⟩
            rcases List.mem_append.mp ht' with ht' | ht'
            · exact hmax t' ht'
            · rw [List.mem_singleton.mp ht']
              rw [hbest] at hall
              exact Nat.le_of_not_le fun hle ↦ hall (decide_eq_true hle)

namespace Loader

variable {sink : RowSink} {config : Config} {json : LineCodec Entry} {h : History}
  {l g g' start : Loader sink} {p q : Publication} {feed : String} {t : SegmentTrailer}

/-- What is consulted for a feed: a pending trailer or the ledger's, the higher of the two. -/
theorem trailer_cases (l : Loader sink) (feed : String) :
    (l.trailer feed = none ∧ l.ledger.trailers feed = none ∧ ∀ q ∈ l.pending, q.feed ≠ feed) ∨
    ∃ t, l.trailer feed = some t ∧
      ((∃ q ∈ l.pending, q.feed = feed ∧ q.trailer = t) ∨ l.ledger.trailers feed = some t) ∧
      (∀ q ∈ l.pending, q.feed = feed → q.trailer.segmentSeq ≤ t.segmentSeq) ∧
      ∀ t', l.ledger.trailers feed = some t' → t'.segmentSeq ≤ t.segmentSeq := by
  have hmem (q : Pending) : q ∈ l.pending.filter (·.feed = feed) ↔ q ∈ l.pending ∧ q.feed = feed := by
    rw [List.mem_filter, decide_eq_true_eq]
  obtain ⟨hnone, hsome⟩ := latest_spec ((l.pending.filter (·.feed = feed)).map Pending.trailer)
  rw [trailer]
  generalize ((l.pending.filter (·.feed = feed)).map Pending.trailer).foldl (fun best t ↦
    if best.all fun (b : SegmentTrailer) ↦ b.segmentSeq ≤ t.segmentSeq then some t else best) none =
    best at hnone hsome ⊢
  cases best with
  | none =>
      have hpending (q : Pending) (hq : q ∈ l.pending) (hfeed : q.feed = feed) : False := by
        have hq := List.mem_map_of_mem (f := Pending.trailer) ((hmem q).mpr ⟨hq, hfeed⟩)
        rw [hnone rfl] at hq
        cases hq
      cases hledger : l.ledger.trailers feed with
      | none => exact .inl ⟨rfl, rfl, hpending⟩
      | some t =>
          refine .inr ⟨t, rfl, .inr rfl, fun q hq hfeed ↦ (hpending q hq hfeed).elim, ?_⟩
          intro t' ht'
          cases ht'
          exact le_rfl
  | some b =>
      obtain ⟨hb, hmax⟩ := hsome b rfl
      obtain ⟨q, hq, rfl⟩ := List.mem_map.mp hb
      have hmax (q' : Pending) (hq' : q' ∈ l.pending) (hfeed : q'.feed = feed) :
          q'.trailer.segmentSeq ≤ q.trailer.segmentSeq :=
        hmax _ (List.mem_map_of_mem ((hmem q').mpr ⟨hq', hfeed⟩))
      have hpending := (hmem q).mp hq
      cases hledger : l.ledger.trailers feed with
      | none =>
          refine .inr ⟨q.trailer, rfl, .inl ⟨q, hpending.1, hpending.2, rfl⟩, hmax, ?_⟩
          intro t' ht'
          cases ht'
      | some t =>
          dsimp only
          split
          next hlt =>
              refine .inr ⟨t, rfl, .inr rfl, fun q' hq' hfeed ↦ (hmax q' hq' hfeed).trans hlt.le, ?_⟩
              intro t' ht'
              cases ht'
              exact le_rfl
          next hle =>
              refine .inr ⟨q.trailer, rfl, .inl ⟨q, hpending.1, hpending.2, rfl⟩, hmax, ?_⟩
              intro t' ht'
              cases ht'
              exact Nat.le_of_not_lt hle

/-- A trailer that is consulted is of an object that is held or recorded. -/
theorem Told.exists_of_trailer (htold : l.Told h json) (ht : l.trailer feed = some t) :
    ∃ q, h.published q.id = some q ∧ l.Known q.id ∧ q.feed = feed ∧ q.trailer = t := by
  rcases l.trailer_cases feed with ⟨hnone, -⟩ | ⟨t', ht', hsource, -⟩
  · rw [hnone] at ht
    cases ht
  · cases ht'.symm.trans ht
    rcases hsource with ⟨q, hq, rfl, rfl⟩ | hledger
    · obtain ⟨p, hp, htrailer, hfeed⟩ := htold.pending q hq
      have hid := h.id_eq hp
      refine ⟨p, hid ▸ hp, .inl ?_, hfeed.symm, htrailer.symm⟩
      rw [hid]
      exact List.mem_map_of_mem hq
    · obtain ⟨id, hid, p, hp, hfeed, htrailer⟩ := htold.trails.source hledger
      have heq := h.id_eq hp
      subst heq
      exact ⟨p, hp, .inr hid, hfeed, htrailer⟩

/-- Where an object of a feed is held or recorded, a trailer is consulted of no lower segment. -/
theorem Told.le_trailer (htold : l.Told h json) (hq : h.published q.id = some q)
    (hknown : l.Known q.id) : ∃ t, l.trailer q.feed = some t ∧ q.seq ≤ t.segmentSeq := by
  rcases hknown with hheld | hloaded
  · obtain ⟨pending, hpending, hid⟩ := List.mem_map.mp hheld
    obtain ⟨p, hp, htrailer, hfeed⟩ := htold.pending pending hpending
    rw [hid, hq] at hp
    cases hp
    rcases l.trailer_cases q.feed with ⟨-, -, hnone⟩ | ⟨t, ht, -, hmax, -⟩
    · exact absurd hfeed (hnone pending hpending)
    · refine ⟨t, ht, ?_⟩
      have hle := hmax pending hpending hfeed
      rwa [htrailer] at hle
  · obtain ⟨p, hp, t', ht', hle⟩ := htold.trails.covered q.id hloaded
    rw [hq] at hp
    cases hp
    rcases l.trailer_cases q.feed with ⟨-, hnone, -⟩ | ⟨t, ht, -, -, hmax⟩
    · rw [hnone] at ht'
      cases ht'
    · exact ⟨t, ht, hle.trans (hmax t' ht')⟩

/-! ## Derivations in order -/

/-- The object right before one in its run is held or recorded. -/
def KnowsPredecessor (h : History) (g : Loader sink) (p : Publication) : Prop :=
  ∃ q, h.published q.id = some q ∧ q.Precedes p ∧ g.Known q.id

/-- No object of the feed that is held or recorded is taken for the one right before: where that one is
held or recorded, each is of an earlier segment and none of another run is the one before; where it is
not, none is the one before, or there is a later one. -/
def Orderly (h : History) (g : Loader sink) (p : Publication) : Prop :=
  (g.KnowsPredecessor h p → ∀ q, h.published q.id = some q → g.Known q.id → q.feed = p.feed →
    q.seq < p.seq ∧ (q.seq + 1 = p.seq → q.run = p.run)) ∧
  (¬g.KnowsPredecessor h p →
    (∃ q, h.published q.id = some q ∧ g.Known q.id ∧ q.feed = p.feed ∧ p.seq ≤ q.seq) ∨
    ∀ q, h.published q.id = some q → g.Known q.id → q.feed = p.feed → q.seq + 1 ≠ p.seq)

/-- A loader derives an object in a run that meets the history. -/
def Deriving (h : History) (config : Config) (json : LineCodec Entry) (start g : Loader sink)
    (p : Publication) : Prop :=
  ∃ l v k published, Reached config json (Meets h config) start l ∧ Meets h config v l ∧
    l.Derives config json v k published p.manifest ∧
    published.archive = .ok (p.dropScope, p.dgs) ∧ h.published p.id = some p ∧
    g = (l.atTurn config json v k).loader

/-- The boundaries of an object are settled by the one right before it, and by nothing else. -/
structure Settled (h : History) (g : Loader sink) (p : Publication) : Prop where
  /-- It is derived with the trailer of the object right before it, if that is held or recorded. -/
  predecessor {q : Publication} : h.published q.id = some q → q.Precedes p → g.Known q.id →
    (g.input p.manifest p.dropScope).preceding = some q.trailer
  /-- Its first eras are certain then. -/
  certain {row : EraRow} : g.KnowsPredecessor h p →
    row ∈ (derive p.dgs (g.input p.manifest p.dropScope)).era → row.anchorCertain = 1
  /-- A trailer that passes the check is of its own run. -/
  own {t : SegmentTrailer} : (g.input p.manifest p.dropScope).preceding = some t →
    t.precedes p.seq → ∃ q, h.published q.id = some q ∧ q.Precedes p ∧ g.Known q.id ∧ q.trailer = t

theorem Deriving.told (hstart : start.Empty) (hg : Deriving h config json start g p) :
    g.Told h json ∧ h.published p.id = some p := by
  obtain ⟨l, v, k, published, hreached, hmeets, -, -, hp, rfl⟩ := hg
  exact ⟨(hreached.told hstart).atTurn hmeets k, hp⟩

theorem precedes_iff {n : ℕ} (hn : n < Loss.U64_MAX) :
    t.precedes n = true ↔ t.segmentSeq + 1 = n := by
  rw [SegmentTrailer.precedes, decide_eq_true_eq, Loss.saturatingAdd]
  omega

theorem settled (htold : g.Told h json) (hp : h.published p.id = some p)
    (horderly : g.Orderly h p) : g.Settled h p := by
  have hword := h.word hp
  have hpredecessor {q : Publication} (hq : h.published q.id = some q) (hprecedes : q.Precedes p)
      (hknown : g.Known q.id) : g.trailer p.feed = some q.trailer := by
    obtain ⟨t, ht, hle⟩ := htold.le_trailer hq hknown
    rw [hprecedes.1] at ht
    obtain ⟨q', hq', hknown', hfeed', rfl⟩ := htold.exists_of_trailer ht
    obtain ⟨hlt, hrun⟩ := horderly.1 ⟨q, hq, hprecedes, hknown⟩ q' hq' hknown' hfeed'
    have hseq := hprecedes.2.2
    rw [Publication.segmentSeq_trailer] at hle
    have hid := h.distinct hq hq' (hprecedes.1.trans hfeed'.symm)
      (hprecedes.2.1.trans (hrun (by omega)).symm) (by omega)
    rw [hid] at hq
    cases hq.symm.trans hq'
    exact ht
  constructor
  · exact hpredecessor
  · rintro row ⟨q, hq, hprecedes, hknown⟩ hrow
    refine certain_of_precedes (hpredecessor hq hprecedes hknown) ?_ hrow
    exact (precedes_iff hword).mpr hprecedes.2.2
  · intro t ht hadjacent
    have ht : g.trailer p.feed = some t := ht
    obtain ⟨q, hq, hknown, hfeed, rfl⟩ := htold.exists_of_trailer ht
    have hseq : q.seq + 1 = p.seq := (precedes_iff hword).mp hadjacent
    refine ⟨q, hq, ⟨hfeed, ?_, hseq⟩, hknown, rfl⟩
    by_cases hpred : g.KnowsPredecessor h p
    · exact (horderly.1 hpred q hq hknown hfeed).2 hseq
    · rcases horderly.2 hpred with ⟨q', hq', hknown', hfeed', hle⟩ | hnone
      · obtain ⟨t', ht', hle'⟩ := htold.le_trailer hq' hknown'
        rw [hfeed'] at ht'
        cases ht'.symm.trans ht
        rw [Publication.segmentSeq_trailer] at hle'
        omega
      · exact absurd hseq (hnone q hq hknown hfeed)

/-- What a derivation reads of the trailer before it, in order. -/
theorem adjacent_input (hp : h.published p.id = some p) (hsettled : g.Settled h p)
    (hsettled' : g'.Settled h p) (hknows : g'.KnowsPredecessor h p ↔ g.KnowsPredecessor h p) :
    adjacent (g'.input p.manifest p.dropScope) = adjacent (g.input p.manifest p.dropScope) := by
  have hword := h.word hp
  have hfilter {g : Loader sink} (hsettled : g.Settled h p) (hnone : ¬g.KnowsPredecessor h p) :
      (g.input p.manifest p.dropScope).preceding.filter (fun t ↦ t.precedes p.seq) = none := by
    cases hpreceding : (g.input p.manifest p.dropScope).preceding with
    | none => rfl
    | some t =>
        rw [Option.filter_some, if_neg]
        intro ht
        obtain ⟨q, hq, hprecedes, hknown, -⟩ := hsettled.own hpreceding ht
        exact hnone ⟨q, hq, hprecedes, hknown⟩
  by_cases hpred : g.KnowsPredecessor h p
  · obtain ⟨q, hq, hprecedes, hknown⟩ := hpred
    obtain ⟨q', hq', hprecedes', hknown'⟩ := hknows.mpr ⟨q, hq, hprecedes, hknown⟩
    have hseq := hprecedes.2.2.trans hprecedes'.2.2.symm
    have hid := h.distinct hq hq' (hprecedes.1.trans hprecedes'.1.symm)
      (hprecedes.2.1.trans hprecedes'.2.1.symm) (Nat.add_right_cancel hseq)
    rw [hid] at hq
    cases hq.symm.trans hq'
    have heq : g'.trailer p.feed = g.trailer p.feed :=
      (hsettled'.predecessor hq' hprecedes' hknown').trans
        (hsettled.predecessor hq' hprecedes hknown).symm
    exact congrArg (fun preceding ↦ adjacent ⟨p.manifest, p.dropScope, preceding, .archive⟩) heq
  · have heq := (hfilter hsettled' (mt hknows.mp hpred)).trans (hfilter hsettled hpred).symm
    exact congrArg (fun preceding ↦ (⟨p.manifest, p.dropScope, preceding, .archive⟩ : DeriveInput)) heq

/-- In every run, an object that is derived in order is settled by the one right before it, and gets the
same rows when it is derived again in order, where that one is known both times or neither time. -/
theorem boundaries_settled (hstart : start.Empty) (hg : Deriving h config json start g p)
    (horderly : g.Orderly h p) :
    g.Settled h p ∧ ∀ g', Deriving h config json start g' p → g'.Orderly h p →
      (g'.KnowsPredecessor h p ↔ g.KnowsPredecessor h p) →
      derive p.dgs (g'.input p.manifest p.dropScope) =
        derive p.dgs (g.input p.manifest p.dropScope) := by
  obtain ⟨htold, hp⟩ := hg.told hstart
  have hsettled := settled htold hp horderly
  refine ⟨hsettled, fun g' hg' horderly' hknows ↦ derive_congr p.dgs ?_⟩
  exact adjacent_input hp hsettled (settled (hg'.told hstart).1 hp horderly') hknows

end Loader

/-! ## A recorder that is started again -/

/-- An object with one datagram. -/
def segmentOf (run seq : ℕ) (key : String) : Publication where
  run := run
  manifest := ⟨"a", "b", "c", "d", key, "e", seq, 0⟩
  dropScope := .portRole
  dgs := [.read .mktdata ⟨1, 0, 5000⟩ (.ofWord 1 0)]

/-- The objects of two runs of a recorder, two of each. -/
def twoRuns : List Publication :=
  [segmentOf 1 0 "10-20-0", segmentOf 1 1 "20-30-1", segmentOf 2 0 "40-50-0", segmentOf 2 1 "50-60-1"]

def twoRunsHistory : History where
  published id := twoRuns.find? (·.id = id)
  id_eq h := by simpa using List.find?_some h
  distinct := by
    intro id id' p p' hp hp' hfeed hrun hseq
    have key : ∀ p ∈ twoRuns, ∀ p' ∈ twoRuns, p.feed = p'.feed → p.run = p'.run → p.seq = p'.seq →
        p.id = p'.id := by decide
    have hid : p.id = id := by simpa using List.find?_some hp
    have hid' : p'.id = id' := by simpa using List.find?_some hp'
    rw [← hid, ← hid']
    exact key p (List.mem_of_find?_eq_some hp) p' (List.mem_of_find?_eq_some hp') hfeed hrun hseq
  word := by
    intro id p hp
    have key : ∀ p ∈ twoRuns, p.seq < Loss.U64_MAX := by decide
    exact key p (List.mem_of_find?_eq_some hp)

theorem published_twoRuns : ∀ p ∈ twoRuns, twoRunsHistory.published p.id = some p := by
  decide +kernel

def Publication.stored (p : Publication) (startNs : ℕ) : Published where
  stem := p.manifest.objectKey
  startNs := startNs
  compressed := .file
  plain := .nothing
  scanned := .found p.manifest
  manifest := some p.manifest
  readable := true
  archive := .ok (p.dropScope, p.dgs)
  events := true

/-- A pass that meets all of them. -/
def twoRunsVisit : Visit where
  nowNs := 0
  directory := some [.directory "d" (some
    [.manifest ((segmentOf 1 0 "10-20-0").stored 10), .manifest ((segmentOf 1 1 "20-30-1").stored 20),
      .manifest ((segmentOf 2 0 "40-50-0").stored 40),
      .manifest ((segmentOf 2 1 "50-60-1").stored 50)])]
  stop _ := false
  append _ := (.written, 0)
  compaction := .done

theorem candidates_twoRuns : everyFeed.candidates twoRunsVisit.directory =
    [⟨(segmentOf 1 0 "10-20-0").stored 10, ["d", "10-20-0.pcapng.zst"]⟩,
      ⟨(segmentOf 1 1 "20-30-1").stored 20, ["d", "20-30-1.pcapng.zst"]⟩,
      ⟨(segmentOf 2 0 "40-50-0").stored 40, ["d", "40-50-0.pcapng.zst"]⟩,
      ⟨(segmentOf 2 1 "50-60-1").stored 50, ["d", "50-60-1.pcapng.zst"]⟩] := rfl

theorem meets_twoRuns : Loader.Meets twoRunsHistory everyFeed twoRunsVisit emptyLoader := by
  constructor
  case clean => exact fun _ ↦ trivial
  case published =>
    rw [candidates_twoRuns]
    intro c hc m dropScope dgs hm harchive
    simp only [List.mem_cons, List.not_mem_nil, or_false] at hc
    rcases hc with rfl | rfl | rfl | rfl
    · cases hm
      cases harchive
      exact ⟨1, published_twoRuns (segmentOf 1 0 "10-20-0") (by simp [twoRuns])⟩
    · cases hm
      cases harchive
      exact ⟨1, published_twoRuns (segmentOf 1 1 "20-30-1") (by simp [twoRuns])⟩
    · cases hm
      cases harchive
      exact ⟨2, published_twoRuns (segmentOf 2 0 "40-50-0") (by simp [twoRuns])⟩
    · cases hm
      cases harchive
      exact ⟨2, published_twoRuns (segmentOf 2 1 "50-60-1") (by simp [twoRuns])⟩

/-- The pass comes to derive the object at one of its turns. -/
theorem deriving_twoRuns {p : Publication} {k startNs : ℕ} {path : List String}
    (hturn : (emptyLoader.turns everyFeed twoRunsVisit)[k]? = some k)
    (hc : (everyFeed.candidates twoRunsVisit.directory)[k]? = some ⟨p.stored startNs, path⟩)
    (hover : (emptyLoader.atTurn everyFeed entryJson twoRunsVisit k).ended = false)
    (hp : p ∈ twoRuns) :
    Loader.Deriving twoRunsHistory everyFeed entryJson emptyLoader
      (emptyLoader.atTurn everyFeed entryJson twoRunsVisit k).loader p := by
  refine ⟨emptyLoader, twoRunsVisit, k, p.stored startNs, .start, meets_twoRuns,
    ⟨k, ⟨p.stored startNs, path⟩, hturn, hc, rfl, rfl, hover, ?_⟩, rfl,
    published_twoRuns p hp, rfl⟩
  rintro (hstop | ⟨hmax, -⟩)
  · cases hstop
  · exact hmax rfl

theorem empty_emptyLoader : emptyLoader.Empty := ⟨.inl rfl, rfl⟩

/-- The second object of the first run is derived behind the first one. -/
theorem orderly_twoRuns :
    ((emptyLoader.atTurn everyFeed entryJson twoRunsVisit 1).loader.KnowsPredecessor twoRunsHistory
      (segmentOf 1 1 "20-30-1")) ∧
    (emptyLoader.atTurn everyFeed entryJson twoRunsVisit 1).loader.Orderly twoRunsHistory
      (segmentOf 1 1 "20-30-1") := by
  have hknows : (emptyLoader.atTurn everyFeed entryJson twoRunsVisit 1).loader.KnowsPredecessor
      twoRunsHistory (segmentOf 1 1 "20-30-1") :=
    ⟨segmentOf 1 0 "10-20-0", published_twoRuns _ (by simp [twoRuns]), ⟨rfl, rfl, rfl⟩,
      .inr (by decide +kernel)⟩
  have hheld : (emptyLoader.atTurn everyFeed entryJson twoRunsVisit 1).loader.heldIds = [] := by
    decide +kernel
  have hloaded : (emptyLoader.atTurn everyFeed entryJson twoRunsVisit 1).loader.ledger.loaded =
      [(segmentOf 1 0 "10-20-0").id] := by decide +kernel
  refine ⟨hknows, fun _ q hq hknown _ ↦ ?_, fun hnot ↦ absurd hknows hnot⟩
  rw [Loader.Known, hheld, hloaded] at hknown
  rcases hknown with hknown | hknown
  · cases hknown
  · rw [List.mem_singleton.mp hknown, published_twoRuns _ (by simp [twoRuns])] at hq
    cases hq
    exact ⟨Nat.zero_lt_one, fun _ ↦ rfl⟩

theorem boundaries_settled_second :
    (emptyLoader.atTurn everyFeed entryJson twoRunsVisit 1).loader.Settled twoRunsHistory
      (segmentOf 1 1 "20-30-1") :=
  (Loader.boundaries_settled empty_emptyLoader
    (deriving_twoRuns (by decide +kernel) rfl (by decide +kernel) (by simp [twoRuns]))
    orderly_twoRuns.2).1

/-- The second object of the second run is derived when the first one is recorded, and its era is not
certain: the trailer consulted is the one of the first run's second object. -/
theorem second_run_unsettled :
    Loader.Deriving twoRunsHistory everyFeed entryJson emptyLoader
      (emptyLoader.atTurn everyFeed entryJson twoRunsVisit 3).loader (segmentOf 2 1 "50-60-1") ∧
    (emptyLoader.atTurn everyFeed entryJson twoRunsVisit 3).loader.KnowsPredecessor twoRunsHistory
      (segmentOf 2 1 "50-60-1") ∧
    (derive (segmentOf 2 1 "50-60-1").dgs
      ((emptyLoader.atTurn everyFeed entryJson twoRunsVisit 3).loader.input
        (segmentOf 2 1 "50-60-1").manifest .portRole)).era.map EraRow.anchorCertain = [0] :=
  ⟨deriving_twoRuns (by decide +kernel) rfl (by decide +kernel) (by simp [twoRuns]),
    ⟨segmentOf 2 0 "40-50-0", published_twoRuns _ (by simp [twoRuns]), ⟨rfl, rfl, rfl⟩,
      .inr (by decide +kernel)⟩, by decide +kernel⟩

end EdgeMulticast.Load
