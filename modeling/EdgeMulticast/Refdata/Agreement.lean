import EdgeMulticast.Refdata.Manifest

/-!
# The published set over a process

What a poll does to the Manifest Seq of a shard, and the views of the published set, in every state
that a process reaches from a registry it opened.  A handle names a slot in 32 bits and no slot is used
twice, so the views agree up to the admission behind the last slot that a handle can name, and not
beyond it.
-/

namespace EdgeMulticast.Refdata

open EdgeMulticast.Lib
open EdgeMulticast.Codec
open EdgeMulticast.Lowering (Instrument InstrumentRef InstrumentTable)

/-- The sets of a registry, marked or not, are as many as they were. -/
theorem Publication.Marks.length_sets {p p' : Publication} {P : ℕ → Prop} (h : p.Marks p' P) :
    p'.sets.length = p.sets.length := by
  have hsome (s : ℕ) : s < p'.sets.length ↔ s < p.sets.length := by
    have hmap (l : List PublishedSet) (f : PublishedSet → UInt16 × Bool) :
        s < l.length ↔ (l[s]?.map f).isSome := by
      rw [Option.isSome_map, isSome_getElem?]
    rw [hmap _ PublishedSet.mark]
    by_cases hs : P s
    · rw [h.changed s hs, ← hmap]
    · rw [h.same s hs, ← hmap]
  exact Nat.le_antisymm (Nat.le_of_not_lt fun hlt ↦ Nat.lt_irrefl _ ((hsome _).mp hlt))
    (Nat.le_of_not_lt fun hlt ↦ Nat.lt_irrefl _ ((hsome _).mpr hlt))

namespace Registry

variable {r : Registry}

/-- How many instruments the process has admitted: no slot of its table is used twice. -/
def admissions (r : Registry) : ℕ := r.instruments.slots.length

/-- The configuration stays, there is a set for each of its shards, and admissions only grow. -/
structure Continues (r r' : Registry) : Prop where
  config : r'.config = r.config
  sets : r'.sets.length = r.sets.length
  admissions : r.admissions ≤ r'.admissions

theorem Continues.refl (r : Registry) : r.Continues r := ⟨rfl, rfl, Nat.le_refl _⟩

theorem Continues.trans {r₁ r₂ r₃ : Registry} (h : r₁.Continues r₂) (h' : r₂.Continues r₃) :
    r₁.Continues r₃ :=
  ⟨h'.config.trans h.config, h'.sets.trans h.sets, h.admissions.trans h'.admissions⟩

theorem continues_offer (name : String) (spec : InstrumentSpec) (unixNs : ℕ) :
    r.Continues (r.offer name spec unixNs).2 := by
  have hsets := (marks_offer (r := r) name spec unixNs).length_sets
  have hspec : OfferSpec r name spec unixNs _ _ := offer_spec name
  generalize (r.offer name spec unixNs).1 = result at hspec
  generalize (r.offer name spec unixNs).2 = r' at hspec hsets ⊢
  cases hspec with
  | refused refusal => exact .refl r
  | reoffered shard key handle index recalls published =>
      refine ⟨rfl, hsets, Nat.le_of_eq ?_⟩
      rw [admissions, admissions]
      dsimp only
      rcases r.toPublication.reoffer_cases r.config.sourceId handle shard spec with
        heq | ⟨entry, definition, -, -, -, heq⟩
      · rw [heq]
      · rw [heq, Publication.setChanged_eq]
        rfl
  | offered shard key result r' index recalls unpublished admits =>
      have hsame := identify_unpublished (r := r) (r.resolveId key (symbolField spec.symbol).1) key
        (symbolField spec.symbol).1
      cases admits with
      | refused refusal => exact .refl r
      | unpersisted refusal r' fault failed =>
          rw [failed] at hsame
          refine ⟨hsame.2, hsets, Nat.le_of_eq ?_⟩
          rw [admissions, admissions, hsame.1]
      | admitted composed r' fault composes nonzero available identified =>
          rw [identified] at hsame
          obtain ⟨hpublication, hconfig⟩ := settle_unpublished (r := { r' with
            toPublication := (r'.toPublication.publish key shard composed).2 }) (nowS unixNs)
          refine ⟨hconfig.trans hsame.2, hsets, ?_⟩
          rw [admissions, admissions, withPublished, hpublication]
          dsimp only
          rw [Publication.length_table_publish, hsame.1]
          exact Nat.le_succ _

theorem continues_sinkCall (c : SinkCall) : r.Continues (r.sinkCall c) := by
  have hsets := (marks_sinkCall (r := r) c).length_sets
  cases c with
  | list name spec unixNs => exact continues_offer name spec unixNs
  | delist handle unixNs =>
      have htable : r.admissions = (r.withdraw handle unixNs).admissions := by
        rw [admissions, admissions, withdraw_publication]
        exact (Publication.length_table_withdraw handle).symm
      have hconfig : (r.withdraw handle unixNs).config = r.config := by
        rw [withdraw]
        split
        · rfl
        · rfl
      exact ⟨hconfig, hsets, Nat.le_of_eq htable⟩
  | strike handle stated =>
      refine ⟨rfl, hsets, Nat.le_of_eq ?_⟩
      change r.instruments.slots.length =
        (r.toPublication.stateStrike r.config.sourceId handle stated).2.instruments.slots.length
      rcases r.toPublication.stateStrike_cases r.config.sourceId handle stated with
        heq | ⟨entry, -, ⟨strike, heq⟩ | ⟨current, fixingTimeNs, -, heq⟩⟩
      · rw [heq]
      · rw [heq]
        rfl
      · rw [heq]
        rfl

theorem continues_polled (drain : List SinkCall) : r.Continues (r.polled drain) := by
  induction drain using List.reverseRecOn with
  | nil => exact ⟨rfl, rfl, Nat.le_refl _⟩
  | append_singleton drain c ih =>
      rw [polled_snoc]
      exact ih.trans (continues_sinkCall c)

theorem continues_poll (drain : List SinkCall) : r.Continues (r.poll drain) := by
  obtain ⟨hconfig, hsets, hadmissions⟩ := continues_polled (r := r) drain
  exact ⟨hconfig, (List.length_map _).trans hsets, hadmissions⟩

theorem continues_call (c : RegistryCall) : r.Continues (r.call c) := by
  cases c with
  | poll drain => exact continues_poll drain
  | sink c => exact continues_sinkCall c
  | definitionTick shard monotonicNs =>
      change r.Continues (r.definitionTick shard monotonicNs).2
      rw [definitionTick]
      split
      · exact .refl r
      next index _ =>
          refine ⟨rfl, (Publication.marks_definitionTick index monotonicNs).length_sets,
            Nat.le_of_eq ?_⟩
          rw [admissions, admissions]
          dsimp only
          rw [Publication.definitionTick]
          split
          · rfl
          · rfl
  | strikeChanges shard =>
      change r.Continues (r.strikeChanges shard).2
      rw [strikeChanges]
      split
      · exact .refl r
      next index _ =>
          refine ⟨rfl, (Publication.marks_strikeChanges r.config.schedule index).length_sets,
            Nat.le_of_eq ?_⟩
          rw [admissions, admissions]
          dsimp only
          rw [Publication.strikeChanges]
          split
          · rfl
          · rfl
  | seedingComplete => exact ⟨rfl, rfl, Nat.le_refl _⟩
  | beginShutdown => exact ⟨rfl, rfl, Nat.le_refl _⟩

/-! ## The views agree in every state -/

/-- Every view of the published set says the same. -/
structure Agree (r : Registry) : Prop where
  shards : r.published = (r.sets.map PublishedSet.published).sum
  occupied : r.published = held r.slots
  handles : r.published = r.handles.size
  table : r.published = r.instruments.len
  on : ∀ name shard, r.shardIndex name = some shard →
    r.publishedOn name = some (holding (fun e ↦ e.shard = shard) r.slots) ∧
      r.strikesPendingOn name = some (holding (Published.pendingOn shard) r.slots)

/-- The views are consistent, and there is a set for every shard. -/
structure Kept (r : Registry) : Prop where
  consistent : r.toPublication.Consistent
  sets : r.sets.length = r.config.shards.length

theorem shardIndex_lt {name : String} {shard : ℕ} (h : r.shardIndex name = some shard) :
    shard < r.config.shards.length :=
  (List.findIdx?_eq_some_iff_findIdx_eq.mp h).1

theorem Kept.set_of_index (h : r.Kept) {name : String} {shard : ℕ}
    (hindex : r.shardIndex name = some shard) : ∃ set, r.sets[shard]? = some set :=
  ⟨_, List.getElem?_eq_getElem ((shardIndex_lt hindex).trans_eq h.sets.symm)⟩

theorem Kept.agree (h : r.Kept) : r.Agree where
  shards := by
    have hcount (i : Fin r.sets.length) :
        r.sets[i].published = holding (fun e ↦ e.shard = (i : ℕ)) r.slots :=
      (h.consistent.counts i r.sets[i] (List.getElem?_eq_getElem i.isLt)).published
    rw [h.consistent.published, ← sum_holding h.consistent.shards, Finset.sum_range,
      ← Fin.sum_univ_fun_getElem]
    exact Finset.sum_congr rfl fun i _ ↦ (hcount i).symm
  occupied := h.consistent.published
  handles := h.consistent.published.trans h.consistent.size.symm
  table := by
    rw [InstrumentTable.len, InstrumentTable.held_eq, h.consistent.published, held_eq_count,
      held_eq_count, h.consistent.table]
  on name shard hindex := by
    obtain ⟨set, hset⟩ := h.set_of_index hindex
    have hcounts := h.consistent.counts shard set hset
    rw [publishedOn, strikesPendingOn, hindex, Option.bind_some, Option.bind_some, hset]
    exact ⟨congrArg some hcounts.published, congrArg some hcounts.pending⟩

/-- A call of the sink keeps the views consistent, while handles name the slots. -/
theorem kept_sinkCall (h : r.Kept) (c : SinkCall) (hroom : (r.sinkCall c).admissions ≤ 2 ^ 32) :
    (r.sinkCall c).Kept := by
  have hcontinues := continues_sinkCall (r := r) c
  refine ⟨?_, hcontinues.sets.trans (h.sets.trans (congrArg (fun c ↦ c.shards.length)
    hcontinues.config.symm))⟩
  cases c with
  | list name spec unixNs =>
      have hspec : OfferSpec r name spec unixNs _ _ := offer_spec name
      change (r.offer name spec unixNs).2.admissions ≤ 2 ^ 32 at hroom
      change (r.offer name spec unixNs).2.toPublication.Consistent
      generalize (r.offer name spec unixNs).1 = result at hspec
      generalize (r.offer name spec unixNs).2 = r' at hspec hroom ⊢
      cases hspec with
      | refused refusal => exact h.consistent
      | reoffered shard key handle index recalls published =>
          exact Publication.consistent_reoffer h.consistent _ _ _ _
      | offered shard key result r' index recalls unpublished admits =>
          have hsame := identify_unpublished (r := r) (r.resolveId key (symbolField spec.symbol).1)
            key (symbolField spec.symbol).1
          cases admits with
          | refused refusal => exact h.consistent
          | unpersisted refusal r' fault failed =>
              rw [failed] at hsame
              rw [hsame.1]
              exact h.consistent
          | admitted composed r' fault composes nonzero available identified =>
              rw [identified] at hsame
              rw [withPublished, (settle_unpublished _).1, hsame.1]
              rw [admissions, withPublished, (settle_unpublished _).1, hsame.1] at hroom
              dsimp only at hroom
              rw [Publication.length_table_publish, h.consistent.length_table] at hroom
              exact Publication.consistent_publish h.consistent hroom unpublished
                ((shardIndex_lt index).trans_eq h.sets.symm) composed
  | delist handle unixNs =>
      change (r.withdraw handle unixNs).toPublication.Consistent
      rw [withdraw_publication]
      exact Publication.consistent_withdraw h.consistent handle
  | strike handle stated => exact Publication.consistent_stateStrike h.consistent _ handle stated

theorem kept_polled (h : r.Kept) (drain : List SinkCall)
    (hroom : (r.polled drain).admissions ≤ 2 ^ 32) : (r.polled drain).Kept := by
  change (run sinkCall { r with polling := true } drain).Kept
  refine run_bounded drain ?_ (fun _ c ↦ (continues_sinkCall c).admissions)
    (fun _ c hkept ↦ kept_sinkCall hkept c) hroom
  exact ⟨⟨h.consistent.keys, h.consistent.table, h.consistent.key_of_handle,
    h.consistent.handle_of_key, h.consistent.published, h.consistent.size, h.consistent.shards,
    h.consistent.counts⟩, h.sets⟩

/-- Whatever a process calls keeps the views consistent, while handles name the slots. -/
theorem kept_call (h : r.Kept) (c : RegistryCall) (hroom : (r.call c).admissions ≤ 2 ^ 32) :
    (r.call c).Kept := by
  have hcontinues := continues_call (r := r) c
  refine ⟨?_, hcontinues.sets.trans (h.sets.trans (congrArg (fun c ↦ c.shards.length)
    hcontinues.config.symm))⟩
  cases c with
  | poll drain => exact Publication.consistent_endPoll (kept_polled h drain hroom).consistent
  | sink c => exact (kept_sinkCall h c hroom).consistent
  | definitionTick shard monotonicNs =>
      change (r.definitionTick shard monotonicNs).2.toPublication.Consistent
      rw [definitionTick]
      split
      · exact h.consistent
      · exact Publication.consistent_definitionTick h.consistent _ monotonicNs
  | strikeChanges shard =>
      change (r.strikeChanges shard).2.toPublication.Consistent
      rw [strikeChanges]
      split
      · exact h.consistent
      · exact Publication.consistent_strikeChanges h.consistent _ _
  | seedingComplete =>
      exact ⟨h.consistent.keys, h.consistent.table, h.consistent.key_of_handle,
        h.consistent.handle_of_key, h.consistent.published, h.consistent.size, h.consistent.shards,
        h.consistent.counts⟩
  | beginShutdown =>
      exact ⟨h.consistent.keys, h.consistent.table, h.consistent.key_of_handle,
        h.consistent.handle_of_key, h.consistent.published, h.consistent.size, h.consistent.shards,
        h.consistent.counts⟩

theorem kept_run (h : r.Kept) (calls : List RegistryCall)
    (hroom : (run call r calls).admissions ≤ 2 ^ 32) : (run call r calls).Kept :=
  run_bounded calls h (fun _ c ↦ (continues_call c).admissions) (fun _ c hkept ↦ kept_call hkept c) hroom

theorem settled_run (h : r.Settled) (calls : List RegistryCall) : (run call r calls).Settled :=
  run_induction calls h fun _ c _ hsettled ↦ settled_call hsettled c

theorem continues_run (calls : List RegistryCall) : r.Continues (run call r calls) :=
  run_induction calls (.refl r) fun _ c _ hcontinues ↦ hcontinues.trans (continues_call c)

variable {config : RegistryConfig} {store store' : Store} {openedNs rewriteNs : ℕ}

/-- A registry that was just opened publishes nothing. -/
theorem kept_open (h : «open» config store openedNs rewriteNs = (.ok r, store')) :
    r.Kept ∧ r.Settled := by
  obtain ⟨hconfig, hpublication⟩ := open_publication h
  have hset {s : ℕ} {set : PublishedSet} (hset : r.sets[s]? = some set) :
      set = { pacer := { schedule := config.schedule } } := by
    rw [hpublication, List.getElem?_map] at hset
    obtain ⟨-, -, hset⟩ := Option.map_eq_some_iff.mp hset
    exact hset.symm
  refine ⟨⟨?_, ?_⟩, ⟨by rw [hpublication], ?_⟩⟩
  · have hcounts (s : ℕ) (set : PublishedSet) (h : r.sets[s]? = some set) :
        set.Counts s ([] : List (Option Published)) := by
      rw [hset h]
      exact ⟨rfl, rfl⟩
    rw [hpublication] at hcounts ⊢
    exact {
      keys := rfl
      table := rfl
      key_of_handle := fun key handle hhandle ↦ by cases Std.ExtTreeMap.getElem?_empty.symm.trans hhandle
      handle_of_key := fun i key hkey ↦ by cases (slotAt_of_length_le (Nat.zero_le i)).symm.trans hkey
      published := rfl
      size := Std.ExtTreeMap.size_empty
      shards := fun e he ↦ by cases he
      counts := hcounts }
  · rw [hpublication, hconfig]
    exact List.length_map _
  · intro s m hm
    obtain ⟨set, hfound, rfl⟩ := Option.map_eq_some_iff.mp hm
    rw [hset hfound]
    rfl

/-- The manifest tracks the published set.  In every run of a registry that was opened, a poll advances
the Manifest Seq of a shard by one step if it touches the shard, and leaves it otherwise; and as long as
the process has admitted no more instruments than handles can name, the views of the published set
agree, between calls and within a poll. -/
theorem manifest_tracks (h : «open» config store openedNs rewriteNs = (.ok r, store'))
    (calls : List RegistryCall) (drain : List SinkCall) :
    (∀ name shard, r.shardIndex name = some shard →
      ∃ seq, (run call r calls).manifestSeq name = some seq ∧ nextManifestSeq seq ≠ 0 ∧
        ((run call r calls).Touched drain shard →
          ((run call r calls).poll drain).manifestSeq name = some (nextManifestSeq seq)) ∧
        (¬(run call r calls).Touched drain shard →
          ((run call r calls).poll drain).manifestSeq name = some seq)) ∧
      (((run call r calls).polled drain).admissions ≤ 2 ^ 32 →
        (run call r calls).Agree ∧ ((run call r calls).polled drain).Agree) := by
  obtain ⟨hkept, hsettled⟩ := kept_open h
  have hcontinues := continues_run (r := r) calls
  have hsettled := settled_run hsettled calls
  constructor
  · intro name shard hindex
    generalize run call r calls = reached at hcontinues hsettled ⊢
    have hreached : reached.shardIndex name = some shard := by
      rw [shardIndex, hcontinues.config]
      exact hindex
    have hpolled : (reached.poll drain).shardIndex name = some shard := by
      rw [shardIndex, (continues_poll drain).config]
      exact hreached
    obtain ⟨set, hset⟩ : ∃ set, reached.sets[shard]? = some set :=
      ⟨_, List.getElem?_eq_getElem (((shardIndex_lt hindex).trans_eq hkept.sets.symm).trans_eq
        hcontinues.sets.symm)⟩
    obtain ⟨htouched, huntouched⟩ := poll_advances hsettled drain shard
    have hseq (sets : List PublishedSet) : sets[shard]?.map PublishedSet.manifestSeq =
        (sets[shard]?.map PublishedSet.mark).map Prod.fst := by
      rw [Option.map_map]
      rfl
    rw [manifestSeq, manifestSeq, hreached, hpolled, Option.bind_some, Option.bind_some, hseq, hseq,
      hset]
    rw [hset] at htouched huntouched
    refine ⟨set.manifestSeq, rfl, ?_, fun hthere ↦ ?_, fun hnot ↦ ?_⟩
    · rw [nextManifestSeq]
      split
      next => decide
      next hlast =>
          intro hzero
          refine hlast (UInt16.toNat_inj.mp ?_)
          have hsum := congrArg UInt16.toNat hzero
          rw [UInt16.toNat_add] at hsum
          have hlt := set.manifestSeq.toNat_lt
          change (set.manifestSeq.toNat + 1) % 65536 = 0 at hsum
          change set.manifestSeq.toNat = 65535
          omega
    · rw [htouched hthere]
      rfl
    · rw [huntouched hnot]
      rfl
  · intro hroom
    have hreached := kept_run hkept calls ((continues_polled drain).admissions.trans hroom)
    exact ⟨hreached.agree, (kept_polled hreached drain hroom).agree⟩

/-- A process of one shard. -/
def soleConfig : RegistryConfig where
  sourceId := ⟨1, by decide⟩
  shards := [⟨"main", 0⟩]
  selection := ⟨10, 10⟩
  schedule := ⟨30000000000, 12, 1, 1200, by decide, by decide⟩

/-- The registry of a new directory. -/
def soleOpened : Registry := ofRecord soleConfig {} none 0

theorem open_sole : «open» soleConfig {} 0 0 = (.ok soleOpened, {}) := rfl

def soleSpec (symbol : Byte) : InstrumentSpec where
  symbol := [symbol]
  assetClass := .cryptoSpot
  priceExponent := 0
  qtyExponent := 0
  marketModel := .clob
  tickSize := .fixed 1 0
  lotSize := .fixed 1 0
  settleType := .cash
  priceBound := .unbounded

def soleKey (symbol : Byte) : RecallKey := (symbolField [symbol]).1.toList

def listing (symbol : Byte) : SinkCall := .list "main" (soleSpec symbol) 0

/-- The second instrument is listed, and delisted from the slot it takes. -/
def relisting (n : ℕ) : RegistryCall := .poll [listing 66, .delist (.fromAdmission n) 0]

/-- The first instrument is listed, and the second over and over. -/
def relistings (laps : ℕ) : List RegistryCall :=
  [.poll [listing 65], relisting 1] ++ (List.range laps).map (fun i ↦ relisting (i + 2)) ++
    [.poll [listing 66]]

/-- A manifest of a process that lists one instrument: its poll advances the shard by one step. -/
theorem manifest_tracks_example : (soleOpened.poll [listing 65]).manifestSeq "main" = some 1 ∧
    (soleOpened.polled [listing 65]).Agree := by
  obtain ⟨hpoll, hagree⟩ := manifest_tracks open_sole [] [listing 65]
  obtain ⟨seq, hseq, -, htouched, -⟩ := hpoll "main" 0 rfl
  obtain rfl : 0 = seq := Option.some.inj hseq
  constructor
  · have hadmitted : (soleOpened.offer "main" (soleSpec 65) 0).1 = .ok ⟨0⟩ := by decide +kernel
    exact htouched ⟨[], listing 65, List.prefix_refl _,
      .admission rfl rfl Std.ExtTreeMap.getElem?_empty hadmitted⟩
  · refine (hagree ?_).2
    have hone : (soleOpened.polled [listing 65]).admissions = 1 := by decide +kernel
    exact hone.trans_le (by decide)

/-! ## Past the last handle

An instrument that is listed and delisted over and over takes a new slot each time.  At the admission
behind the last slot that a handle can name, the handle names the first slot again, and what was
published there is gone.
-/

/-- A process that has admitted `n` instruments and publishes the first of them. -/
structure Cycled (r : Registry) (entry : Published) (n : ℕ) : Prop where
  kept : r.Kept
  config : r.config = soleConfig
  phase : r.phase = .seeding
  fault : r.fault = none
  admissions : r.admissions = n
  published : r.published = 1
  first : slotAt r.slots 0 = some entry
  unpublished : r.handles[soleKey 66]? = none
  minted : ∃ m, r.minted[soleKey 66]? = some m ∧ m.instrumentId = 2 ∧ m.recordedPublished = true
  due : r.compactionDue = false

theorem soleSpec_compose : ∃ composed,
    compose (soleSpec 66) (UInt32.ofNat 2) soleConfig.sourceId = .ok composed := by
  have hok : (compose (soleSpec 66) (UInt32.ofNat 2) soleConfig.sourceId).isOk = true := by
    decide +kernel
  cases hcompose : compose (soleSpec 66) (UInt32.ofNat 2) soleConfig.sourceId with
  | ok composed => exact ⟨composed, rfl⟩
  | error refusal =>
      rw [hcompose] at hok
      cases hok

/-- Listing the second instrument publishes it. -/
theorem Cycled.lists {entry : Published} {n : ℕ} (h : r.Cycled entry n) : ∃ composed,
    ({ r with polling := true } : Registry).sinkCall (listing 66) =
      { r with toPublication :=
          (({ r with polling := true } : Registry).toPublication.publish (soleKey 66) 0 composed).2 } := by
  obtain ⟨m, hminted, hid, hrecorded⟩ := h.minted
  obtain ⟨composed, hcompose⟩ := soleSpec_compose
  rw [← h.config, ← hid] at hcompose
  refine ⟨composed, ?_⟩
  have hindex : ({ r with polling := true } : Registry).shardIndex "main" = some 0 := by
    rw [shardIndex]
    dsimp only
    rw [h.config]
    rfl
  have hrecall : ({ r with polling := true } : Registry).recallKey (soleSpec 66) =
      .ok (soleKey 66) := by
    rw [recallKey]
    dsimp only
    rw [h.config]
    rfl
  change (({ r with polling := true } : Registry).offer "main" (soleSpec 66) 0).2 = _
  rw [offer, hindex]
  dsimp only
  rw [hrecall]
  dsimp only
  rw [h.unpublished]
  dsimp only
  rw [admit_recorded (r := { r with polling := true }) (m := m) ?_ h.fault ?_ hminted hrecorded
    ?_ hcompose h.due]
  · dsimp only
    rw [h.phase]
    decide
  · dsimp only
    rw [h.phase, h.published, h.config]
    decide
  · rw [hid]
    decide

/-- Delisting it leaves its slot empty. -/
theorem Cycled.relists {entry : Published} {n : ℕ} (h : r.Cycled entry n) (hn : n < 2 ^ 32) :
    (r.call (relisting n)).Cycled entry (n + 1) := by
  obtain ⟨composed, hlists⟩ := h.lists
  have hlength : r.slots.length = n := h.kept.consistent.length_table.symm.trans h.admissions
  have hroom : r.slots.length < 2 ^ 32 := hlength.trans_lt hn
  have hconsistent : ({ r with polling := true } : Registry).toPublication.Consistent :=
    ⟨h.kept.consistent.keys, h.kept.consistent.table, h.kept.consistent.key_of_handle,
      h.kept.consistent.handle_of_key, h.kept.consistent.published, h.kept.consistent.size,
      h.kept.consistent.shards, h.kept.consistent.counts⟩
  -- what is published when the instrument is delisted
  let listed : Registry := { r with toPublication :=
    (({ r with polling := true } : Registry).toPublication.publish (soleKey 66) 0 composed).2 }
  obtain ⟨hslot, hkey, hslots, hpublished, hphase, hhandles⟩ : listed.slot _ = _ ∧ _ :=
    Publication.withdraw_publish (soleKey 66) 0 composed hconsistent hroom rfl
  dsimp only at hslot hkey hslots hpublished hphase hhandles
  rw [hlength] at hslot hkey hslots hpublished hphase hhandles
  have hcall : r.call (relisting n) = { listed.withdraw (.fromAdmission n) 0 with
      toPublication := (listed.toPublication.withdraw (.fromAdmission n)).endPoll } := by
    change r.poll [listing 66, .delist (.fromAdmission n) 0] = _
    rw [poll]
    change ({ (({ r with polling := true } : Registry).sinkCall (listing 66)).withdraw
      (.fromAdmission n) 0 with toPublication := ((({ r with polling := true } : Registry).sinkCall
        (listing 66)).withdraw (.fromAdmission n) 0).toPublication.endPoll } : Registry) = _
    rw [hlists, withdraw_publication]
  have hwithdraw : listed.withdraw (.fromAdmission n) 0 = { listed with
      toPublication := listed.toPublication.withdraw (.fromAdmission n)
      minted := listed.minted.modify (soleKey 66) fun m ↦ { m with lastPublishedS := stampS 0 } } := by
    rw [withdraw, hslot, ← hkey]
  rw [hwithdraw] at hcall
  have hcontinues := continues_call (r := r) (relisting n)
  have hadmissions : (r.call (relisting n)).admissions = n + 1 := by
    rw [hcall, Registry.admissions]
    change (listed.toPublication.withdraw _).instruments.slots.length = n + 1
    rw [Publication.length_table_withdraw]
    change (Publication.publish _ (soleKey 66) 0 composed).2.instruments.slots.length = n + 1
    rw [Publication.length_table_publish]
    exact congrArg Nat.succ h.admissions
  constructor
  · exact kept_call h.kept (relisting n) (hadmissions.trans_le hn)
  · exact hcontinues.config.trans h.config
  · rw [hcall]
    exact hphase.trans h.phase
  · rw [hcall]
    exact h.fault
  · exact hadmissions
  · rw [hcall]
    exact hpublished.trans h.published
  · rw [hcall]
    change slotAt (listed.toPublication.withdraw (.fromAdmission n)).slots 0 = some entry
    rw [hslots, slotAt, List.getElem?_append_left (lt_of_slotAt h.first)]
    exact h.first
  · rw [hcall]
    exact hhandles
  · obtain ⟨m, hminted, hid, hrecorded⟩ := h.minted
    refine ⟨{ m with lastPublishedS := stampS 0 }, ?_, hid, hrecorded⟩
    rw [hcall]
    change (r.minted.modify (soleKey 66) _)[soleKey 66]? = _
    rw [Std.ExtTreeMap.getElem?_modify_self, hminted]
    rfl
  · rw [hcall]
    exact h.due

/-- The process once it publishes the first instrument and has listed the second. -/
theorem cycled_start : ∃ entry,
    (run call soleOpened [.poll [listing 65], relisting 1]).Cycled entry 2 := by
  have hroom : (run call soleOpened [.poll [listing 65], relisting 1]).admissions = 2 := by
    decide +kernel
  have hcontinues := continues_run (r := soleOpened) [.poll [listing 65], relisting 1]
  have hfirst : (slotAt (run call soleOpened [.poll [listing 65], relisting 1]).slots 0).isSome := by
    decide +kernel
  obtain ⟨entry, hentry⟩ := Option.isSome_iff_exists.mp hfirst
  refine ⟨entry, ?_⟩
  constructor
  · exact kept_run (kept_open open_sole).1 _ (hroom.trans_le (by decide))
  · exact hcontinues.config
  · decide +kernel
  · decide +kernel
  · exact hroom
  · decide +kernel
  · exact hentry
  · decide +kernel
  · have hminted : (run call soleOpened [.poll [listing 65], relisting 1]).minted[soleKey 66]?.map
        (fun m ↦ (m.instrumentId, m.recordedPublished)) = some (2, true) := by
      decide +kernel
    obtain ⟨m, hm, hsame⟩ := Option.map_eq_some_iff.mp hminted
    exact ⟨m, hm, congrArg Prod.fst hsame, congrArg Prod.snd hsame⟩
  · decide +kernel

theorem Cycled.run {entry : Published} (h : r.Cycled entry 2) (laps : ℕ)
    (hlaps : laps + 2 ≤ 2 ^ 32) : (Lib.run call r
      ((List.range laps).map fun i ↦ relisting (i + 2))).Cycled entry (laps + 2) := by
  induction laps with
  | zero => exact h
  | succ laps ih =>
      rw [List.range_succ, List.map_append]
      change (Lib.run call r (_ ++ [relisting (laps + 2)])).Cycled entry _
      rw [run_snoc]
      exact (ih (Nat.le_of_succ_le hlaps)).relists hlaps

/-- Behind the last handle, listing the second instrument takes the slot of the first. -/
theorem Cycled.overwrites {entry : Published} (h : r.Cycled entry (2 ^ 32)) : ∃ definition,
    (r.call (.poll [listing 66])).slots = r.slots.set 0 (some { shard := 0, definition }) ∧
      (r.call (.poll [listing 66])).published = r.published + 1 := by
  obtain ⟨composed, hlists⟩ := h.lists
  have htable : r.instruments.slots.length = 2 ^ 32 := h.admissions
  have hfirst : InstrumentRef.fromAdmission (2 ^ 32) = ⟨0⟩ := by decide
  have hcall : r.call (.poll [listing 66]) = { r with toPublication :=
      (({ r with polling := true } : Registry).toPublication.publish (soleKey 66) 0
        composed).2.endPoll } := by
    change r.poll [listing 66] = _
    rw [poll]
    change ({ ({ r with polling := true } : Registry).sinkCall (listing 66) with toPublication :=
      (({ r with polling := true } : Registry).sinkCall (listing 66)).toPublication.endPoll } :
        Registry) = _
    rw [hlists]
  refine ⟨composed.definition, ?_, ?_⟩
  · rw [hcall]
    change (Publication.publish _ (soleKey 66) 0 composed).2.slots = _
    rw [Publication.slots_publish]
    dsimp only
    have hlength : 0 + 1 - r.slots.length = 0 := Nat.sub_eq_zero_of_le (lt_of_slotAt h.first)
    rw [htable, hfirst]
    change putSlot r.slots 0 _ = _
    rw [putSlot, resizeTo, hlength, List.replicate_zero, List.append_nil]
  · rw [hcall]
    exact Publication.published_publish _ 0 composed

theorem not_agree_relistings {laps : ℕ} (hlaps : laps + 2 = 2 ^ 32) :
    ¬(run call soleOpened (relistings laps)).Agree := by
  intro hagree
  obtain ⟨entry, hstart⟩ := cycled_start
  have hcycled := hstart.run laps (Nat.le_of_eq hlaps)
  rw [hlaps] at hcycled
  obtain ⟨definition, hslots, hpublished⟩ := hcycled.overwrites
  have hoccupied := hagree.occupied
  rw [relistings, run_snoc, run_append, hpublished, hslots, held_set_some hcycled.first,
    ← hcycled.kept.agree.occupied] at hoccupied
  exact Nat.succ_ne_self _ hoccupied

/-- The views of the published set differ once a process has admitted more instruments than handles
can name. -/
theorem views_part : «open» soleConfig {} 0 0 = (.ok soleOpened, {}) ∧
    ¬(run call soleOpened (relistings (2 ^ 32 - 2))).Agree :=
  ⟨open_sole, not_agree_relistings (by decide)⟩

end Registry

end EdgeMulticast.Refdata
