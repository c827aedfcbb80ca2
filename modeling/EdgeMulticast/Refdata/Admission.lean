import EdgeMulticast.Refdata.Registry

/-!
# What an offer does

One spec lemma for each way through `Registry.offer`: what is refused leaves the registry as it is or
faults its record, and what is admitted is identified, published and settled.  What is written down
touches nothing that is published.
-/

namespace EdgeMulticast.Refdata

open EdgeMulticast.Lib
open EdgeMulticast.Codec
open EdgeMulticast.Lowering (Instrument InstrumentRef InstrumentTable)

namespace Registry

variable {r : Registry}

/-! ## What is written down -/

/-- What is published, and the configuration, are as they were. -/
def Unpublished (r r' : Registry) : Prop :=
  r'.toPublication = r.toPublication ∧ r'.config = r.config

theorem Unpublished.refl (r : Registry) : Unpublished r r := ⟨rfl, rfl⟩

theorem writeBase_unpublished (minting : Option Minting) (forgetting : List RecallKey) :
    Unpublished r (r.writeBase minting forgetting).2 := by
  rw [writeBase]
  split
  · exact ⟨rfl, rfl⟩
  · exact ⟨rfl, rfl⟩

theorem writeDown_unpublished (m : Minting) : Unpublished r (r.writeDown m).2 := by
  rw [writeDown]
  split
  · split
    · exact ⟨rfl, rfl⟩
    · exact ⟨rfl, rfl⟩
  · exact writeBase_unpublished _ _

theorem persist_unpublished (m : Minting) : Unpublished r (r.persist m).2 := by
  have hwritten := writeDown_unpublished (r := r) m
  rw [persist]
  split
  next h =>
      rw [h] at hwritten
      exact hwritten
  next h =>
      rw [h] at hwritten
      exact hwritten

theorem identify_unpublished (instrumentId : ℕ) (key : RecallKey) (symbol : SymbolKey) :
    Unpublished r (r.identify instrumentId key symbol).2 := by
  rw [identify]
  split
  · split
    · exact .refl r
    next nextId _ =>
        have hpersist := persist_unpublished (r := r) ⟨instrumentId, key, symbol, nextId⟩
        split
        next h =>
            rw [h] at hpersist
            exact hpersist
        next h =>
            rw [h] at hpersist
            exact hpersist
  next minted _ =>
      split
      · exact .refl r
      · have hpersist := persist_unpublished (r := r) ⟨instrumentId, key, minted.symbol, r.nextId⟩
        split
        next h =>
            rw [h] at hpersist
            exact hpersist
        next h =>
            rw [h] at hpersist
            exact hpersist

theorem compact_unpublished (opening : Bool) (nowS : ℕ) :
    Unpublished r (r.compact opening nowS).2 := by
  rw [compact]
  generalize (if opening || r.compactionDue then r.forgettable nowS else []) = forgetting
  split
  · exact .refl r
  · have hwritten := writeBase_unpublished (r := r) none forgetting
    split
    next h =>
        rw [h] at hwritten
        exact hwritten
    next h =>
        rw [h] at hwritten
        exact hwritten
    next h =>
        rw [h] at hwritten
        exact hwritten

theorem settle_unpublished (nowS : ℕ) : Unpublished r (r.settle nowS) := by
  have hcompact := compact_unpublished (r := r) false nowS
  rw [settle]
  split
  next h =>
      rw [h] at hcompact
      exact hcompact
  next h =>
      rw [h] at hcompact
      exact hcompact

/-! ## Admission -/

variable {key : RecallKey} {symbol : SymbolKey} {shard : ℕ} {spec : InstrumentSpec} {unixNs : ℕ}

/-- The registry behind an admission, that has identified the instrument. -/
def withPublished (r : Registry) (key : RecallKey) (shard : ℕ) (composed : Composition)
    (unixNs : ℕ) : Registry :=
  { r with toPublication := (r.toPublication.publish key shard composed).2 }.settle (nowS unixNs)

inductive AdmitSpec (r : Registry) (key : RecallKey) (symbol : SymbolKey) (shard : ℕ)
    (spec : InstrumentSpec) (unixNs : ℕ) : Except Refusal InstrumentRef → Registry → Prop
  | refused (refusal : Refusal) : AdmitSpec r key symbol shard spec unixNs (.error refusal) r
  | unpersisted (refusal : Refusal) (r' : Registry) (fault : r.fault = none)
      (failed : r.identify (r.resolveId key symbol) key symbol = (.error refusal, r')) :
      AdmitSpec r key symbol shard spec unixNs (.error refusal) r'
  | admitted (composed : Composition) (r' : Registry) (fault : r.fault = none)
      (composes : compose spec (UInt32.ofNat (r.resolveId key symbol)) r.config.sourceId =
        .ok composed)
      (nonzero : r.resolveId key symbol = 0 → r.minted[key]?.isNone && r.config.idAllocation.isDerived)
      (available : r.unavailable key (r.resolveId key symbol) = false)
      (identified : r.identify (r.resolveId key symbol) key symbol = (.ok (), r')) :
      AdmitSpec r key symbol shard spec unixNs (.ok (r'.toPublication.publish key shard composed).1)
        (r'.withPublished key shard composed unixNs)

theorem admit_spec : AdmitSpec r key symbol shard spec unixNs
    (r.admitInstrument key symbol shard spec unixNs).1
    (r.admitInstrument key symbol shard spec unixNs).2 := by
  rw [admitInstrument]
  split
  · exact .refused _
  · split
    · exact .refused _
    next hfault =>
        split
        · exact .refused _
        · dsimp only
          split
          · exact .refused _
          next hzero =>
              split
              · exact .refused _
              next composed hcomposed =>
                  split
                  · exact .refused _
                  next havailable =>
                      have hfault := Option.not_isSome_iff_eq_none.mp hfault
                      split
                      next hidentify => exact .unpersisted _ _ hfault hidentify
                      next hidentify =>
                          refine .admitted composed _ hfault hcomposed ?_
                            (Bool.eq_false_iff.mpr havailable) hidentify
                          intro hid
                          rw [not_and, Bool.not_eq_true, Bool.not_eq_false'] at hzero
                          exact hzero hid

/-- An instrument that the record holds as published is admitted without a write. -/
theorem admit_recorded {m : Minted} {composed : Composition} (hphase : r.phase ≠ .shuttingDown) (hfault : r.fault = none)
    (hroom : r.published < r.config.selection.limit r.phase) (hminted : r.minted[key]? = some m)
    (hrecorded : m.recordedPublished = true) (hid : m.instrumentId ≠ 0)
    (hcompose : compose spec (UInt32.ofNat m.instrumentId) r.config.sourceId = .ok composed)
    (hdue : r.compactionDue = false) :
    r.admitInstrument key symbol shard spec unixNs =
      (.ok (r.toPublication.publish key shard composed).1,
      { r with toPublication := (r.toPublication.publish key shard composed).2 }) := by
  have hresolve : r.resolveId key symbol = m.instrumentId := by rw [resolveId, hminted]
  have hidentify : r.identify m.instrumentId key symbol = (.ok (), r) := by
    rw [identify, hminted]
    exact if_pos hrecorded
  have havailable : r.unavailable key m.instrumentId = false := by
    rw [unavailable, hminted]
    rfl
  have hsettle (p : Publication) : ({ r with toPublication := p } : Registry).settle (nowS unixNs) =
      { r with toPublication := p } := by
    have hdue' : ({ r with toPublication := p } : Registry).compactionDue = false := hdue
    rw [settle, compact, hdue']
    rfl
  rw [admitInstrument, if_neg hphase, hfault, Option.isSome_none, if_neg Bool.false_ne_true,
    if_neg (Nat.not_le_of_lt hroom), hresolve]
  dsimp only
  rw [if_neg fun h ↦ hid h.1, hcompose]
  dsimp only
  rw [havailable, if_neg Bool.false_ne_true, hidentify]
  dsimp only
  rw [hsettle]

inductive OfferSpec (r : Registry) (name : String) (spec : InstrumentSpec) (unixNs : ℕ) :
    Except Refusal InstrumentRef → Registry → Prop
  | refused (refusal : Refusal) : OfferSpec r name spec unixNs (.error refusal) r
  | reoffered (shard : ℕ) (key : RecallKey) (handle : InstrumentRef)
      (index : r.shardIndex name = some shard) (recalls : r.recallKey spec = .ok key)
      (published : r.handles[key]? = some handle) :
      OfferSpec r name spec unixNs (.ok handle) { r with
        toPublication := r.toPublication.reoffer r.config.sourceId handle shard spec }
  | offered (shard : ℕ) (key : RecallKey) (result : Except Refusal InstrumentRef) (r' : Registry)
      (index : r.shardIndex name = some shard) (recalls : r.recallKey spec = .ok key)
      (unpublished : r.handles[key]? = none)
      (admits : AdmitSpec r key (symbolField spec.symbol).1 shard spec unixNs result r') :
      OfferSpec r name spec unixNs result r'

theorem offer_spec (name : String) : OfferSpec r name spec unixNs
    (r.offer name spec unixNs).1 (r.offer name spec unixNs).2 := by
  rw [offer]
  split
  · exact .refused _
  next shard hshard =>
      split
      · exact .refused _
      next key hkey =>
          split
          next handle hhandle => exact .reoffered shard key handle hshard hkey hhandle
          next hhandle => exact .offered shard key _ _ hshard hkey hhandle admit_spec

theorem withdraw_publication (r : Registry) (instrument : InstrumentRef) (unixNs : ℕ) :
    (r.withdraw instrument unixNs).toPublication = r.toPublication.withdraw instrument := by
  rw [withdraw, Publication.withdraw]
  split
  · rfl
  · rfl

end Registry

end EdgeMulticast.Refdata

/-!
## What opening does

A registry is opened on a directory that holds no record, or on a record that replays and that its
configuration continues.  Either way nothing is published yet.
-/

namespace EdgeMulticast.Refdata

namespace Registry

variable {config : RegistryConfig} {store : Store} {openedNs rewriteNs : ℕ}

/-- The ways through `open`. -/
inductive OpenSpec (config : RegistryConfig) (store : Store) (openedNs rewriteNs : ℕ) :
    Except RefdataError Registry → Store → Prop
  | refused (error : RefdataError) : OpenSpec config store openedNs rewriteNs (.error error) store
  | unrecovered (loaded : Loaded) (error : StateError) (r : Registry)
      (configured : config.check = .ok ())
      (replays : store.record.map StateRecord.load = some (.ok loaded))
      (continues : loaded.record.check config = .ok ())
      (failed : (ofRecord config store (some loaded) (stampS openedNs)).recover loaded
        (nowS rewriteNs) = (.error error, r)) :
      OpenSpec config store openedNs rewriteNs (.error (.state error)) r.store
  | recovered (loaded : Loaded) (r : Registry) (configured : config.check = .ok ())
      (replays : store.record.map StateRecord.load = some (.ok loaded))
      (continues : loaded.record.check config = .ok ())
      (recovers : (ofRecord config store (some loaded) (stampS openedNs)).recover loaded
        (nowS rewriteNs) = (.ok (), r)) :
      OpenSpec config store openedNs rewriteNs (.ok r) r.store
  | created (configured : config.check = .ok ()) (absent : store.record = none) :
      OpenSpec config store openedNs rewriteNs
        (.ok (ofRecord config store none (stampS openedNs))) store

theorem open_spec : OpenSpec config store openedNs rewriteNs
    («open» config store openedNs rewriteNs).1 («open» config store openedNs rewriteNs).2 := by
  rw [«open»]
  split
  · exact .refused _
  next hconfigured =>
      split
      · exact .refused _
      · exact .refused _
      · split
        · exact .refused _
        · split
          · exact .refused _
          next loaded hloaded =>
              split
              · exact .refused _
              next hcontinues =>
                  split
                  next hrecover => exact .unrecovered loaded _ _ hconfigured hloaded hcontinues hrecover
                  next hrecover => exact .recovered loaded _ hconfigured hloaded hcontinues hrecover
          next habsent => exact .created hconfigured (Option.map_eq_none_iff.mp habsent)

/-- A rewrite and a truncation touch nothing that is published. -/
theorem recover_unpublished (r : Registry) (loaded : Loaded) (nowS : ℕ) :
    Unpublished r (r.recover loaded nowS).2 := by
  have hwritten := writeBase_unpublished (r := r) none (r.forgettable nowS)
  have hcompact := compact_unpublished (r := r) true nowS
  rw [recover]
  -- the record is rewritten, or it is not
  generalize hrewritten : (if loaded.needsRewrite r.config.identity = true ∨
    loaded.record.allocation ≠ r.config.idAllocation then _ else r.compact true nowS) = rewritten
  have hrewritten : Unpublished r rewritten.2 := by
    rw [← hrewritten]
    split
    · split
      next h =>
          rw [h] at hwritten
          exact hwritten
      next h =>
          rw [h] at hwritten
          exact hwritten
    · exact hcompact
  split
  · exact hrewritten
  · split
    · split
      · exact hrewritten
      · exact hrewritten
    · exact hrewritten

/-- Nothing is published by a registry that was just opened. -/
theorem open_publication {r : Registry} {store' : Store}
    (h : «open» config store openedNs rewriteNs = (.ok r, store')) :
    r.config = config ∧ r.toPublication =
      { sets := config.shards.map fun _ ↦ { pacer := { schedule := config.schedule } } } := by
  have hspec : OpenSpec config store openedNs rewriteNs _ _ := open_spec
  rw [h] at hspec
  generalize ((Except.ok r : Except RefdataError Registry), store').2 = s at hspec
  cases hspec with
  | recovered loaded r configured replays continues recovers =>
      have hsame := recover_unpublished (ofRecord config store (some loaded) (stampS openedNs)) loaded
        (nowS rewriteNs)
      rw [recovers] at hsame
      exact ⟨hsame.2, hsame.1⟩
  | created configured absent => exact ⟨rfl, rfl⟩

end Registry

end EdgeMulticast.Refdata
