import EdgeMulticast.Lib.Run
import EdgeMulticast.Refdata.Views

/-!
# The manifest

`Touches` is what changes the set of a shard: an admission, a withdrawal or an accepted restatement.
A poll advances the Manifest Seq of a shard by one step exactly when something in it does, and the
views of the published set agree in every state that a process reaches, as long as it has admitted no
more instruments than handles can name.
-/

namespace EdgeMulticast.Refdata

open EdgeMulticast.Lib
open EdgeMulticast.Codec
open EdgeMulticast.Lowering (Instrument InstrumentRef InstrumentTable)

/-! ## What changes the set of a shard -/

/-- What a manifest says of a set, and whether the poll has changed it. -/
def PublishedSet.mark (set : PublishedSet) : UInt16 × Bool := (set.manifestSeq, set.changed)

/-- What an adapter's call does to the sets: one change, of the shards of `P`. -/
structure Publication.Marks (p p' : Publication) (P : ℕ → Prop) : Prop where
  polling : p'.polling = p.polling
  changed : ∀ s, P s → p'.sets[s]?.map PublishedSet.mark = p.sets[s]?.map fun set ↦ (p.change set).mark
  same : ∀ s, ¬P s → p'.sets[s]?.map PublishedSet.mark = p.sets[s]?.map PublishedSet.mark

/-- An admission, a withdrawal or an accepted restatement of a shard. -/
inductive Touches (r : Registry) (shard : ℕ) : SinkCall → Prop
  | admission {name : String} {spec : InstrumentSpec} {unixNs : ℕ} {key : RecallKey}
      {handle : InstrumentRef} (index : r.shardIndex name = some shard)
      (recalls : r.recallKey spec = .ok key) (unpublished : r.handles[key]? = none)
      (admitted : (r.offer name spec unixNs).1 = .ok handle) :
      Touches r shard (.list name spec unixNs)
  | restatement {name : String} {spec : InstrumentSpec} {unixNs : ℕ} {key : RecallKey}
      {handle : InstrumentRef} {entry entry' : Published} (recalls : r.recallKey spec = .ok key)
      (published : r.handles[key]? = some handle) (before : r.slot handle = some entry)
      (after : (r.offer name spec unixNs).2.slot handle = some entry')
      (restated : entry'.definition ≠ entry.definition) (there : entry.shard = shard) :
      Touches r shard (.list name spec unixNs)
  | withdrawal {handle : InstrumentRef} {unixNs : ℕ} {entry : Published}
      (published : r.slot handle = some entry) (there : entry.shard = shard) :
      Touches r shard (.delist handle unixNs)

namespace Publication

variable {p p' : Publication} {shard : ℕ} {P : ℕ → Prop}

theorem Marks.refl (h : ∀ s, ¬P s) : p.Marks p P where
  polling := rfl
  changed s hs := absurd hs (h s)
  same _ _ := rfl

theorem Marks.of_iff {Q : ℕ → Prop} (h : p.Marks p' P) (hiff : ∀ s, Q s ↔ P s) : p.Marks p' Q where
  polling := h.polling
  changed s hs := h.changed s ((hiff s).mp hs)
  same s hs := h.same s (mt (hiff s).mpr hs)

theorem mark_modify {sets : List PublishedSet} {f : PublishedSet → PublishedSet}
    (hf : ∀ set, (f set).mark = set.mark) (s : ℕ) :
    (sets.modify shard f)[s]?.map PublishedSet.mark = sets[s]?.map PublishedSet.mark := by
  rw [List.getElem?_modify]
  cases sets[s]? with
  | none => rfl
  | some set =>
      refine congrArg some ?_
      split
      · exact hf set
      · rfl

/-- A change of a shard marks that shard, whatever else is done to the sets. -/
theorem marks_setChanged (hpolling : p'.polling = p.polling)
    (hmark : ∀ s : ℕ, p'.sets[s]?.map PublishedSet.mark = p.sets[s]?.map PublishedSet.mark) :
    p.Marks (p'.setChanged shard) (· = shard) := by
  -- a change depends on nothing else of a set
  let f (m : UInt16 × Bool) := if p.polling then (m.1, true) else (nextManifestSeq m.1, m.2)
  have hchange (q : Publication) (hq : q.polling = p.polling) (set : PublishedSet) :
      (q.change set).mark = f set.mark := by
    rw [change, hq]
    dsimp only [f]
    split
    · rfl
    · rfl
  rw [setChanged_eq]
  constructor
  · exact hpolling
  · rintro s rfl
    have hsame := congrArg (Option.map f) (hmark s)
    change (p'.sets.modify s _)[s]?.map _ = _
    rw [List.getElem?_modify]
    simp only [if_true, Option.map_eq_map, Option.map_map, Function.comp_def, hchange p' hpolling,
      hchange p rfl] at hsame ⊢
    exact hsame
  · intro s hs
    change (p'.sets.modify shard _)[s]?.map _ = _
    rw [List.getElem?_modify]
    simp only [if_neg (Ne.symm hs), id_map']
    exact hmark s

theorem marks_publish (key : RecallKey) (composed : Composition) :
    p.Marks (p.publish key shard composed).2 (· = shard) := by
  rw [publish]
  exact marks_setChanged (by rfl) (mark_modify fun set ↦ by rfl)

theorem marks_withdraw (instrument : InstrumentRef) : p.Marks (p.withdraw instrument)
    fun s ↦ ∃ entry, p.slot instrument = some entry ∧ entry.shard = s := by
  rw [withdraw]
  split
  next hslot =>
      refine .refl ?_
      rintro s ⟨entry, hentry, -⟩
      cases hslot.symm.trans hentry
  next entry hslot =>
      have hmarks (q : Publication) (hq : p.Marks (q.setChanged entry.shard) (· = entry.shard)) :
          p.Marks (q.setChanged entry.shard)
            fun s ↦ ∃ entry, p.slot instrument = some entry ∧ entry.shard = s := by
        refine hq.of_iff fun s ↦ ?_
        constructor
        · rintro ⟨found, hfound, rfl⟩
          rw [Option.some.inj (hfound.symm.trans hslot)]
        · intro hs
          exact ⟨entry, hslot, hs.symm⟩
      exact hmarks _ (marks_setChanged (by rfl) (mark_modify fun set ↦ by rfl))

/-- A strike leaves every manifest as it is. -/
theorem marks_stateStrike (sourceId : Lowering.SourceId) (instrument : InstrumentRef)
    (stated : Strike) : p.Marks (p.stateStrike sourceId instrument stated).2 fun _ ↦ False := by
  rcases p.stateStrike_cases sourceId instrument stated with
    heq | ⟨entry, -, ⟨strike, heq⟩ | ⟨current, fixingTimeNs, -, heq⟩⟩
  · rw [heq]
    exact .refl fun _ ↦ id
  · rw [heq]
    exact ⟨rfl, fun s hs ↦ hs.elim, fun s _ ↦ mark_modify (fun set ↦ by rfl) s⟩
  · rw [heq]
    exact ⟨rfl, fun s hs ↦ hs.elim, fun s _ ↦ rfl⟩

/-- What goes out leaves every manifest as it is. -/
theorem marks_definitionTick (shard monotonicNs : ℕ) :
    p.Marks (p.definitionTick shard monotonicNs).2 fun _ ↦ False := by
  rw [definitionTick]
  split
  next => exact .refl fun _ ↦ id
  next set hset =>
      obtain ⟨cursor, pacer, hnext⟩ : ∃ cursor pacer,
          (set.tick shard monotonicNs p.slots).2.1 = { set with cursor, pacer } :=
        PublishedSet.tick_set
      refine ⟨rfl, fun s hs ↦ hs.elim, fun s _ ↦ ?_⟩
      change (p.sets.set shard (set.tick shard monotonicNs p.slots).2.1)[s]?.map _ = _
      rw [hnext, List.getElem?_set]
      split
      next hs =>
          subst hs
          rw [if_pos (List.getElem?_eq_some_iff.mp hset).1, hset]
          rfl
      next => rfl

theorem marks_strikeChanges (schedule : CycleSchedule) (shard : ℕ) :
    p.Marks (p.strikeChanges schedule shard).2 fun _ ↦ False := by
  rw [strikeChanges]
  split
  next => exact .refl fun _ ↦ id
  next => exact ⟨rfl, fun s hs ↦ hs.elim, fun s _ ↦ mark_modify (fun set ↦ by rfl) s⟩

end Publication

namespace Registry

variable {r : Registry}

theorem marks_offer (name : String) (spec : InstrumentSpec) (unixNs : ℕ) :
    r.toPublication.Marks (r.offer name spec unixNs).2.toPublication
      fun s ↦ Touches r s (.list name spec unixNs) := by
  have hspec : OfferSpec r name spec unixNs _ _ := offer_spec name
  generalize hresult : (r.offer name spec unixNs).1 = result at hspec
  generalize hafter : (r.offer name spec unixNs).2 = r' at hspec ⊢
  -- what leaves the slots as they are and admits nothing touches nothing
  have hquiet (hsame : r'.toPublication = r.toPublication)
      (hadmitted : ∀ key, r.recallKey spec = .ok key → r.handles[key]? = none →
        ∀ handle, result ≠ .ok handle) (s : ℕ) : ¬Touches r s (.list name spec unixNs) := by
    intro htouches
    cases htouches with
    | admission index recalls unpublished admitted =>
        exact hadmitted _ recalls unpublished _ (hresult.symm.trans admitted)
    | restatement recalls published before after restated there =>
        rw [hafter, hsame, before] at after
        exact restated (congrArg Published.definition (Option.some.inj after)).symm
  cases hspec with
  | refused refusal =>
      exact .refl (hquiet rfl fun key _ _ handle herror ↦ by cases herror)
  | reoffered shard key handle index recalls published =>
      rcases r.toPublication.reoffer_cases r.config.sourceId handle shard spec with
        heq | ⟨entry, definition, hslot, hshard, hsame, heq⟩
      · dsimp only at hquiet ⊢
        rw [heq]
        refine .refl (hquiet heq fun key' hrecalls hnone _ _ ↦ ?_)
        obtain rfl := Except.ok.inj (recalls.symm.trans hrecalls)
        cases published.symm.trans hnone
      · dsimp only
        rw [heq]
        refine (Publication.marks_setChanged (by rfl) fun s ↦ by rfl).of_iff fun s ↦ ?_
        constructor
        · intro htouches
          cases htouches with
          | admission index' recalls' unpublished admitted =>
              obtain rfl := Except.ok.inj (recalls.symm.trans recalls')
              cases published.symm.trans unpublished
          | restatement recalls' published' before after restated there =>
              obtain rfl := Except.ok.inj (recalls.symm.trans recalls')
              obtain rfl := Option.some.inj (published.symm.trans published')
              obtain rfl := Option.some.inj (hslot.symm.trans before)
              rw [← there, hshard]
        · rintro rfl
          have hrestated : (r.offer name spec unixNs).2.slot handle =
              some { entry with definition } := by
            rw [hafter]
            dsimp only
            rw [heq, Publication.setChanged_eq]
            exact (slotAt_set _ _ _ _ (lt_of_slotAt hslot)).trans (if_pos rfl)
          refine .restatement recalls published hslot hrestated ?_ hshard
          intro hdefinition
          dsimp only at hdefinition
          rw [hdefinition, sameDefinition, decide_eq_true rfl] at hsame
          cases hsame
  | offered shard key result r' index recalls unpublished admits =>
      cases admits with
      | refused refusal =>
          exact .refl (hquiet rfl fun key _ _ handle herror ↦ by cases herror)
      | unpersisted refusal r' fault failed =>
          have hsame := identify_unpublished (r := r) (r.resolveId key (symbolField spec.symbol).1) key
            (symbolField spec.symbol).1
          rw [failed] at hsame
          dsimp only at hsame
          rw [hsame.1]
          exact .refl (hquiet hsame.1 fun key _ _ handle herror ↦ by cases herror)
      | admitted composed r' fault composes nonzero available identified =>
          have hsame := identify_unpublished (r := r) (r.resolveId key (symbolField spec.symbol).1) key
            (symbolField spec.symbol).1
          rw [identified] at hsame
          rw [withPublished, (settle_unpublished _).1, ← hsame.1]
          refine (Publication.marks_publish key composed).of_iff fun s ↦ ?_
          constructor
          · intro htouches
            cases htouches with
            | admission index' recalls' unpublished' admitted =>
                exact (Option.some.inj (index.symm.trans index')).symm
            | restatement recalls' published before after restated there =>
                obtain rfl := Except.ok.inj (recalls.symm.trans recalls')
                cases unpublished.symm.trans published
          · rintro rfl
            exact .admission index recalls unpublished hresult

/-- A call of the sink changes the shards that it touches, by one change. -/
theorem marks_sinkCall (c : SinkCall) :
    r.toPublication.Marks (r.sinkCall c).toPublication fun s ↦ Touches r s c := by
  cases c with
  | list name spec unixNs => exact marks_offer name spec unixNs
  | delist handle unixNs =>
      have hmarks := Publication.marks_withdraw (p := r.toPublication) handle
      change r.toPublication.Marks (r.withdraw handle unixNs).toPublication _
      rw [withdraw_publication]
      refine hmarks.of_iff fun s ↦ ?_
      constructor
      · intro htouches
        cases htouches with
        | withdrawal published there => exact ⟨_, published, there⟩
      · rintro ⟨entry, hslot, hshard⟩
        exact .withdrawal hslot hshard
  | strike handle stated =>
      refine (Publication.marks_stateStrike r.config.sourceId handle stated).of_iff fun s ↦ ?_
      refine ⟨fun htouches ↦ ?_, False.elim⟩
      cases htouches

/-! ## A poll -/

/-- Whether a call of a poll touches a shard. -/
def Touched (r : Registry) (drain : List SinkCall) (shard : ℕ) : Prop :=
  ∃ pre c, pre ++ [c] <+: drain ∧ Touches (r.polled pre) shard c

/-- No poll is under way, and none has left a shard to be advanced. -/
structure Settled (r : Registry) : Prop where
  polling : r.polling = false
  marks : ∀ (s : ℕ) m, r.sets[s]?.map PublishedSet.mark = some m → m.2 = false

theorem touched_snoc (drain : List SinkCall) (c : SinkCall) (s : ℕ) :
    r.Touched (drain ++ [c]) s ↔ r.Touched drain s ∨ Touches (r.polled drain) s c := by
  constructor
  · rintro ⟨pre, d, hpre, htouches⟩
    rcases List.prefix_concat_iff.mp hpre with heq | hshort
    · obtain ⟨rfl, hd⟩ := List.append_inj' heq rfl
      obtain rfl := List.singleton_inj.mp hd
      exact .inr htouches
    · exact .inl ⟨pre, d, hshort, htouches⟩
  · rintro (⟨pre, d, hpre, htouches⟩ | htouches)
    · exact ⟨pre, d, hpre.trans (List.prefix_append _ _), htouches⟩
    · exact ⟨drain, c, List.prefix_refl _, htouches⟩

theorem polled_snoc (drain : List SinkCall) (c : SinkCall) :
    r.polled (drain ++ [c]) = (r.polled drain).sinkCall c :=
  List.foldl_append

/-- A poll that is under way has marked the shards that it touched, and advanced none. -/
theorem polled_marks (drain : List SinkCall) :
    (r.polled drain).polling = true ∧ ∀ s,
      (r.Touched drain s → (r.polled drain).sets[s]?.map PublishedSet.mark =
        r.sets[s]?.map fun set ↦ (set.manifestSeq, true)) ∧
      (¬r.Touched drain s →
        (r.polled drain).sets[s]?.map PublishedSet.mark = r.sets[s]?.map PublishedSet.mark) := by
  induction drain using List.reverseRecOn with
  | nil =>
      refine ⟨rfl, fun s ↦ ⟨?_, fun _ ↦ rfl⟩⟩
      rintro ⟨pre, c, hpre, -⟩
      exact absurd (List.prefix_nil.mp hpre) (List.append_ne_nil_of_right_ne_nil _ (List.cons_ne_nil _ _))
  | append_singleton drain c ih =>
      obtain ⟨hpolling, ih⟩ := ih
      have hmarks := marks_sinkCall (r := r.polled drain) c
      rw [polled_snoc]
      refine ⟨hmarks.polling.trans hpolling, fun s ↦ ?_⟩
      rw [touched_snoc]
      obtain ⟨htouched, huntouched⟩ := ih s
      -- a change of a poll under way marks a set, and leaves its number
      have hchange (set : PublishedSet) :
          ((r.polled drain).toPublication.change set).mark = (set.mark.1, true) := by
        rw [Publication.change, if_pos hpolling]
        rfl
      have hmarked (hthere : Touches (r.polled drain) s c) :
          ((r.polled drain).sinkCall c).sets[s]?.map PublishedSet.mark =
            ((r.polled drain).sets[s]?.map PublishedSet.mark).map fun m ↦ (m.1, true) := by
        rw [hmarks.changed s hthere, Option.map_map]
        exact congrArg (fun f ↦ Option.map f _) (funext hchange)
      constructor
      · intro hor
        by_cases hthere : Touches (r.polled drain) s c
        · rw [hmarked hthere]
          by_cases hbefore : r.Touched drain s
          · rw [htouched hbefore, Option.map_map]
            rfl
          · rw [huntouched hbefore, Option.map_map]
            rfl
        · rw [hmarks.same s hthere]
          exact htouched (hor.resolve_right hthere)
      · intro hnot
        rw [hmarks.same s fun hthere ↦ hnot (.inr hthere)]
        exact huntouched fun hbefore ↦ hnot (.inl hbefore)

/-- The set of a shard when a poll ends. -/
theorem poll_marks (r : Registry) (drain : List SinkCall) (s : ℕ) :
    (r.poll drain).sets[s]?.map PublishedSet.mark =
      ((r.polled drain).sets[s]?.map PublishedSet.mark).map fun m ↦
        (if m.2 then nextManifestSeq m.1 else m.1, false) := by
  change ((r.polled drain).sets.map _)[s]?.map _ = _
  rw [List.getElem?_map, Option.map_map, Option.map_map]
  refine congrArg (fun f ↦ Option.map f _) (funext fun set ↦ ?_)
  rcases set with ⟨published, manifestSeq, changed, pacer, cursor, pending, owed⟩
  cases changed with
  | false => rfl
  | true => rfl

/-- A poll advances the shards that it touched, by one step each. -/
theorem poll_advances (h : r.Settled) (drain : List SinkCall) (s : ℕ) :
    (r.Touched drain s → (r.poll drain).sets[s]?.map PublishedSet.mark =
      r.sets[s]?.map fun set ↦ (nextManifestSeq set.manifestSeq, false)) ∧
    (¬r.Touched drain s →
      (r.poll drain).sets[s]?.map PublishedSet.mark = r.sets[s]?.map PublishedSet.mark) := by
  obtain ⟨htouched, huntouched⟩ := (polled_marks drain).2 s
  rw [poll_marks]
  constructor
  · intro hthere
    rw [htouched hthere, Option.map_map]
    rfl
  · intro hnot
    rw [huntouched hnot]
    cases hset : r.sets[s]?.map PublishedSet.mark with
    | none => rfl
    | some m =>
        have hfalse := h.marks s m hset
        refine congrArg some (Prod.ext ?_ hfalse.symm)
        change (if m.2 = true then nextManifestSeq m.1 else m.1) = m.1
        rw [hfalse]
        rfl

theorem settled_poll (drain : List SinkCall) : (r.poll drain).Settled where
  polling := rfl
  marks s m hm := by
    rw [poll_marks] at hm
    obtain ⟨-, -, rfl⟩ := Option.map_eq_some_iff.mp hm
    rfl

/-- A change outside a poll leaves nothing to be advanced. -/
theorem Settled.of_marks (h : r.Settled) {r' : Registry} {P : ℕ → Prop}
    (hmarks : r.toPublication.Marks r'.toPublication P) : r'.Settled := by
  refine ⟨hmarks.polling.trans h.polling, fun s m hm ↦ ?_⟩
  by_cases hthere : P s
  · rw [hmarks.changed s hthere] at hm
    obtain ⟨set, hset, rfl⟩ := Option.map_eq_some_iff.mp hm
    rw [Publication.change, if_neg (Bool.eq_false_iff.mp h.polling)]
    exact h.marks s set.mark (by rw [hset]; rfl)
  · exact h.marks s m ((hmarks.same s hthere).symm.trans hm)

theorem settled_call (h : r.Settled) (c : RegistryCall) : (r.call c).Settled := by
  cases c with
  | poll drain => exact settled_poll drain
  | sink c => exact h.of_marks (marks_sinkCall c)
  | definitionTick shard monotonicNs =>
      change (r.definitionTick shard monotonicNs).2.Settled
      rw [definitionTick]
      split
      · exact h
      next index _ =>
          let after := { r with
            toPublication := (r.toPublication.definitionTick index monotonicNs).2 }
          exact h.of_marks (show r.toPublication.Marks after.toPublication _ from
            Publication.marks_definitionTick index monotonicNs)
  | strikeChanges shard =>
      change (r.strikeChanges shard).2.Settled
      rw [strikeChanges]
      split
      · exact h
      next index _ =>
          let after := { r with
            toPublication := (r.toPublication.strikeChanges r.config.schedule index).2 }
          exact h.of_marks (show r.toPublication.Marks after.toPublication _ from
            Publication.marks_strikeChanges r.config.schedule index)
  | seedingComplete => exact ⟨h.polling, h.marks⟩
  | beginShutdown => exact ⟨h.polling, h.marks⟩

end Registry

end EdgeMulticast.Refdata
