import EdgeMulticast.Health.Observer

/-!
# Who is admitted to the instance map

What one datagram does to the map (`admit_spec`), and from it what holds over every run: the map is
bounded, a declared instance gives way to nobody undeclared, and a refusal is what a full scan would
have answered as long as the cached floor is a lower bound.

The floor stops being one when an undeclared instance is seen with a stamp before it.
-/

namespace EdgeMulticast.Health

open EdgeMulticast.Codec (DatagramHeader PortRole)
open EdgeMulticast.Lib
open EdgeMulticast.Recorder (ChannelInstance)
open Std

namespace HealthObserver

variable {cfg : Config} {o : HealthObserver} {σ : RangeOrder ChannelInstance} {now : ℕ}
  {declared : Bool} {key : ChannelInstance}

/-! ## Freeing a slot -/

/-- Whether an arrival may displace an instance. -/
def Eligible (cfg : Config) (now : ℕ) (declared : Bool) (state : InstanceState) : Prop :=
  if declared then state.declaredSource = false ∨ oldEnough cfg now state = true
  else state.declaredSource = false ∧ oldEnough cfg now state = true

/-- Whether a scan of the whole map finds an instance to displace. -/
def ScanFinds (cfg : Config) (o : HealthObserver) (now : ℕ) (declared : Bool) : Prop :=
  ∃ (k : ChannelInstance) (state : InstanceState),
    o.instances[k]? = some state ∧ Eligible cfg now declared state

/-- Nobody undeclared is held. -/
def AllDeclared (o : HealthObserver) : Prop :=
  ∀ (k : ChannelInstance) (state : InstanceState),
    o.instances[k]? = some state → state.declaredSource = true

theorem victim_none (h : victim cfg σ o now declared = none) : ¬ScanFinds cfg o now declared := by
  rintro ⟨k, state, hk, helig⟩
  rw [Eligible] at helig
  rw [victim] at h
  cases declared with
  | true =>
      rw [if_pos rfl] at h helig
      obtain ⟨hstranger, hquiet⟩ := Option.or_eq_none_iff.mp h
      have hdeclared := oldest_eq_none.mp hstranger k state hk
      have hrecent := oldest_eq_none.mp hquiet k state hk
      simp only [Bool.not_eq_false'] at hdeclared
      rw [hdeclared, Bool.true_and] at hrecent
      rcases helig with hflag | hold
      · rw [hdeclared] at hflag
        cases hflag
      · rw [hrecent] at hold
        cases hold
  | false =>
      rw [if_neg Bool.false_ne_true] at h helig
      have hkeep := oldest_eq_none.mp h k state hk
      rw [helig.1, helig.2] at hkeep
      cases hkeep

theorem victim_some (h : victim cfg σ o now declared = some key) :
    ∃ state, o.instances[key]? = some state ∧ Eligible cfg now declared state ∧
      (state.declaredSource = true → declared = true ∧ AllDeclared o) := by
  rw [victim] at h
  cases declared with
  | true =>
      rw [if_pos rfl] at h
      rcases Option.or_eq_some_iff.mp h with hstranger | ⟨hnone, hquiet⟩
      · obtain ⟨state, hk, hkeep, -⟩ := of_oldest hstranger
        rw [Bool.not_eq_true'] at hkeep
        refine ⟨state, hk, .inl hkeep, fun hflag ↦ ?_⟩
        rw [hkeep] at hflag
        cases hflag
      · obtain ⟨state, hk, hkeep, -⟩ := of_oldest hquiet
        refine ⟨state, hk, .inr (Bool.and_eq_true _ _ ▸ hkeep).2, fun _ ↦ ⟨rfl, ?_⟩⟩
        intro k' state' hk'
        have hflag := oldest_eq_none.mp hnone k' state' hk'
        rwa [Bool.not_eq_false'] at hflag
  | false =>
      rw [if_neg Bool.false_ne_true] at h
      obtain ⟨state, hk, hkeep, -⟩ := of_oldest h
      rw [Bool.and_eq_true, Bool.not_eq_true'] at hkeep
      refine ⟨state, hk, hkeep, fun hflag ↦ ?_⟩
      rw [hkeep.1] at hflag
      cases hflag

/-- The floor lies below every sighting of an undeclared instance. -/
def FloorHolds (floor : ℕ) (o : HealthObserver) : Prop :=
  ∀ (k : ChannelInstance) (state : InstanceState),
    o.instances[k]? = some state → state.declaredSource = false → floor ≤ state.lastSeenNs

theorem floorHolds_rescan (σ : RangeOrder ChannelInstance) (o : HealthObserver) (now : ℕ) :
    FloorHolds (o.rescan σ now).earliestUndeclaredLastSeenNs o := by
  intro k state hk hflag
  exact earliest_getD_le hk (by rw [hflag, Bool.not_false])

/-- What becomes of the map when a slot is asked for. -/
inductive MakesRoom (cfg : Config) (σ : RangeOrder ChannelInstance) (o : HealthObserver) (now : ℕ)
    (declared : Bool) : Bool × HealthObserver → Prop
  | room (h : o.instances.size < cfg.maxInstances) : MakesRoom cfg σ o now declared (true, o)
  | tooRecent (hfull : cfg.maxInstances ≤ o.instances.size) (hdeclared : declared = false)
      (h : now - o.earliestUndeclaredLastSeenNs < cfg.minEvictAgeNs) :
      MakesRoom cfg σ o now declared (false, o)
  | refused (hfull : cfg.maxInstances ≤ o.instances.size) (h : ¬ScanFinds cfg o now declared) :
      MakesRoom cfg σ o now declared (false, o.rescan σ now)
  | displaced {key : ChannelInstance} {state : InstanceState}
      (hfull : cfg.maxInstances ≤ o.instances.size) (hkey : o.instances[key]? = some state)
      (h : Eligible cfg now declared state)
      (hlast : state.declaredSource = true → declared = true ∧ AllDeclared o) :
      MakesRoom cfg σ o now declared (true, (o.rescan σ now).evict key)

theorem makeRoom_spec (cfg : Config) (σ : RangeOrder ChannelInstance) (o : HealthObserver)
    (now : ℕ) (declared : Bool) :
    MakesRoom cfg σ o now declared (makeRoom cfg σ o now declared) := by
  rw [makeRoom]
  split
  next h => exact .room h
  next hfull =>
      rw [Nat.not_lt] at hfull
      split
      next hrecent =>
          rw [Bool.and_eq_true, Bool.not_eq_true', decide_eq_true_eq] at hrecent
          exact .tooRecent hfull hrecent.1 hrecent.2
      next =>
          cases hvictim : victim cfg σ o now declared with
          | none => exact .refused hfull (victim_none hvictim)
          | some key =>
              obtain ⟨state, hkey, helig, hlast⟩ := victim_some hvictim
              exact .displaced hfull hkey helig hlast

/-! ## Taking in a datagram -/

variable {header : DatagramHeader} {dg : Datagram} {state : InstanceState}

theorem evict_instances (h : o.instances[key]? = some state) :
    (o.evict key).instances = o.instances.erase key := by
  rw [evict, h]

theorem evict_floor (o : HealthObserver) (key : ChannelInstance) :
    (o.evict key).earliestUndeclaredLastSeenNs = o.earliestUndeclaredLastSeenNs := by
  rw [evict]
  cases o.instances[key]? with
  | none => rfl
  | some state => rfl

theorem note_instances (h : o.instances[key]? = some state) :
    (o.note key header dg).instances = o.instances.insert key (state.seen header dg) := by
  rw [note, h]

theorem note_floor (o : HealthObserver) (key : ChannelInstance) (header : DatagramHeader)
    (dg : Datagram) :
    (o.note key header dg).earliestUndeclaredLastSeenNs = o.earliestUndeclaredLastSeenNs := by
  rw [note]
  cases o.instances[key]? with
  | none => rfl
  | some state => rfl

theorem size_insert_held (h : o.instances[key]? = some state) (state' : InstanceState) :
    (o.instances.insert key state').size = o.instances.size := by
  have hmem : key ∈ o.instances := ExtTreeMap.mem_iff_isSome_getElem?.mpr (by rw [h]; rfl)
  rw [ExtTreeMap.size_insert, if_pos (ExtTreeMap.mem_iff_contains.mp hmem)]

/-- What is held of an instance whose first datagram this is. -/
def fresh (cfg : Config) (o : HealthObserver) (key : ChannelInstance) (header : DatagramHeader)
    (dg : Datagram) : InstanceState :=
  InstanceState.seen {
    sequence := .resumingFromEra (o.eraOrdinal ⟨dg.role, key.channelId, key.source⟩)
    role := dg.role
    lastSeenNs := dg.recvTsNs
    declaredSource := isDeclared cfg key.source key.channelId } header dg

/-- The map behind a new instance. -/
theorem open_note_instances (cfg : Config) (o : HealthObserver) (key : ChannelInstance)
    (header : DatagramHeader) (dg : Datagram) :
    ((o.open cfg key dg).note key header dg).instances =
      (o.open cfg key dg).instances.insert key (fresh cfg o key header dg) :=
  note_instances (by rw [«open», ExtTreeMap.getElem?_insert_self])

theorem fresh_state (cfg : Config) (o : HealthObserver) (key : ChannelInstance)
    (header : DatagramHeader) (dg : Datagram) :
    (fresh cfg o key header dg).lastSeenNs = dg.recvTsNs ∧
      (fresh cfg o key header dg).declaredSource = isDeclared cfg key.source key.channelId :=
  ⟨rfl, rfl⟩

theorem open_note_getElem? (cfg : Config) (o : HealthObserver) (key k : ChannelInstance)
    (header : DatagramHeader) (dg : Datagram) :
    ((o.open cfg key dg).note key header dg).instances[k]? =
      if key = k then some (fresh cfg o key header dg) else o.instances[k]? := by
  rw [open_note_instances, getElem?_insert_eq]
  split
  · rfl
  next hne => rw [«open», getElem?_insert_ne hne]

theorem open_note_size (hnew : key ∉ o.instances) :
    ((o.open cfg key dg).note key header dg).instances.size = o.instances.size + 1 := by
  rw [open_note_instances, size_insert_held (by rw [«open», ExtTreeMap.getElem?_insert_self]),
    «open», ExtTreeMap.size_insert, if_neg (mt ExtTreeMap.mem_iff_contains.mpr hnew)]

/-- What becomes of the map when a datagram is taken in: the instance is held already, is refused, is
given a free slot, or takes the slot of another. -/
inductive Admits (cfg : Config) (o : HealthObserver) (key : ChannelInstance)
    (header : DatagramHeader) (dg : Datagram) : HealthObserver → Prop
  | held {o' : HealthObserver} {state : InstanceState} (hheld : o.instances[key]? = some state)
      (hinstances : o'.instances = o.instances.insert key (state.seen header dg))
      (hfloor : o'.earliestUndeclaredLastSeenNs = o.earliestUndeclaredLastSeenNs) :
      Admits cfg o key header dg o'
  | tooRecent {o' : HealthObserver} (hnew : key ∉ o.instances)
      (hfull : cfg.maxInstances ≤ o.instances.size)
      (hdeclared : isDeclared cfg key.source key.channelId = false)
      (h : dg.recvTsNs - o.earliestUndeclaredLastSeenNs < cfg.minEvictAgeNs)
      (hinstances : o'.instances = o.instances)
      (hfloor : o'.earliestUndeclaredLastSeenNs = o.earliestUndeclaredLastSeenNs) :
      Admits cfg o key header dg o'
  | refused {o' : HealthObserver} (hnew : key ∉ o.instances)
      (hfull : cfg.maxInstances ≤ o.instances.size)
      (h : ¬ScanFinds cfg o dg.recvTsNs (isDeclared cfg key.source key.channelId))
      (hinstances : o'.instances = o.instances)
      (hfloor : FloorHolds o'.earliestUndeclaredLastSeenNs o) :
      Admits cfg o key header dg o'
  | opened {o' : HealthObserver} {state : InstanceState} (hnew : key ∉ o.instances)
      (hroom : o.instances.size < cfg.maxInstances)
      (hstate : state.lastSeenNs = dg.recvTsNs ∧
        state.declaredSource = isDeclared cfg key.source key.channelId)
      (hsize : o'.instances.size = o.instances.size + 1)
      (hinstances : ∀ k : ChannelInstance,
        o'.instances[k]? = if key = k then some state else o.instances[k]?)
      (hfloor : o'.earliestUndeclaredLastSeenNs = o.earliestUndeclaredLastSeenNs) :
      Admits cfg o key header dg o'
  | displaced {o' : HealthObserver} {state last : InstanceState} {victim : ChannelInstance}
      (hnew : key ∉ o.instances) (hfull : cfg.maxInstances ≤ o.instances.size)
      (hvictim : o.instances[victim]? = some last)
      (h : Eligible cfg dg.recvTsNs (isDeclared cfg key.source key.channelId) last)
      (hlast : last.declaredSource = true →
        isDeclared cfg key.source key.channelId = true ∧ AllDeclared o)
      (hstate : state.lastSeenNs = dg.recvTsNs ∧
        state.declaredSource = isDeclared cfg key.source key.channelId)
      (hsize : o'.instances.size = o.instances.size)
      (hinstances : ∀ k : ChannelInstance, o'.instances[k]? =
        if key = k then some state else if victim = k then none else o.instances[k]?)
      (hfloor : FloorHolds o'.earliestUndeclaredLastSeenNs o) :
      Admits cfg o key header dg o'

theorem admit_spec (cfg : Config) (σ : RangeOrder ChannelInstance) (o : HealthObserver)
    (key : ChannelInstance) (header : DatagramHeader) (dg : Datagram) :
    Admits cfg o key header dg (takeIn cfg σ o key header dg) := by
  rw [takeIn]
  split
  next hmem =>
      obtain ⟨state, hstate⟩ := Option.isSome_iff_exists.mp
        (ExtTreeMap.mem_iff_isSome_getElem?.mp hmem)
      exact .held hstate (note_instances hstate) (note_floor o key header dg)
  next hnew =>
      have hroom := makeRoom_spec cfg σ o dg.recvTsNs (isDeclared cfg key.source key.channelId)
      generalize makeRoom cfg σ o dg.recvTsNs (isDeclared cfg key.source key.channelId) = r at hroom ⊢
      cases hroom with
      | room h =>
          exact .opened hnew h (fresh_state cfg o key header dg) (open_note_size hnew)
            (fun k ↦ open_note_getElem? cfg o key k header dg) (note_floor _ _ _ _)
      | tooRecent hfull hdeclared h => exact .tooRecent hnew hfull hdeclared h rfl rfl
      | refused hfull h => exact .refused hnew hfull h rfl (floorHolds_rescan σ o dg.recvTsNs)
      | @displaced victim last hfull hvictim h hlast =>
          have herase : ((o.rescan σ dg.recvTsNs).evict victim).instances =
              o.instances.erase victim := evict_instances (o := o.rescan σ dg.recvTsNs) hvictim
          have hnew' : key ∉ ((o.rescan σ dg.recvTsNs).evict victim).instances := by
            rw [herase, ExtTreeMap.mem_erase]
            exact fun hmem ↦ hnew hmem.2
          generalize hfreed : (o.rescan σ dg.recvTsNs).evict victim = freed at herase hnew'
          have hfloor : FloorHolds freed.earliestUndeclaredLastSeenNs o := by
            rw [← hfreed, evict_floor]
            exact floorHolds_rescan σ o dg.recvTsNs
          change Admits cfg o key header dg ((freed.open cfg key dg).note key header dg)
          refine .displaced hnew hfull hvictim h hlast (fresh_state cfg freed key header dg) ?_
            (fun k ↦ ?_) ?_
          · rw [open_note_size hnew', herase]
            exact size_erase_add_one hvictim
          · rw [open_note_getElem?, herase, getElem?_erase_eq]
          · rw [note_floor]
            exact hfloor

/-! ## What every run keeps -/

/-- The map is bounded, and an instance is flagged as declared exactly when it is. -/
structure Sound (cfg : Config) (o : HealthObserver) : Prop where
  size_le : o.instances.size ≤ cfg.maxInstances
  flagged : ∀ (k : ChannelInstance) (state : InstanceState), o.instances[k]? = some state →
    state.declaredSource = isDeclared cfg k.source k.channelId

theorem Sound.congr {o o' : HealthObserver} (h : Sound cfg o) (heq : o'.instances = o.instances) :
    Sound cfg o' := ⟨heq ▸ h.size_le, heq ▸ h.flagged⟩

theorem Sound.admits {o' : HealthObserver} (h : Sound cfg o) (ho : Admits cfg o key header dg o') :
    Sound cfg o' := by
  cases ho with
  | held hheld hinstances =>
      refine ⟨?_, fun k s hs ↦ ?_⟩
      · rw [hinstances, size_insert_held hheld]
        exact h.size_le
      · rw [hinstances, getElem?_insert_eq] at hs
        split at hs
        next heq =>
            subst heq
            obtain rfl := Option.some.inj hs
            have hflag := h.flagged key _ hheld
            exact hflag
        next => exact h.flagged k s hs
  | tooRecent _ _ _ _ hinstances => exact h.congr hinstances
  | refused _ _ _ hinstances => exact h.congr hinstances
  | opened _ hroom hstate hsize hinstances =>
      refine ⟨hsize ▸ hroom, fun k s hs ↦ ?_⟩
      rw [hinstances] at hs
      split at hs
      next heq =>
          subst heq
          obtain rfl := Option.some.inj hs
          exact hstate.2
      next => exact h.flagged k s hs
  | displaced _ _ _ _ _ hstate hsize hinstances =>
      refine ⟨hsize ▸ h.size_le, fun k s hs ↦ ?_⟩
      rw [hinstances] at hs
      split at hs
      next heq =>
          subst heq
          obtain rfl := Option.some.inj hs
          exact hstate.2
      next =>
          split at hs
          next => cases hs
          next => exact h.flagged k s hs

/-- A datagram on a port role of the feed that has a header. -/
def Readable (cfg : Config) (dg : Datagram) (header : DatagramHeader) : Prop :=
  dg.role ∈ cfg.portRoles ∧ DatagramHeader.peek dg.payload = .ok header

/-- A datagram is one of an instance, or leaves the map and the floor alone. -/
theorem onDatagram_cases (cfg : Config) (σ : RangeOrder ChannelInstance) (o : HealthObserver)
    (dg : Datagram) :
    (∃ header, Readable cfg dg header ∧
      onDatagram cfg σ o dg = takeIn cfg σ o (keyOf dg header) header dg) ∨
    ((∀ header, ¬Readable cfg dg header) ∧ (onDatagram cfg σ o dg).instances = o.instances ∧
      (onDatagram cfg σ o dg).earliestUndeclaredLastSeenNs = o.earliestUndeclaredLastSeenNs) := by
  rw [onDatagram]
  split
  next hrole => exact .inr ⟨fun _ h ↦ hrole h.1, rfl, rfl⟩
  next hrole =>
      rw [not_not] at hrole
      cases hpeek : DatagramHeader.peek dg.payload with
      | error e => exact .inr ⟨fun _ h ↦ (by cases hpeek.symm.trans h.2), rfl, rfl⟩
      | ok header => exact .inl ⟨header, ⟨hrole, hpeek⟩, rfl⟩

/-- The observer behind some datagrams, each met with an order of the map of its own. -/
def run (cfg : Config) (o : HealthObserver) (steps : List (RangeOrder ChannelInstance × Datagram)) :
    HealthObserver :=
  steps.foldl (fun o step ↦ onDatagram cfg step.1 o step.2) o

theorem Sound.onDatagram (h : Sound cfg o) (σ : RangeOrder ChannelInstance) (dg : Datagram) :
    Sound cfg (onDatagram cfg σ o dg) := by
  rcases onDatagram_cases cfg σ o dg with ⟨header, -, heq⟩ | ⟨-, heq, -⟩
  · rw [heq]
    exact h.admits (admit_spec cfg σ o _ header dg)
  · exact h.congr heq

theorem sound_empty (cfg : Config) : Sound cfg {} := by
  refine ⟨(ExtTreeMap.size_empty (α := ChannelInstance)).trans_le (Nat.zero_le _), ?_⟩
  intro k state hk
  rw [ExtTreeMap.getElem?_empty] at hk
  cases hk

theorem sound_run (cfg : Config) (steps : List (RangeOrder ChannelInstance × Datagram)) :
    Sound cfg (run cfg {} steps) := by
  induction steps using List.reverseRecOn with
  | nil => exact sound_empty cfg
  | append_singleton steps step ih =>
      rw [run, List.foldl_append]
      exact ih.onDatagram step.1 step.2

/-! ## Evictions -/

/-- What a datagram may cost the map: no more than its bound, and no declared instance but for a
declared one that found nobody undeclared. -/
structure SafeStep (cfg : Config) (σ : RangeOrder ChannelInstance) (o : HealthObserver)
    (dg : Datagram) : Prop where
  size_le : (onDatagram cfg σ o dg).instances.size ≤ cfg.maxInstances
  declared_kept : ∀ (k : ChannelInstance), k ∈ o.instances →
    k ∉ (onDatagram cfg σ o dg).instances → isDeclared cfg k.source k.channelId = true →
    (∃ header, Readable cfg dg header ∧
      isDeclared cfg dg.source (keyOf dg header).channelId = true) ∧
      ∀ (k' : ChannelInstance), k' ∈ o.instances → isDeclared cfg k'.source k'.channelId = true

theorem mem_iff (m : ExtTreeMap ChannelInstance InstanceState) (k : ChannelInstance) :
    k ∈ m ↔ ∃ state, m[k]? = some state := by
  rw [ExtTreeMap.mem_iff_isSome_getElem?, Option.isSome_iff_exists]

theorem safeStep (h : Sound cfg o) (σ : RangeOrder ChannelInstance) (dg : Datagram) :
    SafeStep cfg σ o dg := by
  refine ⟨(h.onDatagram σ dg).size_le, fun k hk hlost hdeclared ↦ ?_⟩
  obtain ⟨state, hstate⟩ := (mem_iff _ _).mp hk
  rcases onDatagram_cases cfg σ o dg with ⟨header, hread, heq⟩ | ⟨-, heq, -⟩
  · rw [heq] at hlost
    have ho := admit_spec cfg σ o (keyOf dg header) header dg
    generalize takeIn cfg σ o (keyOf dg header) header dg = o' at hlost ho
    cases ho with
    | held _ hinstances =>
        refine absurd ((mem_iff _ _).mpr ?_) hlost
        rw [hinstances, getElem?_insert_eq]
        split
        · exact ⟨_, rfl⟩
        · exact ⟨state, hstate⟩
    | tooRecent _ _ _ _ hinstances => exact absurd (hinstances ▸ hk) hlost
    | refused _ _ _ hinstances => exact absurd (hinstances ▸ hk) hlost
    | opened _ _ _ _ hinstances =>
        refine absurd ((mem_iff _ _).mpr ?_) hlost
        rw [hinstances]
        split
        · exact ⟨_, rfl⟩
        · exact ⟨state, hstate⟩
    | @displaced _ last victim _ _ hvictim _ hlast _ _ hinstances _ =>
        by_cases hne : victim = k
        · subst hne
          have hflag := h.flagged victim last hvictim
          rw [hdeclared] at hflag
          obtain ⟨harrival, hall⟩ := hlast hflag
          refine ⟨⟨header, hread, harrival⟩, fun k' hk' ↦ ?_⟩
          obtain ⟨state', hstate'⟩ := (mem_iff _ _).mp hk'
          exact (h.flagged k' state' hstate').symm.trans (hall k' state' hstate')
        · refine absurd ((mem_iff _ _).mpr ?_) hlost
          rw [hinstances, if_neg hne]
          split
          · exact ⟨_, rfl⟩
          · exact ⟨state, hstate⟩
  · exact absurd (heq ▸ hk) hlost

/-! ## The cached floor -/

/-- The floor is a lower bound, and nothing has been scanned before the map was full. -/
structure Floored (cfg : Config) (o : HealthObserver) : Prop where
  below : FloorHolds o.earliestUndeclaredLastSeenNs o
  unscanned : o.instances.size < cfg.maxInstances → o.earliestUndeclaredLastSeenNs = 0

/-- An undeclared instance that is held is not seen with a stamp before the floor. -/
def Forward (cfg : Config) (o : HealthObserver) (dg : Datagram) : Prop :=
  ∀ header, Readable cfg dg header → ∀ state : InstanceState,
    o.instances[keyOf dg header]? = some state → state.declaredSource = false →
    o.earliestUndeclaredLastSeenNs ≤ dg.recvTsNs

theorem Floored.admits {o' : HealthObserver} (h : Floored cfg o) (hage : 0 < cfg.minEvictAgeNs)
    (hforward : ∀ state : InstanceState, o.instances[key]? = some state →
      state.declaredSource = false → o.earliestUndeclaredLastSeenNs ≤ dg.recvTsNs)
    (ho : Admits cfg o key header dg o') : Floored cfg o' := by
  cases ho with
  | held hheld hinstances hfloor =>
      refine ⟨fun k s hs hflag ↦ ?_, fun hsize ↦ ?_⟩
      · rw [hinstances, getElem?_insert_eq] at hs
        rw [hfloor]
        split at hs
        next =>
            obtain rfl := Option.some.inj hs
            exact hforward _ hheld hflag
        next => exact h.below k s hs hflag
      · rw [hinstances, size_insert_held hheld] at hsize
        rw [hfloor]
        exact h.unscanned hsize
  | tooRecent _ _ _ _ hinstances hfloor =>
      refine ⟨?_, ?_⟩
      · rw [FloorHolds, hinstances, hfloor]
        exact h.below
      · rw [hinstances, hfloor]
        exact h.unscanned
  | refused _ hfull _ hinstances hfloor =>
      refine ⟨?_, fun hsize ↦ ?_⟩
      · rw [FloorHolds, hinstances]
        exact hfloor
      · rw [hinstances] at hsize
        exact absurd hfull (Nat.not_le.mpr hsize)
  | opened _ hroom _ _ hinstances hfloor =>
      have hzero := hfloor.trans (h.unscanned hroom)
      exact ⟨fun k s _ _ ↦ hzero ▸ Nat.zero_le _, fun _ ↦ hzero⟩
  | @displaced _ last victim _ hfull hvictim helig _ hstate hsize hinstances hfloor =>
      refine ⟨fun k s hs hflag ↦ ?_, fun hlt ↦ ?_⟩
      · rw [hinstances] at hs
        split at hs
        next =>
            obtain rfl := Option.some.inj hs
            rw [hstate.2] at hflag
            rw [Eligible, hflag, if_neg Bool.false_ne_true, oldEnough, decide_eq_true_eq] at helig
            have hbelow := hfloor victim last hvictim helig.1
            rw [hstate.1]
            omega
        next =>
            split at hs
            next => cases hs
            next => exact hfloor k s hs hflag
      · rw [hsize] at hlt
        exact absurd hfull (Nat.not_le.mpr hlt)

theorem Floored.onDatagram (h : Floored cfg o) (hage : 0 < cfg.minEvictAgeNs)
    (hforward : Forward cfg o dg) (σ : RangeOrder ChannelInstance) :
    Floored cfg (onDatagram cfg σ o dg) := by
  rcases onDatagram_cases cfg σ o dg with ⟨header, hread, heq⟩ | ⟨-, heq, hfloor⟩
  · rw [heq]
    exact h.admits hage (hforward header hread) (admit_spec cfg σ o _ header dg)
  · refine ⟨?_, ?_⟩
    · rw [FloorHolds, heq, hfloor]
      exact h.below
    · rw [heq, hfloor]
      exact h.unscanned

/-- Every datagram of the run meets the condition, where the shortcut can be taken at all. -/
def Forwards (cfg : Config) :
    HealthObserver → List (RangeOrder ChannelInstance × Datagram) → Prop
  | _, [] => True
  | o, (σ, dg) :: steps =>
      (0 < cfg.minEvictAgeNs → Forward cfg o dg) ∧
        Forwards cfg (HealthObserver.onDatagram cfg σ o dg) steps

theorem Floored.run (hage : 0 < cfg.minEvictAgeNs)
    {steps : List (RangeOrder ChannelInstance × Datagram)} (h : Floored cfg o)
    (hsteps : Forwards cfg o steps) : Floored cfg (run cfg o steps) := by
  induction steps generalizing o with
  | nil => exact h
  | cons step steps ih => exact ih (h.onDatagram hage (hsteps.1 hage) step.1) hsteps.2

/-! ## Refusals -/

/-- An arrival is refused exactly when the map is full and a scan of all of it finds nobody to
displace. -/
def ExactStep (cfg : Config) (σ : RangeOrder ChannelInstance) (o : HealthObserver) (dg : Datagram) :
    Prop :=
  ∀ header, Readable cfg dg header →
    (keyOf dg header ∉ (onDatagram cfg σ o dg).instances ↔
      keyOf dg header ∉ o.instances ∧ cfg.maxInstances ≤ o.instances.size ∧
        ¬ScanFinds cfg o dg.recvTsNs (isDeclared cfg dg.source (keyOf dg header).channelId))

/-- While the floor is too recent, so is every undeclared instance. -/
theorem not_scanFinds (h : FloorHolds o.earliestUndeclaredLastSeenNs o)
    (hrecent : now - o.earliestUndeclaredLastSeenNs < cfg.minEvictAgeNs) :
    ¬ScanFinds cfg o now false := by
  rintro ⟨k, state, hk, helig⟩
  rw [Eligible, if_neg Bool.false_ne_true, oldEnough, decide_eq_true_eq] at helig
  have hbelow := h k state hk helig.1
  omega

theorem exactStep (h : 0 < cfg.minEvictAgeNs → FloorHolds o.earliestUndeclaredLastSeenNs o)
    (σ : RangeOrder ChannelInstance) (dg : Datagram) : ExactStep cfg σ o dg := by
  intro header hread
  rcases onDatagram_cases cfg σ o dg with ⟨header', hread', heq⟩ | ⟨hno, -, -⟩
  · obtain rfl : header = header' := Except.ok.inj (hread.2.symm.trans hread'.2)
    rw [heq]
    have ho := admit_spec cfg σ o (keyOf dg header) header dg
    generalize takeIn cfg σ o (keyOf dg header) header dg = o' at ho ⊢
    cases ho with
    | held hheld hinstances =>
        have hmem : keyOf dg header ∈ o.instances := (mem_iff _ _).mpr ⟨_, hheld⟩
        refine iff_of_false (fun hout ↦ hout ?_) fun hnew ↦ hnew.1 hmem
        rw [hinstances]
        exact ExtTreeMap.mem_insert_self
    | tooRecent hnew hfull hdeclared hrecent hinstances =>
        refine iff_of_true (hinstances ▸ hnew) ⟨hnew, hfull, ?_⟩
        change isDeclared cfg dg.source (keyOf dg header).channelId = false at hdeclared
        rw [hdeclared]
        exact not_scanFinds (h (Nat.zero_lt_of_lt hrecent)) hrecent
    | refused hnew hfull hnone hinstances =>
        exact iff_of_true (hinstances ▸ hnew) ⟨hnew, hfull, hnone⟩
    | opened hnew hroom _ _ hinstances =>
        have hheld := (hinstances (keyOf dg header)).trans (if_pos rfl)
        refine iff_of_false (fun hout ↦ hout ((mem_iff _ _).mpr ⟨_, hheld⟩)) fun hfull ↦ ?_
        exact absurd hfull.2.1 (Nat.not_le.mpr hroom)
    | @displaced _ last victim hnew hfull hvictim helig _ _ _ hinstances _ =>
        have hheld := (hinstances (keyOf dg header)).trans (if_pos rfl)
        refine iff_of_false (fun hout ↦ hout ((mem_iff _ _).mpr ⟨_, hheld⟩)) fun hnone ↦ ?_
        exact hnone.2.2 ⟨victim, last, hvictim, helig⟩
  · exact absurd hread (hno header)

theorem floored_empty (cfg : Config) : Floored cfg {} := by
  refine ⟨fun k state hk ↦ ?_, fun _ ↦ rfl⟩
  rw [ExtTreeMap.getElem?_empty] at hk
  cases hk

/-- **In every run the map is bounded and declared instances are safe; a refusal is what a full scan
would answer in every run in which no undeclared instance is seen with a stamp before the floor.** -/
theorem admissions (cfg : Config) (steps : List (RangeOrder ChannelInstance × Datagram))
    (σ : RangeOrder ChannelInstance) (dg : Datagram) :
    SafeStep cfg σ (run cfg {} steps) dg ∧
      (Forwards cfg {} steps → ExactStep cfg σ (run cfg {} steps) dg) := by
  refine ⟨safeStep (sound_run cfg steps) σ dg, fun hsteps ↦ exactStep (fun hage ↦ ?_) σ dg⟩
  exact ((floored_empty cfg).run hage hsteps).below

/-! ## A stamp that goes back -/

/-- One slot, and nobody declared. -/
def oneSlot : Config where
  portRoles := [.mktdata]
  declaredSources := []
  declaredChannels := []
  maxInstances := 1
  minEvictAgeNs := 10
  maxInstances_pos := Nat.one_pos

/-- A bare header of a source at a time. -/
def headerOnly (source recvTsNs : ℕ) : Datagram :=
  ⟨.mktdata, source, 7000, recvTsNs, List.replicate 24 0⟩

/-- A stranger is refused at 105, which scans the one held, and that one is seen again with the stamp
90. -/
def wentBack : HealthObserver :=
  run oneSlot {} [(default, headerOnly 1 100), (default, headerOnly 2 105), (default, headerOnly 1 90)]

/-- At 102 the held one has been quiet for 12, and the stranger is refused without a scan. -/
theorem not_exactStep_wentBack : ¬ExactStep oneSlot default wentBack (headerOnly 2 102) := by
  intro h
  obtain ⟨header, hpeek⟩ : ∃ header,
      DatagramHeader.peek (headerOnly 2 102).payload = .ok header := ⟨_, rfl⟩
  have hkey : keyOf (headerOnly 2 102) header = ⟨2, 0, 7000⟩ := by
    obtain rfl := Except.ok.inj hpeek
    decide
  have hexact := h header ⟨by decide, hpeek⟩
  rw [hkey] at hexact
  have hout : (⟨2, 0, 7000⟩ : ChannelInstance) ∉
      (onDatagram oneSlot default wentBack (headerOnly 2 102)).instances := by decide +kernel
  have hfound : wentBack.instances[(⟨1, 0, 7000⟩ : ChannelInstance)]?.any
      (fun state ↦ !state.declaredSource && oldEnough oneSlot 102 state) = true := by
    decide +kernel
  obtain ⟨state, hstate, helig⟩ := (Option.any_eq_true _ _).mp hfound
  rw [Bool.and_eq_true, Bool.not_eq_true'] at helig
  exact (hexact.mp hout).2.2 ⟨_, state, hstate, helig⟩

end HealthObserver

end EdgeMulticast.Health
