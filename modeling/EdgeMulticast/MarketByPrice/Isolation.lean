import EdgeMulticast.MarketByPrice.Coordinator
import EdgeMulticast.MarketByPrice.Mirrors

/-!
# Channels that share the coordinator and the shards

Two publishers come in on the same ports under different channel ids.  Everything the
coordinator keeps for a channel is kept under its id, except for two things: the manifest, of
which there is one, and the definition a strike has to be directly behind.  A summary of one
channel has every shard prune the definitions of all of them
(`foreign_summary_prunes_channel`).

`Apart` names the records at which this shows.  In a run without any of them a channel is what
its own records alone make of it (`channel_isolated`).
-/

namespace EdgeMulticast.MarketByPrice

open Std (ExtTreeMap)
open EdgeMulticast.Lib

/-- The inputs of a channel's own run: its records, and the drops of the socket. -/
def Input.ownedBy (ch : ℕ) : Input → Bool
  | .record rec => rec.channelID = ch
  | .disconnect => true

/-- The record that an input is. -/
def Input.asRecord : Input → Option Record
  | .record rec => some rec
  | .disconnect => none

/-- The part of a run that is the channel's own. -/
def ownRun (ch : ℕ) (as : List Arrival) : List Arrival := as.filter fun a ↦ a.2.ownedBy ch

theorem DefinitionRef.channelID_of_pairs {d : DefinitionRef} {rec : Record}
    (h : d.pairs rec = true) : d.channelID = rec.channelID := by
  simp only [pairs, Bool.and_eq_true, decide_eq_true_eq] at h
  exact h.1.1.1.1

namespace Coordinator

variable (c : Coordinator) (rec : Record)

/-! ## What a record is classified from -/

/-- The coordinator that classifies a record: behind the barrier, if there is one. -/
def enter : Coordinator :=
  let c' := { c with prevDefinition := none }
  if c.resets rec then c'.resetBarrier rec else c'.learn rec

/-- The definition that was the record before. -/
def before : Option DefinitionRef := if c.resets rec then none else c.prevDefinition

@[simp] theorem enter_n : (c.enter rec).n = c.n := by
  simp only [enter, resetBarrier, learn]
  split
  · rfl
  · split <;> rfl

theorem dispatch_eq : c.dispatch rec = (((c.enter rec).classify (c.before rec) rec).1,
    (if c.resets rec then c.broadcast (.reset rec.channelID) else []) ++
      ((c.enter rec).classify (c.before rec) rec).2) := by
  have hresets : ({ c with prevDefinition := none } : Coordinator).resets rec = c.resets rec := rfl
  simp only [dispatch, enter, before, hresets]
  split <;> rfl

/-- Whether a record has the shards prune. -/
def prunes : Bool :=
  rec.type = .manifestSummary && toUint8 rec.fields.valid ≠ 0 &&
    (c.enter rec).manifest.seq < toUint16 rec.fields.manifestSeq

/-- Whether a strike is behind its definition and repeats its source. -/
def strikes (prevDefinition : Option DefinitionRef) (rec : Record) : Bool :=
  prevDefinition.any fun d ↦ d.pairs rec && d.sourceID = toUint16 rec.fields.sourceId

variable {c rec}

theorem strikes_iff {p : Option DefinitionRef} : strikes p rec = true ↔
    ∃ d, p = some d ∧ d.pairs rec = true ∧ d.sourceID = toUint16 rec.fields.sourceId := by
  cases p <;> simp [strikes]

theorem classify_strike (htype : rec.type = .strikeInterval) (p : Option DefinitionRef) :
    c.classify p rec = (c, if strikes p rec then c.routeInstrument rec else []) := by
  cases p with
  | none => simp [classify, htype, strikes]
  | some d =>
      simp only [classify, htype, strikes, Option.any_some]
      by_cases hpairs : d.pairs rec = true
      · by_cases hsource : d.sourceID = toUint16 rec.fields.sourceId <;> simp [hpairs, hsource]
      · simp [hpairs]

theorem classify_manifest (htype : rec.type = .manifestSummary) (p : Option DefinitionRef) :
    ((c.enter rec).classify p rec).2 =
      if c.prunes rec then c.broadcast (.manifestPrune (toUint16 rec.fields.manifestSeq))
      else [] := by
  simp only [classify, htype, applyManifest, prunes, broadcast, enter_n]
  by_cases hvalid : toUint8 rec.fields.valid = 0
  · simp [hvalid]
  · by_cases hseq : (c.enter rec).manifest.seq < toUint16 rec.fields.manifestSeq
    · simp [hvalid, hseq, not_le.mpr hseq]
    · simp [hvalid, hseq, not_lt.mp hseq]

variable (c rec)

/-! ## What a record sends -/

theorem mem_broadcast {msg : ShardMsg} {m : ℕ × ShardMsg} (h : m ∈ c.broadcast msg) :
    m.1 < c.n ∧ m.2 = msg := by
  obtain ⟨idx, hidx, rfl⟩ := List.mem_map.mp h
  exact ⟨List.mem_range.mp hidx, rfl⟩

theorem pick_broadcast (σ : ℕ → Choices) (idx : ℕ) (msg : ShardMsg) :
    pick σ idx (c.broadcast msg) = if idx < c.n then [(σ idx, msg)] else [] := by
  rw [pick, broadcast]
  induction c.n with
  | zero => rfl
  | succ n ih =>
      rw [List.range_succ, List.map_append, List.filterMap_append, ih]
      rcases Nat.lt_trichotomy idx n with hlt | rfl | hgt
      · rw [if_pos hlt, if_pos (by omega)]
        simp [Nat.ne_of_gt hlt]
      · simp
      · rw [if_neg (by omega), if_neg (by omega)]
        simp [Nat.ne_of_lt hgt]

/-- A summary without a reset sends nothing but the prune. -/
theorem dispatch_manifest (htype : rec.type = .manifestSummary) (hresets : c.resets rec = false) :
    (c.dispatch rec).2 =
      if c.prunes rec then c.broadcast (.manifestPrune (toUint16 rec.fields.manifestSeq))
      else [] := by
  rw [dispatch_eq, hresets, if_neg Bool.false_ne_true, List.nil_append, classify_manifest htype]

/-- Everything a record sends is of its channel, but for a prune. -/
theorem mem_dispatch {m : ℕ × ShardMsg} (h : m ∈ (c.dispatch rec).2) :
    m.2 = .reset rec.channelID ∨ m.2 = .fence ∨
      (∃ rec', m.2 = .record rec' ∧ rec'.channelID = rec.channelID) ∨
      (m.2 = .manifestPrune (toUint16 rec.fields.manifestSeq) ∧ c.prunes rec = true ∧
        m.1 < c.n) := by
  rw [dispatch_eq] at h
  rcases List.mem_append.mp h with h | h
  · split at h
    · exact Or.inl (c.mem_broadcast h).2
    · exact absurd h List.not_mem_nil
  · have hone {idx : ℕ} {rec' : Record} (hm : m ∈ [(idx, ShardMsg.record rec')])
        (hch : rec'.channelID = rec.channelID) :
        ∃ rec', m.2 = .record rec' ∧ rec'.channelID = rec.channelID :=
      ⟨rec', by rw [List.mem_singleton.mp hm], hch⟩
    right
    cases htype : rec.type with
    | manifestSummary =>
        rw [classify_manifest htype] at h
        split at h
        next hprunes =>
            obtain ⟨hidx, hmsg⟩ := c.mem_broadcast h
            exact Or.inr (Or.inr ⟨hmsg, hprunes, hidx⟩)
        next => exact absurd h List.not_mem_nil
    | strikeInterval =>
        rw [classify_strike htype] at h
        dsimp only at h
        split at h
        · exact Or.inr (Or.inl (hone h rfl))
        · exact absurd h List.not_mem_nil
    | snapshotLevel =>
        simp only [classify, htype] at h
        split at h
        · exact absurd h List.not_mem_nil
        · split at h
          · exact absurd h List.not_mem_nil
          · exact Or.inr (Or.inl (hone h rfl))
    | batchBoundary =>
        simp only [classify, htype] at h
        exact Or.inr (Or.inl ⟨rec, (mem_broadcast _ h).2, rfl⟩)
    | endOfSession =>
        simp only [classify, htype] at h
        exact Or.inl (mem_broadcast _ h).2
    | heartbeat | other =>
        simp only [classify, htype] at h
        exact absurd h List.not_mem_nil
    | _ =>
        simp only [classify, htype] at h
        exact Or.inr (Or.inl (hone h rfl))

/-! ## Two coordinators that agree on one channel -/

/-- What `own` keeps for the channel is what `c` keeps for it, but for the manifest. -/
structure Agrees (ch : ℕ) (c own : Coordinator) : Prop where
  n : own.n = c.n
  resetCount : own.resetCount[ch]? = c.resetCount[ch]?
  openGroup : own.openGroup[ch]? = c.openGroup[ch]?
  prevDefinition : ∀ d, c.prevDefinition = some d → d.channelID = ch → own.prevDefinition = some d

variable {c rec} {ch : ℕ} {own : Coordinator}

theorem Agrees.resets (h : Agrees ch c own) (hch : rec.channelID = ch) :
    own.resets rec = c.resets rec := by
  rw [Coordinator.resets, Coordinator.resets, hch, h.resetCount]

/-- Only a summary that is no reset tells the manifests apart. -/
theorem Agrees.manifest_of_prunes_ne (h : Agrees ch c own) (hch : rec.channelID = ch)
    (hne : own.prunes rec ≠ c.prunes rec) :
    rec.type = .manifestSummary ∧ c.resets rec = false := by
  by_cases htype : rec.type = .manifestSummary
  · refine ⟨htype, Bool.eq_false_iff.mpr fun hresets ↦ hne ?_⟩
    simp [prunes, Coordinator.enter, h.resets hch, hresets, resetBarrier]
  · exact absurd (by simp [prunes, htype]) hne

theorem Agrees.enter (h : Agrees ch c own) (hch : rec.channelID = ch) :
    Agrees ch (c.enter rec) (own.enter rec) := by
  have hresets := h.resets hch
  subst hch
  simp only [Coordinator.enter, hresets]
  split
  · exact ⟨h.n, by simp [resetBarrier], by simp [resetBarrier], fun d hd ↦ absurd hd (by
      simp [resetBarrier])⟩
  · simp only [learn, h.resetCount]
    split
    next hseen => exact ⟨h.n, h.resetCount, h.openGroup, fun d hd ↦ absurd hd (by simp)⟩
    next => exact ⟨h.n, by simp, h.openGroup, fun d hd ↦ absurd hd (by simp)⟩

/-- A record of the channel is classified alike, but for its prune. -/
theorem Agrees.classify (h : Agrees ch c own) (hch : rec.channelID = ch)
    {p q : Option DefinitionRef}
    (hstrike : rec.type = .strikeInterval → strikes q rec = strikes p rec) :
    Agrees ch (c.classify p rec).1 (own.classify q rec).1 ∧
      (rec.type ≠ .manifestSummary → (own.classify q rec).2 = (c.classify p rec).2) := by
  subst hch
  have hroute (id : ℕ) : own.shardFor id = c.shardFor id := by rw [shardFor, shardFor, h.n]
  have hbroadcast (msg : ShardMsg) : own.broadcast msg = c.broadcast msg := by
    rw [broadcast, broadcast, h.n]
  cases htype : rec.type with
  | strikeInterval =>
      rw [classify_strike htype, classify_strike htype, hstrike htype]
      refine ⟨h, fun _ ↦ ?_⟩
      simp only [routeInstrument, hroute]
  | manifestSummary =>
      refine ⟨?_, fun hne ↦ absurd rfl hne⟩
      simp only [Coordinator.classify, htype, applyManifest]
      split <;> split <;> exact ⟨h.n, h.resetCount, h.openGroup, h.prevDefinition⟩
  | instrumentDefinition =>
      simp only [Coordinator.classify, htype, routeInstrument, hroute]
      exact ⟨⟨h.n, h.resetCount, h.openGroup, fun d hd _ ↦ hd⟩, fun _ ↦ trivial⟩
  | snapshotBegin =>
      simp only [Coordinator.classify, htype, hroute]
      exact ⟨⟨h.n, h.resetCount, by simp, h.prevDefinition⟩, fun _ ↦ trivial⟩
  | snapshotLevel =>
      simp only [Coordinator.classify, htype, h.openGroup]
      split
      · exact ⟨h, fun _ ↦ rfl⟩
      · split <;> exact ⟨h, fun _ ↦ rfl⟩
  | snapshotEnd =>
      simp only [Coordinator.classify, htype, routeInstrument, hroute]
      exact ⟨⟨h.n, h.resetCount, by simp, h.prevDefinition⟩, fun _ ↦ trivial⟩
  | _ =>
      simp only [Coordinator.classify, htype, routeInstrument, hroute, hbroadcast]
      exact ⟨h, fun _ ↦ trivial⟩

/-- What a record of another channel leaves of the coordinator. -/
theorem dispatch_frame (hch : rec.channelID ≠ ch) :
    (c.dispatch rec).1.n = c.n ∧ (c.dispatch rec).1.resetCount[ch]? = c.resetCount[ch]? ∧
      (c.dispatch rec).1.openGroup[ch]? = c.openGroup[ch]? ∧
      ∀ d, (c.dispatch rec).1.prevDefinition = some d → d.channelID ≠ ch := by
  have henter : (c.enter rec).resetCount[ch]? = c.resetCount[ch]? ∧
      (c.enter rec).openGroup[ch]? = c.openGroup[ch]? ∧ (c.enter rec).prevDefinition = none := by
    simp only [enter]
    split
    · simp only [resetBarrier]
      exact ⟨getElem?_insert_ne hch, getElem?_erase_ne hch, trivial⟩
    · simp only [learn]
      split
      · exact ⟨rfl, rfl, rfl⟩
      · exact ⟨getElem?_insert_ne hch, rfl, rfl⟩
  obtain ⟨hcount, hgroup, hprev⟩ := henter
  have hnone {d : DefinitionRef} (hd : (c.enter rec).prevDefinition = some d) :
      d.channelID ≠ ch := absurd (hprev.symm.trans hd) (by simp)
  rw [dispatch_eq, ← enter_n c rec, ← hcount, ← hgroup]
  dsimp only
  cases htype : rec.type with
  | strikeInterval =>
      rw [classify_strike htype]
      exact ⟨rfl, rfl, rfl, fun d ↦ hnone⟩
  | manifestSummary =>
      simp only [classify, htype, applyManifest]
      split <;> exact ⟨rfl, rfl, rfl, fun d ↦ hnone⟩
  | instrumentDefinition =>
      simp only [classify, htype]
      refine ⟨trivial, trivial, trivial, fun d hd ↦ ?_⟩
      rw [← Option.some.inj hd]
      exact hch
  | snapshotBegin =>
      simp only [classify, htype]
      exact ⟨trivial, trivial, getElem?_insert_ne hch, fun d ↦ hnone⟩
  | snapshotLevel =>
      simp only [classify, htype]
      split
      · exact ⟨rfl, rfl, rfl, fun d ↦ hnone⟩
      · split <;> exact ⟨rfl, rfl, rfl, fun d ↦ hnone⟩
  | snapshotEnd =>
      simp only [classify, htype]
      exact ⟨trivial, trivial, getElem?_erase_ne hch, fun d ↦ hnone⟩
  | _ =>
      simp only [classify, htype]
      exact ⟨trivial, trivial, trivial, fun d ↦ hnone⟩

theorem Agrees.foreign (h : Agrees ch c own) (hch : rec.channelID ≠ ch) :
    Agrees ch (c.dispatch rec).1 own := by
  obtain ⟨hn, hcount, hgroup, hprev⟩ := dispatch_frame (c := c) hch
  exact ⟨h.n.trans hn.symm, h.resetCount.trans hcount.symm, h.openGroup.trans hgroup.symm,
    fun d hd hd' ↦ absurd hd' (hprev d hd)⟩

end Coordinator

/-! ## Apart -/

/-- Nothing of another channel shows in the channel at this record, where `own` is the
coordinator that has been given the channel's own records only. -/
structure Apart (ch : ℕ) (own : Coordinator) (sys : System) (rec : Record) : Prop where
  /-- The shards prune exactly when the channel's own run has them prune, or no definition of
  the channel is stale. -/
  manifest : sys.coordinator.prunes rec = (rec.channelID = ch && own.prunes rec) ∨
    ∀ idx < sys.coordinator.n,
      ∀ k ∈ (sys.shards idx).staleKeys (toUint16 rec.fields.manifestSeq), k.ch ≠ ch
  /-- A strike that is behind its definition in the channel's own run is behind it. -/
  strike : rec.channelID = ch → rec.type = .strikeInterval →
    Coordinator.strikes (own.before rec) rec = true →
      Coordinator.strikes (sys.coordinator.before rec) rec = true

instance (ch : ℕ) (own : Coordinator) (sys : System) (rec : Record) :
    Decidable (Apart ch own sys rec) :=
  decidable_of_iff (_ ∧ _) ⟨fun ⟨manifest, strike⟩ ↦ ⟨manifest, strike⟩,
    fun h ↦ ⟨h.manifest, h.strike⟩⟩

/-- The two runs, seen from the channel in the first `n` shards. -/
structure System.Mirrors (ch n : ℕ) (sys own : System) : Prop where
  coordinator : sys.coordinator.Agrees ch own.coordinator
  shards : ∀ idx < n, EdgeMulticast.MarketByPrice.Mirrors ch (sys.shards idx) (own.shards idx)

namespace System.Mirrors

variable {ch n : ℕ} {sys own : System} {rec : Record} {σ : ℕ → Choices}

/-- A record of another channel. -/
theorem hidden (h : Mirrors ch n sys own) (hs : ∀ idx k, (sys.shards idx).Holds (fun _ ↦ True) k)
    (hapart : Apart ch own.coordinator sys rec) (hch : rec.channelID ≠ ch)
    (hquiet : ∀ idx < n, ((sys.step (σ, .record rec)).shards idx).overflows =
      (sys.shards idx).overflows) : Mirrors ch n (sys.step (σ, .record rec)) own := by
  refine ⟨h.coordinator.foreign hch, fun idx hn ↦ ?_⟩
  have hquiet' := hquiet idx hn
  rw [step_shards] at hquiet' ⊢
  refine (h.shards idx hn).run_left (hs idx) _ (fun a ha ↦ ?_) hquiet'
  rcases sys.coordinator.mem_dispatch rec (Coordinator.mem_pick ha) with
    hmsg | hmsg | ⟨rec', hmsg, hch'⟩ | ⟨hmsg, hprunes, hidx⟩ <;> dsimp only at hmsg <;> rw [hmsg]
  · exact hch
  · trivial
  · exact fun h ↦ hch (hch'.symm.trans h)
  · have hstale := hapart.manifest.resolve_left (by simp [hprunes, hch]) idx hidx
    intro k hk hkch
    rw [Shard.mem_staleKeys, (h.shards idx hn).view k hkch, ← Shard.mem_staleKeys] at hk
    exact hstale k hk hkch

/-- A strike is held in both runs or in neither. -/
theorem strikes_eq (h : Mirrors ch n sys own) (hapart : Apart ch own.coordinator sys rec)
    (hch : rec.channelID = ch) (htype : rec.type = .strikeInterval) :
    Coordinator.strikes (own.coordinator.before rec) rec =
      Coordinator.strikes (sys.coordinator.before rec) rec := by
  rw [Bool.eq_iff_iff]
  refine ⟨hapart.strike hch htype, fun hstrikes ↦ ?_⟩
  obtain ⟨d, hd, hpairs, hsource⟩ := Coordinator.strikes_iff.mp hstrikes
  refine Coordinator.strikes_iff.mpr ⟨d, ?_, hpairs, hsource⟩
  rw [Coordinator.before] at hd ⊢
  rw [h.coordinator.resets hch]
  split at hd
  · exact absurd hd (by simp)
  next hresets =>
      rw [if_neg hresets]
      exact h.coordinator.prevDefinition d hd ((d.channelID_of_pairs hpairs).trans hch)

/-- What is sent in both runs is the same, unless one prunes and the other does not. -/
theorem sends_eq (h : Mirrors ch n sys own) (hapart : Apart ch own.coordinator sys rec)
    (hch : rec.channelID = ch) (hprunes : own.coordinator.prunes rec = sys.coordinator.prunes rec) :
    (own.coordinator.dispatch rec).2 = (sys.coordinator.dispatch rec).2 := by
  have hbroadcast (msg : ShardMsg) :
      own.coordinator.broadcast msg = sys.coordinator.broadcast msg := by
    rw [Coordinator.broadcast, Coordinator.broadcast, h.coordinator.n]
  obtain ⟨-, hsends⟩ := (h.coordinator.enter hch).classify hch (h.strikes_eq hapart hch)
  rw [Coordinator.dispatch_eq, Coordinator.dispatch_eq, h.coordinator.resets hch, hbroadcast]
  dsimp only
  congr 1
  by_cases htype : rec.type = .manifestSummary
  · rw [Coordinator.classify_manifest htype, Coordinator.classify_manifest htype, hprunes,
      hbroadcast]
  · exact hsends htype

/-- A record of the channel. -/
theorem both (h : Mirrors ch n sys own) (hs : ∀ idx k, (sys.shards idx).Holds (fun _ ↦ True) k)
    (ht : ∀ idx k, (own.shards idx).Holds (fun _ ↦ True) k)
    (hapart : Apart ch own.coordinator sys rec) (hch : rec.channelID = ch)
    (hquiet : ∀ idx < n, ((sys.step (σ, .record rec)).shards idx).overflows =
      (sys.shards idx).overflows) :
    Mirrors ch n (sys.step (σ, .record rec)) (own.step (σ, .record rec)) := by
  refine ⟨?_, fun idx hn ↦ ?_⟩
  · obtain ⟨hagrees, -⟩ := (h.coordinator.enter hch).classify hch (h.strikes_eq hapart hch)
    simpa only [step, Coordinator.take, Coordinator.dispatch_eq] using hagrees
  · have hquiet' := hquiet idx hn
    rw [step_shards] at hquiet' ⊢
    rw [step_shards]
    have hown (a : Turn) (ha : a ∈ sys.coordinator.sentTo idx (σ, .record rec)) (rec' : Record)
        (hrec : a.2 = .record rec') : rec'.channelID = ch := by
      rcases sys.coordinator.mem_dispatch rec (Coordinator.mem_pick ha) with
        hmsg | hmsg | ⟨rec'', hmsg, hch'⟩ | ⟨hmsg, -⟩ <;> dsimp only at hmsg <;> rw [hrec] at hmsg
      · exact absurd hmsg ShardMsg.noConfusion
      · exact absurd hmsg ShardMsg.noConfusion
      · rw [ShardMsg.record.inj hmsg, hch', hch]
      · exact absurd hmsg ShardMsg.noConfusion
    by_cases hprunes : own.coordinator.prunes rec = sys.coordinator.prunes rec
    · -- both shards are sent the same
      have hsent : own.coordinator.sentTo idx (σ, .record rec) =
          sys.coordinator.sentTo idx (σ, .record rec) :=
        congrArg (Coordinator.pick σ idx) (h.sends_eq hapart hch hprunes)
      rw [hsent]
      exact (h.shards idx hn).run_both (hs idx) (ht idx) _ hown hquiet'
    · -- one of them is sent a prune, which the other is not, and nothing else
      obtain ⟨htype, hresets⟩ := h.coordinator.manifest_of_prunes_ne hch hprunes
      have hresets' := (h.coordinator.resets hch).trans hresets
      have hunseen (hidx : idx < sys.coordinator.n) :
          (ShardMsg.manifestPrune (toUint16 rec.fields.manifestSeq)).Unseen ch (own.shards idx) := by
        have hstale := hapart.manifest.resolve_left
          (by simpa [hch] using fun heq ↦ hprunes heq.symm) idx hidx
        intro k hk hkch
        rw [Shard.mem_staleKeys, (h.shards idx hn).view k hkch, ← Shard.mem_staleKeys] at hk
        exact hstale k hk hkch
      have hpick {c : Coordinator} (hresets : c.resets rec = false) (hn : c.n = sys.coordinator.n) :
          c.sentTo idx (σ, .record rec) =
            if c.prunes rec = true ∧ idx < sys.coordinator.n then
              [(σ idx, .manifestPrune (toUint16 rec.fields.manifestSeq))] else [] := by
        rw [Coordinator.sentTo, Coordinator.take, Coordinator.dispatch_manifest c rec htype hresets]
        by_cases hp : c.prunes rec = true
        · rw [if_pos hp, Coordinator.pick_broadcast, hn]
          simp [hp]
        · rw [if_neg hp, if_neg fun h ↦ hp h.1]
          rfl
      rw [hpick hresets rfl] at hquiet' ⊢
      rw [hpick hresets' h.coordinator.n]
      by_cases hidx : idx < sys.coordinator.n
      · cases hsys : sys.coordinator.prunes rec with
        | true =>
            rw [if_pos ⟨hsys, hidx⟩] at hquiet'
            rw [if_pos ⟨rfl, hidx⟩, if_neg fun hown' ↦ hprunes (hown'.1.trans hsys.symm)]
            exact (h.shards idx hn).step_left (hs idx) (σ idx, .manifestPrune _) (hunseen hidx) hquiet'
        | false =>
            have hown' : own.coordinator.prunes rec = true := by
              rw [hsys] at hprunes
              exact Bool.not_eq_false _ ▸ hprunes
            rw [if_neg fun h ↦ Bool.false_ne_true h.1, if_pos ⟨hown', hidx⟩]
            exact (h.shards idx hn).prune_right (ht idx) (σ idx) (hunseen hidx)
      · rw [if_neg fun h ↦ hidx h.2, if_neg fun h ↦ hidx h.2]
        exact h.shards idx hn

/-- A drop of the socket. -/
theorem disconnect (h : Mirrors ch n sys own)
    (hs : ∀ idx k, (sys.shards idx).Holds (fun _ ↦ True) k)
    (ht : ∀ idx k, (own.shards idx).Holds (fun _ ↦ True) k)
    (hquiet : ∀ idx < n, ((sys.step (σ, .disconnect)).shards idx).overflows =
      (sys.shards idx).overflows) :
    Mirrors ch n (sys.step (σ, .disconnect)) (own.step (σ, .disconnect)) := by
  refine ⟨⟨h.coordinator.n, h.coordinator.resetCount, rfl, fun d hd ↦ absurd hd (by
    simp [step, Coordinator.take, Coordinator.onDisconnect])⟩, fun idx hn ↦ ?_⟩
  have hquiet' := hquiet idx hn
  have hsent : own.coordinator.sentTo idx (σ, .disconnect) =
      sys.coordinator.sentTo idx (σ, .disconnect) := by
    simp only [Coordinator.sentTo, Coordinator.take, Coordinator.onDisconnect,
      Coordinator.broadcast, h.coordinator.n]
  rw [step_shards] at hquiet' ⊢
  rw [step_shards, hsent]
  refine (h.shards idx hn).run_both (hs idx) (ht idx) _ (fun a ha rec hrec ↦ ?_) hquiet'
  have hmsg := (sys.coordinator.mem_broadcast (Coordinator.mem_pick ha)).2
  exact absurd (hrec.symm.trans hmsg) ShardMsg.noConfusion

end System.Mirrors

/-! ## Runs -/

namespace System

variable (n : ℕ) (maxBuffered : ℤ) (symbols : Option (List String))

theorem run_holds (as : List Arrival) (idx : ℕ) (k : InstKey) :
    ((run step (new n maxBuffered symbols) as).shards idx).Holds (fun _ ↦ True) k := by
  rw [run_shards]
  exact Shard.run_holds (Q := fun _ _ ↦ True) (Shard.new_holds maxBuffered symbols _)
    (fun _ _ _ _ _ ↦ trivial) k

/-- Overflows are counted up. -/
theorem overflows_mono (sys : System) {pre as : List Arrival} (hpre : pre <+: as) (idx : ℕ) :
    ((run step sys pre).shards idx).overflows ≤ ((run step sys as).shards idx).overflows := by
  obtain ⟨rest, rfl⟩ := hpre
  rw [run_append, run_shards _ rest]
  exact (Shard.run_spends _ _).overflows

/-- In a run without an overflow no step has one. -/
theorem step_quiet (sys : System) {pre as : List Arrival} {a : Arrival}
    {idx : ℕ} (hquiet : ((run step sys as).shards idx).overflows = (sys.shards idx).overflows)
    (hpre : pre ++ [a] <+: as) : (((run step sys pre).step a).shards idx).overflows =
      ((run step sys pre).shards idx).overflows := by
  have hlast := overflows_mono sys hpre idx
  have hfirst := overflows_mono sys (List.nil_prefix (l := pre)) idx
  have hstep := overflows_mono (run step sys pre) (List.nil_prefix (l := [a])) idx
  rw [run_snoc, hquiet] at hlast
  exact le_antisymm (hlast.trans hfirst) hstep

end System

/-- **A channel is its own run.**  In a run without an overflow, whatever the interleaving, that
keeps apart from the channel at every record, the shards know of the channel's instruments what
the channel's own records have told them. -/
theorem channel_isolated (n : ℕ) {maxBuffered : ℤ} (symbols : Option (List String))
    (budget : 0 ≤ maxBuffered) (ch : ℕ) (as : List Arrival)
    (hquiet : ∀ idx < n,
      ((run System.step (System.new n maxBuffered symbols) as).shards idx).overflows = 0)
    (hapart : ∀ pre a, pre ++ [a] <+: as → ∀ rec ∈ a.2.asRecord,
      Apart ch (run System.step (System.new n maxBuffered symbols) (ownRun ch pre)).coordinator
        (run System.step (System.new n maxBuffered symbols) pre) rec) :
    ∀ pre, pre <+: as → ∀ idx < n, ∀ k, k.ch = ch →
      ((run System.step (System.new n maxBuffered symbols) (ownRun ch pre)).shards idx).view k =
        ((run System.step (System.new n maxBuffered symbols) pre).shards idx).view k := by
  intro pre hpre idx hn k hk
  have hinit : System.Mirrors ch n (System.new n maxBuffered symbols)
      (System.new n maxBuffered symbols) := by
    refine ⟨⟨rfl, rfl, rfl, by rintro d ⟨⟩⟩, fun idx _ ↦ ?_⟩
    exact ⟨fun _ _ ↦ rfl, fun _ _ ↦ by simp [System.new, Shard.new], rfl,
      Shard.new_accounted symbols budget, Shard.new_accounted symbols budget⟩
  have hmirrors : System.Mirrors ch n (run System.step (System.new n maxBuffered symbols) pre)
      (run System.step (System.new n maxBuffered symbols) (ownRun ch pre)) := by
    refine run_unwind (fun a ↦ a.2.ownedBy ch) pre hinit (fun pre' a hpre' hown h ↦ ?_)
      fun pre' a hpre' hown h ↦ ?_
    all_goals
      obtain ⟨σ, input⟩ := a
      have hs := System.run_holds n maxBuffered symbols pre'
      have hstep := fun idx hn ↦ System.step_quiet _ (hquiet idx hn) (hpre'.trans hpre)
    · have ht := System.run_holds n maxBuffered symbols (ownRun ch pre')
      cases input with
      | disconnect => exact h.disconnect hs ht hstep
      | record rec =>
          have hrec := hapart pre' _ (hpre'.trans hpre) rec rfl
          exact h.both hs ht hrec (of_decide_eq_true hown) hstep
    · cases input with
      | disconnect => exact absurd hown (by simp [Input.ownedBy])
      | record rec =>
          have hrec := hapart pre' _ (hpre'.trans hpre) rec rfl
          exact h.hidden hs hrec (of_decide_eq_false hown) hstep
  exact (hmirrors.shards idx hn).view k hk

/-! ## A summary of another channel -/

def manifestSummaryRec (ch : ℕ) (manifestSeq : ℤ) : Record where
  type := .manifestSummary
  channelID := ch
  port := .refdata
  fields := { manifestSeq := manifestSeq, valid := 1, instrumentCount := 1 }

/-- Two channels that number their manifests alike, with an instrument id in common. -/
def alike : List Arrival :=
  [instDefRec ⟨1, 11⟩ "A" 5, instDefRec ⟨2, 11⟩ "B" 5, manifestSummaryRec 1 5,
    levelUpdateRec ⟨2, 11⟩ 8 1 .bid 100 1, manifestSummaryRec 2 5,
    levelUpdateRec ⟨1, 11⟩ 9 1 .ask 101 1].map fun rec ↦ (default, .record rec)

theorem channel_isolated_alike :
    ((run System.step (System.new 2 10 none) (ownRun 1 alike)).shards 1).view ⟨1, 11⟩ =
      ((run System.step (System.new 2 10 none) alike).shards 1).view ⟨1, 11⟩ := by
  refine channel_isolated 2 none (by decide) 1 alike (by decide) ?_ alike (List.prefix_refl _) 1
    (by decide) ⟨1, 11⟩ rfl
  change ∀ pre a, pre ++ [a] <+: [_, _, _, _, _, _] → _
  simp only [forall_prefix_cons]
  refine ⟨?_, ?_, ?_, ?_, ?_, ?_, forall_prefix_nil⟩ <;> rintro rec ⟨⟩ <;> decide

/-- The second channel is at another manifest. -/
def bumped : List Arrival :=
  [instDefRec ⟨1, 11⟩ "A" 5, manifestSummaryRec 1 5, manifestSummaryRec 2 100].map
    fun rec ↦ (default, .record rec)

/-- Its summary takes the first channel's instrument out of the shard. -/
theorem foreign_summary_prunes_channel :
    ((run System.step (System.new 1 10 none) bumped).shards 0).overflows = 0 ∧
      ((run System.step (System.new 1 10 none) (ownRun 1 bumped)).shards 0).refdata.keys =
        [⟨1, 11⟩] ∧
      ((run System.step (System.new 1 10 none) bumped).shards 0).refdata.keys = [] ∧
      ((run System.step (System.new 1 10 none) (ownRun 1 bumped)).shards 0).view ⟨1, 11⟩ ≠
        ((run System.step (System.new 1 10 none) bumped).shards 0).view ⟨1, 11⟩ := by
  refine ⟨by decide, by decide, by decide, fun h ↦ ?_⟩
  exact absurd (congrArg (fun v ↦ v.inst.isSome) h) (by decide)

end EdgeMulticast.MarketByPrice
