import EdgeMulticast.Rows.Admitted

/-!
# Which gap a redundant instance filled

Two sources on one channel and port are two instances of one channel, and what one of them is missing
the other one may have delivered.  Whether it did is read off the eras and runs that the report has of
it; `redundant_judged` says it of the datagrams.
-/

namespace EdgeMulticast.Rows

open EdgeMulticast.Lib
open EdgeMulticast.Lib.Ranges (IsGap)
open EdgeMulticast.Loss
open EdgeMulticast.Loss.EraMark (belongs noted)
open EdgeMulticast.Recorder (ChannelInstance PortRole)
open Std (ExtTreeMap)

/-! ## The Reset Count of an era -/

section

variable {marks : List EraMark} {resetCount seq k : ℕ} {mark : EraMark}

theorem belongs_le (marks : List EraMark) (resetCount seq : ℕ) :
    belongs marks resetCount seq ≤ marks.length := by
  rw [belongs]
  split
  · exact Nat.sub_le ..
  · split
    · exact Nat.sub_le ..
    · exact Nat.le_refl _

/-- An era that is there already has the Reset Count of what belongs to it. -/
theorem resetCount_of_belongs (hk : belongs marks resetCount seq = k) (h : marks[k]? = some mark) :
    mark.resetCount = resetCount := by
  rw [belongs] at hk
  split at hk
  next hbefore =>
      rw [Option.any_eq_true] at hbefore
      obtain ⟨before, hsome, hand⟩ := hbefore
      rw [List.getLast?_dropLast] at hsome
      split at hsome
      next => cases hsome
      next =>
          rw [hk, h] at hsome
          obtain rfl := Option.some.inj hsome
          exact (of_decide_eq_true hand).1
  next =>
      split at hk
      next hlast =>
          rw [Option.any_eq_true] at hlast
          obtain ⟨last, hsome, hreset⟩ := hlast
          rw [List.getLast?_eq_getElem?, hk, h] at hsome
          obtain rfl := Option.some.inj hsome
          exact of_decide_eq_true hreset
      next =>
          rw [← hk, List.getElem?_eq_none (Nat.le_refl _)] at h
          cases h

/-- No value changes the Reset Count of an era. -/
theorem getElem?_noted (resetCount seq : ℕ) (h : marks[k]? = some mark) :
    ∃ mark', (noted marks resetCount seq)[k]? = some mark' ∧
      mark'.resetCount = mark.resetCount := by
  rw [noted]
  split
  next => exact ⟨mark, by rw [List.getElem?_append_left (List.getElem?_eq_some_iff.mp h).1, h], rfl⟩
  next =>
      rw [List.getElem?_modify, h, Option.map_eq_map, Option.map_some]
      refine ⟨_, rfl, ?_⟩
      split <;> rfl

theorem getElem?_noted_belongs (marks : List EraMark) (resetCount seq : ℕ) :
    ∃ mark, (noted marks resetCount seq)[belongs marks resetCount seq]? = some mark ∧
      mark.resetCount = resetCount := by
  by_cases hnew : belongs marks resetCount seq = marks.length
  · rw [noted, if_pos hnew, hnew, List.getElem?_concat_length]
    exact ⟨_, rfl, rfl⟩
  · have hlt := Nat.lt_of_le_of_ne (belongs_le marks resetCount seq) hnew
    have hget := List.getElem?_eq_getElem hlt
    obtain ⟨mark, hmark, hreset⟩ := getElem?_noted resetCount seq hget
    exact ⟨mark, hmark, hreset.trans (resetCount_of_belongs rfl hget)⟩

/-- The datagrams of an era carry its Reset Count. -/
theorem mark_of_eraOf {dgs : List Captured} {j : ℕ} {role : PortRole} {key : ChannelInstance}
    {dg : RecordedDatagram} (hj : dgs[j]? = some (.read role key dg)) (hera : eraOf dgs j = some k) :
    ∃ mark, (marksOf key dgs)[k]? = some mark ∧ mark.resetCount = dg.resetCount := by
  induction dgs using List.reverseRecOn with
  | nil => cases hj
  | append_singleton dgs c ih =>
      rcases Nat.lt_or_ge j dgs.length with hlt | hge
      · rw [List.getElem?_append_left hlt] at hj
        rw [eraOf_snoc hlt] at hera
        obtain ⟨mark, hmark, hreset⟩ := ih hj hera
        cases hc : c.of key with
        | none => exact ⟨mark, by rw [marksOf_snoc_of_none hc, hmark], hreset⟩
        | some dg' =>
            cases c with
            | short => cases hc
            | read role' key' dg' =>
                rw [Captured.of, Option.ite_none_right_eq_some] at hc
                obtain ⟨rfl, -⟩ := hc
                rw [marksOf_snoc]
                obtain ⟨mark', hmark', heq⟩ := getElem?_noted dg'.resetCount dg'.sequenceNumber hmark
                exact ⟨mark', hmark', heq.trans hreset⟩
      · have hend := (List.getElem?_eq_some_iff.mp hj).1
        rw [List.length_append, List.length_singleton] at hend
        obtain rfl : j = dgs.length := by omega
        rw [eraOf, hj, Option.some.injEq, List.take_left] at hera
        rw [List.getElem?_concat_length, Option.some.injEq] at hj
        rw [hj, marksOf_snoc, ← hera]
        exact getElem?_noted_belongs ..

end

/-! ## What an instance delivered -/

section

variable {s : InstanceState} {marks : List EraMark} {D : ℕ → ℕ → Prop}

/-- The runs of an era by its number are the gaps of what it was delivered. -/
theorem exists_run_of_era (h : s.Eras marks D) (i : ChannelInstance) {k : ℕ} {era : Era}
    (hera : s.eras[k]? = some era) {S : Finset ℕ} (hS : era.Holds S) {g : ℕ × ℕ} :
    (∃ r ∈ s.runs i, r.eraOrdinal = era.ordinal ∧ r.bounds = g) ↔ IsGap S g := by
  rw [← InstanceState.mem_runs_iff (s := s) (i := i) hS, List.mem_map]
  constructor
  · rintro ⟨r, hr, hordinal, hbounds⟩
    obtain ⟨era', hmem, hr⟩ := List.mem_flatMap.mp hr
    obtain ⟨k', hk'⟩ := List.mem_iff_getElem?.mp hmem
    have hsame : k' = k := by
      have := h.ordinal k era hera
      have := h.ordinal k' era' hk'
      have := (InstanceState.of_mem_eraRuns hr).2
      omega
    rw [hsame, hera] at hk'
    obtain rfl := Option.some.inj hk'
    exact ⟨r, hr, hbounds⟩
  · rintro ⟨r, hr, hbounds⟩
    exact ⟨r, List.mem_flatMap.mpr ⟨era, List.mem_of_getElem? hera, hr⟩,
      (InstanceState.of_mem_eraRuns hr).2, hbounds⟩

/-- A peer delivered a whole run if one of its eras, of the Reset Count of the run, was delivered every
value of it. -/
theorem deliveredWholeRun_iff (h : s.Eras marks D) (i : ChannelInstance) {r : SequenceRun}
    (hle : r.missingFrom ≤ r.missingTo) : deliveredWholeRun (s.finish i) r ↔
      ∃ k mark, marks[k]? = some mark ∧ mark.resetCount = r.resetCount ∧
        ∀ n, r.missingFrom ≤ n → n ≤ r.missingTo → D k n := by
  have hruns (era : Era) : ((s.finish i).runs.any fun peerRun ↦
      peerRun.eraOrdinal = era.coverage.ordinal ∧ peerRun.missingFrom ≤ r.missingTo ∧
        r.missingFrom ≤ peerRun.missingTo) = true ↔
      ∃ g, (∃ r' ∈ s.runs i, r'.eraOrdinal = era.ordinal ∧ r'.bounds = g) ∧
        g.1 ≤ r.missingTo ∧ r.missingFrom ≤ g.2 := by
    rw [List.any_eq_true]
    constructor
    · rintro ⟨r', hr', hand⟩
      obtain ⟨hordinal, hmeets⟩ := of_decide_eq_true hand
      exact ⟨r'.bounds, ⟨r', hr', hordinal, rfl⟩, hmeets⟩
    · rintro ⟨_, ⟨r', hr', hordinal, rfl⟩, hmeets⟩
      exact ⟨r', hr', decide_eq_true ⟨hordinal, hmeets⟩⟩
  -- of one era, the ends and the gaps say what the datagrams do
  have hera {k : ℕ} {era : Era} (hk : s.eras[k]? = some era) :
      (∀ n, r.missingFrom ≤ n → n ≤ r.missingTo → D k n) ↔
        era.coverage.firstSeq ≤ r.missingFrom ∧ r.missingTo ≤ era.coverage.lastSeq ∧
          ¬((s.finish i).runs.any fun peerRun ↦
            peerRun.eraOrdinal = era.coverage.ordinal ∧ peerRun.missingFrom ≤ r.missingTo ∧
              r.missingFrom ≤ peerRun.missingTo) = true := by
    obtain ⟨S, hS, hmem⟩ := h.holds k era hk
    have hexact := hS.exact
    simp only [← hmem]
    rw [Ranges.interval_subset_iff hexact.first_mem hexact.last_mem hexact.ends hle, hruns]
    refine and_congr_right fun _ ↦ and_congr_right fun _ ↦ ?_
    simp only [exists_run_of_era h i hk hS, not_exists, not_and]
  rw [deliveredWholeRun, List.any_eq_true]
  constructor
  · rintro ⟨coverage, hcoverage, hand⟩
    obtain ⟨era, hmem, rfl⟩ := List.mem_map.mp hcoverage
    obtain ⟨k, hk⟩ := List.mem_iff_getElem?.mp hmem
    obtain ⟨hreset, hrest⟩ := of_decide_eq_true hand
    refine ⟨k, era.mark, ?_, hreset, (hera hk).mpr hrest⟩
    rw [← h.marked, List.getElem?_map, hk, Option.map_some]
  · rintro ⟨k, mark, hmark, hreset, hall⟩
    rw [← h.marked, List.getElem?_map] at hmark
    obtain ⟨era, hk, rfl⟩ := Option.map_eq_some_iff.mp hmark
    exact ⟨era.coverage, List.mem_map_of_mem (List.mem_of_getElem? hk),
      decide_eq_true ⟨hreset, (hera hk).mp hall⟩⟩

end

/-! ## The instances of an object -/

/-- An instance that the report has was read from. -/
theorem read_of_mem {dgs : List Captured} {scope : CaptureDropScope} {key : ChannelInstance}
    {s : InstanceState} (h : (run LossDeriver.observe { scope } dgs).instances[key]? = some s) :
    ∃ role dg, .read role key dg ∈ dgs := by
  induction dgs using List.reverseRecOn generalizing s with
  | nil =>
      rw [run_nil, show ({ scope } : LossDeriver).instances[key]? = none from
        ExtTreeMap.getElem?_empty] at h
      cases h
  | append_singleton dgs c ih =>
      rw [run_snoc] at h
      have hbefore {s : InstanceState}
          (h : (run LossDeriver.observe { scope } dgs).instances[key]? = some s) :
          ∃ role dg, .read role key dg ∈ dgs ++ [c] := by
        obtain ⟨role, dg, hmem⟩ := ih h
        exact ⟨role, dg, List.mem_append_left _ hmem⟩
      generalize hd : run LossDeriver.observe { scope } dgs = d at h hbefore
      have hobs := d.observe_cases c
      generalize d.observe c = d' at h hobs
      cases hobs with
      | short _ _ _ hinstances | refused _ _ _ _ hinstances =>
          rw [hinstances] at h
          exact hbefore h
      | read role key' dg _ hinstances =>
          rw [hinstances, getElem?_insert_eq] at h
          split at h
          next hkey =>
              subst hkey
              exact ⟨role, dg, by simp⟩
          next => exact hbefore h

section

variable {dgs : List Captured} {input : DeriveInput} {key : ChannelInstance}
  (hwithin : (folded input.dropScope dgs).loss.Within)

include hwithin

/-- The report has the instances that were read from. -/
theorem exists_instance_iff : (∃ s, (folded input.dropScope dgs).loss.instances[key]? = some s) ↔
    ∃ role dg, .read role key dg ∈ dgs := by
  constructor
  · rintro ⟨s, hs⟩
    rw [loss_folded] at hs
    exact read_of_mem hs
  · rintro ⟨role, dg, hmem⟩
    obtain ⟨j, hj⟩ := List.mem_iff_getElem?.mp hmem
    cases hs : (folded input.dropScope dgs).loss.instances[key]? with
    | some s => exact ⟨s, rfl⟩
    | none =>
        have heras := (keeps_folded hwithin).eras key 0 .mktdata
        rw [hs] at heras
        have hbrought : Brought dgs key
            (belongs (marksOf key (dgs.take j)) dg.resetCount dg.sequenceNumber)
            dg.sequenceNumber := ⟨j, role, dg, hj, by rw [eraOf, hj], rfl⟩
        exact absurd (heras.beyond _ _ hbrought) (Nat.not_lt_zero _)

end

/-! ## Redundant instances -/

/-- Another source on the channel and port of a gap, of which a datagram came in. -/
structure Peer (dgs : List Captured) (row : SequenceGap) (peer : ChannelInstance) : Prop where
  channel : peer.channelId = row.instance.channelId
  port : peer.dstPort = row.instance.dstPort
  source : peer.source ≠ row.instance.source
  occurs : ∃ role dg, .read role peer dg ∈ dgs

/-- Every value of a gap was delivered by an instance, under the Reset Count of the gap and in one of
its eras. -/
def Fills (dgs : List Captured) (row : SequenceGap) (peer : ChannelInstance) : Prop :=
  ∃ k, ∀ n, row.missingFrom ≤ n → n ≤ row.missingTo →
    ∃ (j : ℕ) (role : PortRole) (dg : RecordedDatagram), dgs[j]? = some (.read role peer dg) ∧
      eraOf dgs j = some k ∧ dg.resetCount = row.resetCount ∧ dg.sequenceNumber = n

/-- What the report has of the other sources on a channel and port. -/
def peersOf (report : LossReport) (key : ChannelInstance) : List InstanceLoss :=
  (report.instances.toList.map Prod.snd).filter fun peer ↦
    peer.instance.channelId = key.channelId ∧ peer.instance.dstPort = key.dstPort ∧
      peer.instance.source ≠ key.source

/-- Whether a gap is on the redundant path is what the datagrams of its peers say. -/
structure Judged (dgs : List Captured) (row : SequenceGap) : Prop where
  absent : row.onRedundantPath = none ↔ ¬∃ peer, Peer dgs row peer
  filled : row.onRedundantPath = some 1 ↔ ∃ peer, Peer dgs row peer ∧ Fills dgs row peer
  unfilled : row.onRedundantPath = some 0 ↔
    (∃ peer, Peer dgs row peer) ∧ ¬∃ peer, Peer dgs row peer ∧ Fills dgs row peer
  /-- It is path loss if no stronger excuse comes before that. -/
  path : row.verdict = .path ↔ row.unexplainedCount ≠ some 0 ∧
    ¬row.interfaceDrops.any (0 < ·) ∧ ∃ peer, Peer dgs row peer ∧ Fills dgs row peer

section

variable {dgs : List Captured} {input : DeriveInput} {key : ChannelInstance} {s : InstanceState}
  {r : SequenceRun}

theorem verdict_eq_path {unexplainedCount interfaceDrops onRedundantPath : Option ℕ} :
    verdict unexplainedCount interfaceDrops onRedundantPath = .path ↔
      unexplainedCount ≠ some 0 ∧ ¬interfaceDrops.any (0 < ·) ∧ onRedundantPath = some 1 := by
  rw [verdict]
  split
  next h => simp [h]
  next h =>
      split
      next h' => simp [h']
      next h' =>
          split
          next h'' => simp [h, h', h'']
          next h'' => simp [h'']

/-- The answer over some peers: none if there are none, and one if there is one that delivered. -/
theorem answer_iff {α : Type*} (peers : List α) (p : α → Bool) :
    let answer := if peers = [] then none else some (if peers.any p then 1 else 0)
    (answer = none ↔ ¬∃ peer, peer ∈ peers) ∧
      (answer = some 1 ↔ ∃ peer ∈ peers, p peer) ∧
      (answer = some 0 ↔ (∃ peer, peer ∈ peers) ∧ ¬∃ peer ∈ peers, p peer) := by
  dsimp only
  rw [← List.any_eq_true]
  cases peers with
  | nil => simp
  | cons peer peers =>
      rw [if_neg (List.cons_ne_nil peer peers)]
      cases (peer :: peers).any p <;> simp

/-- What the datagrams of an era brought is what fills a gap. -/
theorem fills_iff (row : SequenceGap) (hle : row.missingFrom ≤ row.missingTo) :
    Fills dgs row key ↔ ∃ k mark, (marksOf key dgs)[k]? = some mark ∧
      mark.resetCount = row.resetCount ∧
        ∀ n, row.missingFrom ≤ n → n ≤ row.missingTo → Brought dgs key k n := by
  constructor
  · rintro ⟨k, hall⟩
    obtain ⟨j, role, dg, hj, hera, hreset, -⟩ := hall _ (Nat.le_refl _) hle
    obtain ⟨mark, hmark, heq⟩ := mark_of_eraOf hj hera
    refine ⟨k, mark, hmark, heq.trans hreset, fun n hlow hhigh ↦ ?_⟩
    obtain ⟨j, role, dg, hj, hera, -, hn⟩ := hall n hlow hhigh
    exact ⟨j, role, dg, hj, hera, hn⟩
  · rintro ⟨k, mark, hmark, hreset, hall⟩
    refine ⟨k, fun n hlow hhigh ↦ ?_⟩
    obtain ⟨j, role, dg, hj, hera, hn⟩ := hall n hlow hhigh
    obtain ⟨mark', hmark', heq⟩ := mark_of_eraOf hj hera
    obtain rfl := Option.some.inj (hmark.symm.trans hmark')
    exact ⟨j, role, dg, hj, hera, heq.symm.trans hreset, hn⟩

variable (hwithin : (folded input.dropScope dgs).loss.Within)

include hwithin

/-- A run of an instance is not empty. -/
theorem run_le (hs : (folded input.dropScope dgs).loss.instances[key]? = some s)
    (hr : r ∈ s.runs key) : r.missingFrom ≤ r.missingTo := by
  obtain ⟨era, hera, hr⟩ := List.mem_flatMap.mp hr
  obtain ⟨k, hk⟩ := List.mem_iff_getElem?.mp hera
  obtain ⟨S, hS, -⟩ := (eras_folded hwithin hs).holds k era hk
  exact ((InstanceState.mem_runs_iff hS).mp (List.mem_map_of_mem hr)).le

/-- The peers that the report has are those of which a datagram came in. -/
theorem mem_peersOf_iff {row : SequenceGap} (hrow : row.instance = key) {loss : InstanceLoss} :
    loss ∈ peersOf (folded input.dropScope dgs).loss.finish key ↔
      ∃ peer s', (folded input.dropScope dgs).loss.instances[peer]? = some s' ∧
        s'.finish peer = loss ∧ Peer dgs row peer := by
  dsimp only [peersOf, LossDeriver.finish]
  rw [ExtTreeMap.toList_map, List.map_map, List.mem_filter, List.mem_map, decide_eq_true_eq]
  constructor
  · rintro ⟨⟨⟨peer, s'⟩, hmem, rfl⟩, hchannel, hport, hsource⟩
    have hs' := ExtTreeMap.mem_toList_iff_getElem?_eq_some.mp hmem
    exact ⟨peer, s', hs', rfl, hrow ▸ hchannel, hrow ▸ hport, hrow ▸ hsource,
      (exists_instance_iff hwithin).mp ⟨s', hs'⟩⟩
  · rintro ⟨peer, s', hs', rfl, hchannel, hport, hsource, -⟩
    subst hrow
    exact ⟨⟨(peer, s'), ExtTreeMap.mem_toList_iff_getElem?_eq_some.mpr hs', rfl⟩, hchannel, hport,
      hsource⟩

/-- **A gap is path loss exactly if a redundant instance filled it.** -/
theorem redundant_judged : ∀ row ∈ (derive dgs input).sequenceGap, Judged dgs row := by
  intro row hrow
  obtain ⟨key, s, hs, r, hr, rfl⟩ := mem_sequenceGap.mp hrow
  have hinstance := (rowIn_eq hwithin hs hr).1
  have hle := run_le hwithin hs hr
  have hmem {loss : InstanceLoss} :
      loss ∈ peersOf (folded input.dropScope dgs).loss.finish key ↔ _ :=
    mem_peersOf_iff hwithin hinstance
  have hpeers : (∃ loss, loss ∈ peersOf (folded input.dropScope dgs).loss.finish key) ↔
      ∃ peer, Peer dgs (rowIn dgs input key s r) peer := by
    constructor
    · rintro ⟨loss, hloss⟩
      obtain ⟨peer, -, -, -, hpeer⟩ := hmem.mp hloss
      exact ⟨peer, hpeer⟩
    · rintro ⟨peer, hpeer⟩
      obtain ⟨s', hs'⟩ := (exists_instance_iff hwithin).mpr hpeer.occurs
      exact ⟨_, hmem.mpr ⟨peer, s', hs', rfl, hpeer⟩⟩
  have hdelivered {peer : ChannelInstance} {s' : InstanceState}
      (hs' : (folded input.dropScope dgs).loss.instances[peer]? = some s') :
      deliveredWholeRun (s'.finish peer) r ↔ Fills dgs (rowIn dgs input key s r) peer := by
    rw [deliveredWholeRun_iff (eras_folded hwithin hs') peer hle]
    exact (fills_iff (rowIn dgs input key s r) hle).symm
  have hfills : (∃ loss ∈ peersOf (folded input.dropScope dgs).loss.finish key,
        deliveredWholeRun loss r) ↔
      ∃ peer, Peer dgs (rowIn dgs input key s r) peer ∧
        Fills dgs (rowIn dgs input key s r) peer := by
    constructor
    · rintro ⟨loss, hloss, hwhole⟩
      obtain ⟨peer, s', hs', rfl, hpeer⟩ := hmem.mp hloss
      exact ⟨peer, hpeer, (hdelivered hs').mp hwhole⟩
    · rintro ⟨peer, hpeer, hfilled⟩
      obtain ⟨s', hs'⟩ := (exists_instance_iff hwithin).mpr hpeer.occurs
      exact ⟨_, hmem.mpr ⟨peer, s', hs', rfl, hpeer⟩, (hdelivered hs').mpr hfilled⟩
  obtain ⟨habsent, hfilled, hunfilled⟩ :=
    answer_iff (peersOf (folded input.dropScope dgs).loss.finish key) (deliveredWholeRun · r)
  rw [hpeers] at habsent hunfilled
  rw [hfills] at hfilled hunfilled
  refine ⟨habsent, hfilled, hunfilled, verdict_eq_path.trans ?_⟩
  exact and_congr_right fun _ ↦ and_congr_right fun _ ↦ hfilled

end

theorem heard_word : 5 ≤ U64_MAX := by decide

/-- An object with a gap, and with what is missing from the other source. -/
def filledObject : List Captured := [heard 1 0 0, heard 5 0 0 heard_word] ++
  [2, 3, 4].map fun n ↦ .read .mktdata ⟨2, 0, 5000⟩ (.ofWord n 0)

theorem redundant_judged_filledObject :
    (derive filledObject heardInput).sequenceGap.map SequenceGap.onRedundantPath = [some 1] ∧
      ∀ row ∈ (derive filledObject heardInput).sequenceGap, Judged filledObject row :=
  ⟨by decide +kernel, redundant_judged (by decide +kernel)⟩

end EdgeMulticast.Rows
