import EdgeMulticast.Archive.Segment

/-!
# What a segment's statistics describe

Five accumulators advance along the writes of a segment.  The counts, the drops and the rows of the
channel instances are those of the datagrams, whatever their stamps.  The window is from the stamp of
the first datagram that was written to the stamp of the last one, which is the window of the stamps
only where no other datagram was stamped before the first or behind the last.
-/

namespace EdgeMulticast.Archive

open EdgeMulticast.Lib
open EdgeMulticast.Codec (DATAGRAM_HEADER_SIZE)
open EdgeMulticast.Loss (CaptureDropScope)
open EdgeMulticast.Recorder (ChannelInstance PortRole)
open Std (ExtTreeMap ExtTreeSet)

/-- What an open segment is fed. -/
inductive Fed where
  | datagram (dg : RecordedDatagram)
  | interfaceDrops (role : PortRole) (delta : ℕ)

def SegmentWriter.feed (w : SegmentWriter) : Fed → SegmentWriter
  | .datagram dg => w.write dg
  | .interfaceDrops role delta => w.recordInterfaceDrops role delta

/-- The datagrams of a segment, in the order they were written. -/
def datagrams (fed : List Fed) : List RecordedDatagram :=
  fed.filterMap fun
    | .datagram dg => some dg
    | .interfaceDrops _ _ => none

/-! ## The rows of the channel instances -/

namespace RecordedDatagram

variable (dg : RecordedDatagram)

def sequenceNumber : UInt64 := u64At dg.payload 4

def resetCount : Byte := byteAt dg.payload 21

/-- The channel instance of a datagram that is long enough to have a header. -/
def channelInstance : Option ChannelInstance :=
  if dg.payload.length < DATAGRAM_HEADER_SIZE then none
  else some ⟨dg.src.ip.toNat, (byteAt dg.payload 3).toNat, dg.dst.port.toNat⟩

end RecordedDatagram

/-- The datagrams of one channel instance. -/
def owned (key : ChannelInstance) (dgs : List RecordedDatagram) : List RecordedDatagram :=
  dgs.filter fun dg ↦ dg.channelInstance = some key

/-- A row that describes some datagrams, in the order they arrived in. -/
structure Row (own : List RecordedDatagram) (cov : Coverage) : Prop where
  first : own.head?.map RecordedDatagram.sequenceNumber = some cov.firstSeq
  last : own.getLast?.map RecordedDatagram.sequenceNumber = some cov.lastSeq
  count : cov.count = own.length
  resets : ∀ r, r ∈ cov.resetCountsSeen ↔ ∃ dg ∈ own, dg.resetCount = r

/-- The row of an instance's first datagram. -/
def Coverage.start (dg : RecordedDatagram) : Coverage :=
  ⟨dg.sequenceNumber, dg.sequenceNumber, 1, .ofList [dg.resetCount]⟩

/-- The row with one datagram more. -/
def Coverage.next (cov : Coverage) (dg : RecordedDatagram) : Coverage :=
  { cov with
    lastSeq := dg.sequenceNumber
    count := cov.count + 1
    resetCountsSeen := cov.resetCountsSeen.insert dg.resetCount }

variable {own dgs : List RecordedDatagram} {cov : Coverage} {t : CoverageTracker}
  {key : ChannelInstance}

theorem row_start (dg : RecordedDatagram) : Row [dg] (.start dg) where
  first := rfl
  last := rfl
  count := rfl
  resets r := by
    rw [Coverage.start, ExtTreeSet.mem_ofList, List.contains_iff_mem, List.mem_singleton]
    constructor
    · rintro rfl
      exact ⟨dg, List.mem_singleton_self dg, rfl⟩
    · rintro ⟨dg', hmem, rfl⟩
      rw [List.mem_singleton.mp hmem]

theorem Row.next (h : Row own cov) (dg : RecordedDatagram) : Row (own ++ [dg]) (cov.next dg) where
  first := by
    obtain ⟨first, hfirst, hseq⟩ := Option.map_eq_some_iff.mp h.first
    rw [List.head?_append, hfirst, Option.some_or, Option.map_some, hseq]
    rfl
  last := by
    rw [List.getLast?_concat]
    rfl
  count := by
    rw [List.length_append, List.length_singleton, ← h.count]
    rfl
  resets r := by
    rw [Coverage.next, ExtTreeSet.mem_insert, h.resets]
    constructor
    · rintro (heq | ⟨dg', hmem, heq⟩)
      · exact ⟨dg, List.mem_append_right _ (List.mem_singleton_self dg),
          Std.LawfulEqCmp.eq_of_compare heq⟩
      · exact ⟨dg', List.mem_append_left _ hmem, heq⟩
    · rintro ⟨dg', hmem, rfl⟩
      rcases List.mem_append.mp hmem with hmem | hmem
      · exact .inr ⟨dg', hmem, rfl⟩
      · rw [List.mem_singleton.mp hmem]
        exact .inl Std.ReflCmp.compare_self

/-- A tracker that has observed some datagrams. -/
structure Tracks (dgs : List RecordedDatagram) (t : CoverageTracker) : Prop where
  row : ∀ key cov, t.instances[key]? = some cov → Row (owned key dgs) cov
  full : ∀ key, t.instances[key]? = none → owned key dgs ≠ [] → MAX_INSTANCES ≤ t.instances.size
  count : dgs.length = t.shortDatagrams + t.instancesDropped + tally Coverage.count t.instances

theorem owned_snoc (key : ChannelInstance) (dgs : List RecordedDatagram) (dg : RecordedDatagram) :
    owned key (dgs ++ [dg]) =
      owned key dgs ++ if dg.channelInstance = some key then [dg] else [] := by
  rw [owned, List.filter_append]
  refine congrArg (owned key dgs ++ ·) ?_
  by_cases h : dg.channelInstance = some key
  · rw [if_pos h, List.filter_cons_of_pos (by exact decide_eq_true h), List.filter_nil]
  · rw [if_neg h, List.filter_cons_of_neg (by exact mt of_decide_eq_true h), List.filter_nil]

/-- What observing a datagram does. -/
theorem observe_eq (t : CoverageTracker) (dg : RecordedDatagram) : t.observe dg =
    dg.channelInstance.elim { t with shortDatagrams := t.shortDatagrams + 1 } fun key ↦
      (t.instances[key]?).elim
        (if MAX_INSTANCES ≤ t.instances.size then
          { t with instancesDropped := t.instancesDropped + 1 }
        else { t with instances := t.instances.insert key (.start dg) })
        fun cov ↦ { t with instances := t.instances.insert key (cov.next dg) } := by
  rw [CoverageTracker.observe, RecordedDatagram.channelInstance]
  split
  next => rfl
  next =>
      dsimp only [Option.elim_some]
      split
      next cov hcov => rw [hcov]; rfl
      next hnone => rw [hnone]; rfl

theorem Tracks.observe (h : Tracks dgs t) (dg : RecordedDatagram) :
    Tracks (dgs ++ [dg]) (t.observe dg) := by
  rw [observe_eq]
  cases hinstance : dg.channelInstance with
  | none =>
      have howned (key : ChannelInstance) : owned key (dgs ++ [dg]) = owned key dgs := by
        rw [owned_snoc, hinstance, if_neg (Option.some_ne_none key).symm, List.append_nil]
      constructor
      · intro key cov hcov
        rw [howned]
        exact h.row key cov hcov
      · intro key hnone hne
        rw [howned] at hne
        exact h.full key hnone hne
      · have hcount := h.count
        dsimp only [Option.elim_none]
        rw [List.length_append, List.length_singleton]
        omega
  | some key =>
      have hself : owned key (dgs ++ [dg]) = owned key dgs ++ [dg] := by
        rw [owned_snoc, hinstance, if_pos rfl]
      have hother {key' : ChannelInstance} (hne : key ≠ key') :
          owned key' (dgs ++ [dg]) = owned key' dgs := by
        rw [owned_snoc, hinstance, if_neg fun heq ↦ hne (Option.some.inj heq), List.append_nil]
      have hcount := h.count
      dsimp only [Option.elim_some]
      cases hrow : t.instances[key]? with
      | some cov =>
          constructor
          · intro key' cov' hcov
            dsimp only [Option.elim_some] at hcov
            rw [getElem?_insert_eq] at hcov
            split at hcov
            next heq =>
                cases hcov
                rw [← heq, hself]
                exact (h.row key cov hrow).next dg
            next hne =>
                rw [hother hne]
                exact h.row key' cov' hcov
          · intro key' hnone hne
            dsimp only [Option.elim_some] at hnone ⊢
            rw [getElem?_insert_eq] at hnone
            split at hnone
            next => cases hnone
            next hkey =>
                rw [hother hkey] at hne
                exact (h.full key' hnone hne).trans ExtTreeMap.size_le_size_insert
          · have htally := tally_insert Coverage.count t.instances key (cov.next dg)
            rw [hrow, Option.elim_some] at htally
            change _ = _ + (cov.count + 1) at htally
            dsimp only [Option.elim_some]
            rw [List.length_append, List.length_singleton]
            omega
      | none =>
          dsimp only [Option.elim_none]
          split
          next hfull =>
              constructor
              · intro key' cov' hcov
                have hne : key ≠ key' := by
                  rintro rfl
                  exact Option.some_ne_none _ (hcov.symm.trans hrow)
                rw [hother hne]
                exact h.row key' cov' hcov
              · exact fun _ _ _ ↦ hfull
              · dsimp only
                rw [List.length_append, List.length_singleton]
                omega
          next hroom =>
              have hfirst : owned key dgs = [] := by
                by_contra hne
                exact hroom (h.full key hrow hne)
              constructor
              · intro key' cov' hcov
                dsimp only at hcov
                rw [getElem?_insert_eq] at hcov
                split at hcov
                next heq =>
                    cases hcov
                    rw [← heq, hself, hfirst]
                    exact row_start dg
                next hne =>
                    rw [hother hne]
                    exact h.row key' cov' hcov
              · intro key' hnone hne
                dsimp only at hnone ⊢
                rw [getElem?_insert_eq] at hnone
                split at hnone
                next => cases hnone
                next hkey =>
                    rw [hother hkey] at hne
                    exact absurd (h.full key' hnone hne) hroom
              · have htally := tally_insert Coverage.count t.instances key (.start dg)
                rw [hrow, Option.elim_none] at htally
                change _ = _ + 1 at htally
                dsimp only
                rw [List.length_append, List.length_singleton]
                omega

/-! ## The accumulators of a writer -/

/-- The drops that some datagrams report. -/
def dropTotal (dgs : List RecordedDatagram) : ℕ :=
  (dgs.map fun dg ↦ dg.dropDelta.toNat).sum

/-- The losses that a statistics block states of its interface. -/
def InterfaceStatisticsBlock.osDrops (isb : InterfaceStatisticsBlock) : ℕ :=
  (isb.options.filterMap fun
    | .isbOsDrop n => some n
    | _ => none).sum

/-- The losses that the statistics of a segment state, over all its interfaces. -/
def osDrops (blocks : List Block) : ℕ :=
  (blocks.filterMap fun
    | .interfaceStatistics isb => some isb.osDrops
    | _ => none).sum

/-- A writer that has written some datagrams. -/
structure Writes (cfg : SegmentWriterConfig) (dgs : List RecordedDatagram) (w : SegmentWriter) :
    Prop where
  tracks : Tracks dgs w.coverage
  scope : w.captureDropScope = cfg.captureDropScope
  joined : w.rolesJoined = ALL_ROLES.filter fun role ↦ cfg.rolesJoined.any fun j ↦ j.role = role
  count : w.datagramCount = dgs.length
  drops : w.captureDrops = dropTotal dgs
  perRole : cfg.captureDropScope = .portRole →
    ∀ role, (w.perRole role).captureDrops = dropTotal (dgs.filter fun dg ↦ dg.role = role)
  first : w.firstNs = dgs.head?.map RecordedDatagram.recvTsNs
  last : w.lastNs = (dgs.getLast?.map RecordedDatagram.recvTsNs).getD 0
  blocks : osDrops w.inner = 0

theorem dropTotal_append (dgs dgs' : List RecordedDatagram) :
    dropTotal (dgs ++ dgs') = dropTotal dgs + dropTotal dgs' := by
  rw [dropTotal, List.map_append, List.sum_append]
  rfl

theorem osDrops_append (blocks blocks' : List Block) :
    osDrops (blocks ++ blocks') = osDrops blocks + osDrops blocks' := by
  rw [osDrops, List.filterMap_append, List.sum_append]
  rfl

theorem writes_new (build : Build) (cfg : SegmentWriterConfig) :
    Writes cfg [] (.new build cfg) where
  tracks := by
    constructor
    · intro key cov hcov
      rw [SegmentWriter.new, ExtTreeMap.getElem?_empty] at hcov
      cases hcov
    · exact fun _ _ hne ↦ absurd rfl hne
    · change 0 = 0 + 0 + tally Coverage.count (∅ : ExtTreeMap ChannelInstance Coverage)
      rw [tally_empty]
  scope := rfl
  joined := rfl
  count := rfl
  drops := rfl
  perRole _ _ := rfl
  first := rfl
  last := rfl
  blocks := rfl

theorem Writes.write {cfg : SegmentWriterConfig} {w : SegmentWriter} (h : Writes cfg dgs w)
    (dg : RecordedDatagram) : Writes cfg (dgs ++ [dg]) (w.write dg) where
  tracks := h.tracks.observe dg
  scope := h.scope
  joined := h.joined
  count := by
    rw [List.length_append, List.length_singleton, ← h.count]
    rfl
  drops := by
    rw [dropTotal_append, ← h.drops]
    rfl
  perRole := by
    intro hscope role
    rw [List.filter_append, dropTotal_append, ← h.perRole hscope role]
    change (Function.update w.perRole dg.role _ role).captureDrops = _
    by_cases hrole : dg.role = role
    · rw [List.filter_cons_of_pos (by exact decide_eq_true hrole), List.filter_nil, ← hrole,
        Function.update_self, h.scope, hscope]
      rfl
    · rw [List.filter_cons_of_neg (by exact mt of_decide_eq_true hrole), List.filter_nil,
        Function.update_of_ne (Ne.symm hrole)]
      rfl
  first := by
    cases dgs with
    | nil => exact congrArg (fun ns ↦ some (Option.getD ns dg.recvTsNs)) h.first
    | cons first dgs => exact congrArg (fun ns ↦ some (Option.getD ns dg.recvTsNs)) h.first
  last := by
    rw [List.getLast?_concat]
    rfl
  blocks := by
    rw [SegmentWriter.write.eq_def, osDrops_append, h.blocks]
    rfl

theorem Writes.recordInterfaceDrops {cfg : SegmentWriterConfig} {w : SegmentWriter}
    (h : Writes cfg dgs w) (role : PortRole) (delta : ℕ) :
    Writes cfg dgs (w.recordInterfaceDrops role delta) where
  tracks := h.tracks
  scope := h.scope
  joined := h.joined
  count := h.count
  drops := h.drops
  perRole := by
    intro hscope role'
    rw [← h.perRole hscope role']
    change (Function.update w.perRole role _ role').captureDrops = _
    by_cases hrole : role = role'
    · rw [← hrole, Function.update_self]
    · rw [Function.update_of_ne (Ne.symm hrole)]
  first := h.first
  last := h.last
  blocks := h.blocks

theorem writes_run (build : Build) (cfg : SegmentWriterConfig) (fed : List Fed) :
    Writes cfg (datagrams fed) (run SegmentWriter.feed (.new build cfg) fed) := by
  induction fed using List.reverseRecOn with
  | nil => exact writes_new build cfg
  | append_singleton fed f ih =>
      rw [run_snoc, datagrams, List.filterMap_append]
      cases f with
      | datagram dg => exact ih.write dg
      | interfaceDrops role delta =>
          rw [List.filterMap_cons_none rfl, List.filterMap_nil, List.append_nil]
          exact ih.recordInterfaceDrops role delta

/-! ## A finished segment -/

theorem dropTotal_cons (dg : RecordedDatagram) (dgs : List RecordedDatagram) :
    dropTotal (dg :: dgs) = dg.dropDelta.toNat + dropTotal dgs := by
  rw [dropTotal, List.map_cons, List.sum_cons]
  rfl

theorem dropTotal_filter_cons {role : PortRole} {roles : List PortRole} (h : role ∉ roles)
    (dgs : List RecordedDatagram) : dropTotal (dgs.filter fun dg ↦ dg.role ∈ role :: roles) =
      dropTotal (dgs.filter fun dg ↦ dg.role = role) +
        dropTotal (dgs.filter fun dg ↦ dg.role ∈ roles) := by
  induction dgs with
  | nil => rfl
  | cons dg dgs ih =>
      by_cases hrole : dg.role = role
      · rw [List.filter_cons_of_pos (by simp [hrole]), List.filter_cons_of_pos (by simp [hrole]),
          List.filter_cons_of_neg (by simp [hrole, h]), dropTotal_cons, dropTotal_cons, ih,
          Nat.add_assoc]
      · by_cases hroles : dg.role ∈ roles
        · rw [List.filter_cons_of_pos (by simp [hroles]), List.filter_cons_of_neg (by simp [hrole]),
            List.filter_cons_of_pos (by simp [hroles]), dropTotal_cons, dropTotal_cons, ih,
            Nat.add_left_comm]
        · rw [List.filter_cons_of_neg (by simp [hrole, hroles]),
            List.filter_cons_of_neg (by simp [hrole]), List.filter_cons_of_neg (by simp [hroles]), ih]

/-- The drops of some roles are those of each of them together. -/
theorem sum_dropTotal {roles : List PortRole} (hnodup : roles.Nodup) (dgs : List RecordedDatagram) :
    (roles.map fun role ↦ dropTotal (dgs.filter fun dg ↦ dg.role = role)).sum =
      dropTotal (dgs.filter fun dg ↦ dg.role ∈ roles) := by
  induction roles with
  | nil =>
      rw [List.filter_eq_nil_iff.mpr fun dg _ ↦ by simp]
      rfl
  | cons role roles ih =>
      obtain ⟨hnotMem, hnodup⟩ := List.nodup_cons.mp hnodup
      rw [List.map_cons, List.sum_cons, ih hnodup, dropTotal_filter_cons hnotMem]

/-- What a finished segment amounts to is what its datagrams amount to. -/
structure Counted (cfg : SegmentWriterConfig) (dgs : List RecordedDatagram)
    (finished : List Block × SegmentStats) : Prop where
  written : finished.2.datagramCount = dgs.length
  count : finished.2.datagramCount = finished.2.shortDatagrams + finished.2.instancesDropped +
    tally Coverage.count finished.2.instances
  drops : finished.2.captureDropTotal = dropTotal dgs
  row : ∀ key cov, finished.2.instances[key]? = some cov → Row (owned key dgs) cov
  perRole : cfg.captureDropScope = .portRole → osDrops finished.1 =
    dropTotal (dgs.filter fun dg ↦ cfg.rolesJoined.any fun j ↦ j.role = dg.role)

/-- The window of a segment has the stamps of its datagrams. -/
def SegmentStats.Covers (stats : SegmentStats) (dgs : List RecordedDatagram) : Prop :=
  ∀ dg ∈ dgs, stats.startNs ≤ dg.recvTsNs ∧ dg.recvTsNs ≤ stats.endNs

/-- No datagram was stamped before the first one that was written, or behind the last one. -/
def EndsOutermost (dgs : List RecordedDatagram) : Prop :=
  ∀ dg ∈ dgs, (∀ first ∈ dgs.head?, first.recvTsNs ≤ dg.recvTsNs) ∧
    ∀ last ∈ dgs.getLast?, dg.recvTsNs ≤ last.recvTsNs

variable {cfg : SegmentWriterConfig} {w : SegmentWriter}

theorem osDrops_statistics (w : SegmentWriter) (roles : List PortRole)
    (hscope : w.captureDropScope = .portRole) :
    osDrops (roles.map fun role ↦ .interfaceStatistics (w.statistics role)) =
      (roles.map fun role ↦ (w.perRole role).captureDrops).sum := by
  induction roles with
  | nil => rfl
  | cons role roles ih =>
      rw [List.map_cons, List.map_cons, List.sum_cons, ← ih, ← List.singleton_append, osDrops_append]
      refine congrArg (· + _) ?_
      change (w.statistics role).osDrops + 0 = _
      rw [SegmentWriter.statistics, InterfaceStatisticsBlock.osDrops, hscope]
      exact Nat.add_zero _

theorem Writes.counted (h : Writes cfg dgs w) : Counted cfg dgs w.finish where
  written := h.count
  count := h.count.trans h.tracks.count
  drops := h.drops
  row := h.tracks.row
  perRole := by
    intro hscope
    rw [SegmentWriter.finish, osDrops_append, h.blocks, Nat.zero_add,
      osDrops_statistics w _ (h.scope.trans hscope)]
    simp only [h.perRole hscope]
    rw [h.joined, sum_dropTotal (List.Nodup.filter _ (by decide))]
    refine congrArg dropTotal (List.filter_congr fun dg _ ↦ ?_)
    have hall : dg.role ∈ ALL_ROLES := by cases dg.role <;> decide
    rw [Bool.eq_iff_iff, decide_eq_true_eq, List.mem_filter]
    exact and_iff_right hall

theorem Writes.covers_iff (h : Writes cfg dgs w) : w.finish.2.Covers dgs ↔ EndsOutermost dgs := by
  refine forall₂_congr fun dg hdg ↦ and_congr ?_ ?_
  · change w.firstNs.getD 0 ≤ _ ↔ _
    rw [h.first]
    cases dgs with
    | nil => cases hdg
    | cons first dgs =>
        refine ⟨?_, fun hle ↦ hle first rfl⟩
        rintro hle first' ⟨⟩
        exact hle
  · change _ ≤ w.lastNs ↔ _
    rw [h.last]
    cases hlast : dgs.getLast? with
    | none =>
        rw [List.getLast?_eq_none_iff.mp hlast] at hdg
        cases hdg
    | some last =>
        refine ⟨?_, fun hle ↦ hle last rfl⟩
        rintro hle last' ⟨⟩
        exact hle

/-- The statistics of a segment describe it exactly when its first and its last datagram have the
outermost stamps. -/
theorem describes_iff (build : Build) (cfg : SegmentWriterConfig) (fed : List Fed) :
    ((run SegmentWriter.feed (.new build cfg) fed).finish.2.Covers (datagrams fed) ∧
      Counted cfg (datagrams fed) (run SegmentWriter.feed (.new build cfg) fed).finish) ↔
    EndsOutermost (datagrams fed) := by
  have h := writes_run build cfg fed
  rw [h.covers_iff]
  exact and_iff_left h.counted

/-! ## Two sockets -/

/-- A datagram of a port role, stamped by the role's own socket. -/
def stampedAt (role : PortRole) (recvTsNs : UInt64) : RecordedDatagram where
  payload := []
  src := ⟨0x0a000001, 4000⟩
  dst := ⟨0xef000001, 5000⟩
  role
  recvTsNs
  recvTsKind := .kernelSoftware
  dropDelta := 0
  ttl := none
  linkHeaders := none
  wirePayloadLen := 0

def twoRoles : SegmentWriterConfig where
  identity := ⟨['s'], ['r'], ['e'], ['v'], ['c'], ['h']⟩
  rolesJoined := [{ role := .mktdata, group := 0xef000001, port := 5000 },
    { role := .refdata, group := 0xef000001, port := 5001 }]
  linkHeaders := .synthesised
  captureDropScope := .portRole

/-- What was stamped first is read last. -/
def readLate : List Fed := [.datagram (stampedAt .mktdata 2), .datagram (stampedAt .refdata 1)]

theorem not_describes_readLate :
    ¬((run SegmentWriter.feed (.new ⟨['l'], ['x'], ['1']⟩ twoRoles) readLate).finish.2.Covers
        (datagrams readLate) ∧
      Counted twoRoles (datagrams readLate)
        (run SegmentWriter.feed (.new ⟨['l'], ['x'], ['1']⟩ twoRoles) readLate).finish) := by
  rintro ⟨hcovers, -⟩
  have hle : (2 : UInt64) ≤ 1 := (hcovers (stampedAt .mktdata 2) List.mem_cons_self).2
  exact absurd hle (by decide)

end EdgeMulticast.Archive
