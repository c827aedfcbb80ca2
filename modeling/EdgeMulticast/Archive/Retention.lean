import EdgeMulticast.Archive.Staging

/-!
# What a retention pass gives up

A pass takes its candidates one behind the other: the objects, the segments that nobody holds, and the
queue but for its newest segment.  It goes on only while what it can still reach is over the budget, so
what it took is a beginning of them, and the history that is left starts behind it.
-/

namespace EdgeMulticast.Staging

open EdgeMulticast.Lib

/-! ## Names -/

section

variable {name : List Byte}

theorem getLast_append_of_some {b : Byte} {front back : List Byte} (h : back.getLast? = some b) :
    (front ++ back).getLast? = some b := by
  rw [List.getLast?_append, h, Option.some_or]

theorem last_openSegmentName (seq : ℕ) : (openSegmentName seq).getLast? = some 0x67 :=
  getLast_append_of_some (by decide)

theorem last_manifestName (start «end» seq : ℕ) :
    (manifestName start «end» seq).getLast? = some 0x6e := getLast_append_of_some (by decide)

theorem last_compressorTemp (h : isCompressorTemp name = true) : name.getLast? = some 0x74 := by
  obtain ⟨-, hsuffix⟩ := Bool.and_eq_true_iff.mp h
  obtain ⟨front, rfl⟩ := List.isSuffixOf_iff_suffix.mp hsuffix
  exact getLast_append_of_some (by decide)

theorem eq_append_of_dropSuffix {stem suffix : List Byte} (h : name.dropSuffix? suffix = some stem) :
    name = stem ++ suffix := by
  obtain ⟨suffix', rfl, hbeq⟩ := List.dropSuffix?_eq_some_iff.mp h
  rw [eq_of_beq hbeq]

/-- The compressor's segments are named as no object is. -/
theorem parseObjectKey_openSegmentName (seq : ℕ) : parseObjectKey (openSegmentName seq) = none := by
  have hzstd : (openSegmentName seq).dropSuffix? ZSTD_SUFFIX = none := by
    refine Option.eq_none_iff_forall_ne_some.mpr fun stem hstem ↦ ?_
    have hlast : (openSegmentName seq).getLast? = some 0x74 := by
      rw [eq_append_of_dropSuffix hstem]
      exact getLast_append_of_some (by decide)
    rw [last_openSegmentName] at hlast
    exact absurd hlast (by decide)
  have hdash : DASH ∉ decimal seq := by
    intro hmem
    exact absurd (List.all_eq_true.mp (isDigit_decimal seq) DASH hmem) (by decide)
  have hsplit : (SEGMENT_PREFIX ++ decimal seq).splitOn DASH = [ascii "segment", decimal seq] := by
    have hname : SEGMENT_PREFIX ++ decimal seq = ascii "segment" ++ DASH :: decimal seq := rfl
    rw [hname, List.splitOn_append_cons_self_of_not_mem (by decide), List.splitOn_eq_singleton hdash]
  rw [parseObjectKey, hzstd, Option.none_or]
  cases hstem : (openSegmentName seq).dropSuffix? PCAPNG_SUFFIX with
  | none => rfl
  | some stem =>
      have heq : stem = SEGMENT_PREFIX ++ decimal seq :=
        (List.append_cancel_right (eq_append_of_dropSuffix hstem)).symm
      rw [Option.bind_some, parseStem, heq, hsplit]

end

/-! ## What the scan sees -/

section

variable {w : StagingWatermark} {custody : Custody} {disk : Disk} {path : FilePath}

/-- A file that is neither skipped by the scan nor in flight when it looks. -/
structure Reachable (w : StagingWatermark) (custody : Custody) (path : FilePath) : Prop where
  isOpen : isOpen w path = false
  temp : isCompressorTemp path.name = false
  phase : custody.phase path ≠ some .inFlight

theorem look_cases (w : StagingWatermark) (custody : Custody) (disk : Disk) (path : FilePath) :
    look w custody disk path = .skipped ∨ Reachable w custody path ∧
      ((∃ start «end» seq, parseObjectKey path.name = some (start, «end», seq) ∧
        look w custody disk path = .object {
          path
          manifestPath := ⟨path.dir, manifestName start «end» seq⟩
          startNs := start
          segmentSeq := seq
          bytes := disk.fileLen path + disk.fileLen ⟨path.dir, manifestName start «end» seq⟩ }) ∨
      parseObjectKey path.name = none ∧ look w custody disk path = .residue {
        path
        bytes := disk.fileLen path
        modified := disk.modified path
        evictable := custody.phase path = some .queued || isRecoveredSegment path.name ||
          isWorkingSegment path.name
        queued := custody.phase path = some .queued
        seq := workingSegmentSeq path.name }) := by
  rw [look.eq_def]
  dsimp only
  split
  next => exact .inl rfl
  next hskip =>
      rw [Bool.not_eq_true, Bool.or_eq_false_iff, Bool.or_eq_false_iff, decide_eq_false_iff_not]
        at hskip
      obtain ⟨⟨hopen, htemp⟩, hphase⟩ := hskip
      split
      next start «end» seq hkey =>
          refine .inr ⟨⟨hopen, htemp, hphase⟩, .inl ⟨start, «end», seq, hkey, ?_⟩⟩
          rw [manifestNameOf, hkey]
          rfl
      next hkey =>
          split
          next => exact .inl rfl
          next => exact .inr ⟨⟨hopen, htemp, hphase⟩, .inr ⟨hkey, rfl⟩⟩

theorem mem_objects {o : SegmentObject} : o ∈ (scan w custody disk).1 ↔
    ∃ path ∈ walk disk, look w custody disk path = .object o := by
  rw [scan, List.mem_insertionSort, List.mem_filterMap]
  constructor
  · rintro ⟨seen, hseen, ho⟩
    obtain ⟨path, hpath, rfl⟩ := List.mem_map.mp hseen
    refine ⟨path, hpath, ?_⟩
    cases hlook : look w custody disk path with
    | skipped => rw [hlook] at ho; cases ho
    | object o' => rw [hlook] at ho; cases ho; rfl
    | residue r => rw [hlook] at ho; cases ho
  · rintro ⟨path, hpath, hlook⟩
    exact ⟨_, List.mem_map_of_mem hpath, by rw [hlook]; rfl⟩

theorem mem_residue {r : Residue} : r ∈ (scan w custody disk).2 ↔
    ∃ path ∈ walk disk, look w custody disk path = .residue r := by
  rw [scan, List.mem_insertionSort, List.mem_filterMap]
  constructor
  · rintro ⟨seen, hseen, hr⟩
    obtain ⟨path, hpath, rfl⟩ := List.mem_map.mp hseen
    refine ⟨path, hpath, ?_⟩
    cases hlook : look w custody disk path with
    | skipped => rw [hlook] at hr; cases hr
    | object o => rw [hlook] at hr; cases hr
    | residue r' => rw [hlook] at hr; cases hr; rfl
  · rintro ⟨path, hpath, hlook⟩
    exact ⟨_, List.mem_map_of_mem hpath, by rw [hlook]; rfl⟩

/-- What the scan knows of an object. -/
theorem of_mem_objects {o : SegmentObject} (h : o ∈ (scan w custody disk).1) :
    o.path ∈ walk disk ∧ Reachable w custody o.path ∧ look w custody disk o.path = .object o ∧
      ∃ start «end» seq, parseObjectKey o.path.name = some (start, «end», seq) ∧
        o.manifestPath = ⟨o.path.dir, manifestName start «end» seq⟩ := by
  obtain ⟨path, hpath, hlook⟩ := mem_objects.mp h
  rcases look_cases w custody disk path with hskip | ⟨hreach, hobject | ⟨-, hresidue⟩⟩
  · rw [hskip] at hlook
    cases hlook
  · obtain ⟨start, «end», seq, hkey, hseen⟩ := hobject
    rw [hseen] at hlook
    cases hlook
    exact ⟨hpath, hreach, hseen, start, «end», seq, hkey, rfl⟩
  · rw [hresidue] at hlook
    cases hlook

/-- What the scan knows of everything else. -/
theorem of_mem_residue {r : Residue} (h : r ∈ (scan w custody disk).2) :
    r.path ∈ walk disk ∧ Reachable w custody r.path ∧ look w custody disk r.path = .residue r ∧
      (r.queued = true ↔ custody.phase r.path = some .queued) ∧
      (r.evictable = true ↔ r.queued = true ∨ isRecoveredSegment r.path.name = true ∨
        isWorkingSegment r.path.name = true) := by
  obtain ⟨path, hpath, hlook⟩ := mem_residue.mp h
  rcases look_cases w custody disk path with hskip | ⟨hreach, hobject | ⟨-, hresidue⟩⟩
  · rw [hskip] at hlook
    cases hlook
  · obtain ⟨start, «end», seq, hkey, hseen⟩ := hobject
    rw [hseen] at hlook
    cases hlook
  · rw [hresidue] at hlook
    cases hlook
    refine ⟨hpath, hreach, hresidue, decide_eq_true_iff, ?_⟩
    dsimp only
    rw [Bool.or_eq_true, Bool.or_eq_true, or_assoc]

/-- Two of the scan's residue with one path are one. -/
theorem residue_inj {r r' : Residue} (h : r ∈ (scan w custody disk).2)
    (h' : r' ∈ (scan w custody disk).2) (heq : r.path = r'.path) : r = r' := by
  have hlook := (of_mem_residue h).2.2.1
  rw [heq, (of_mem_residue h').2.2.1] at hlook
  exact (Seen.residue.inj hlook).symm

theorem nodup_walk (disk : Disk) : (walk disk).Nodup := by
  rw [walk, List.nodup_flatMap]
  constructor
  · intro dir _
    refine (disk.nodup dir).map fun a b hab ↦ ?_
    exact (FilePath.mk.inj hab).2
  · refine List.pairwise_pair.mpr ?_
    intro path hcompleted hstaging
    obtain ⟨a, -, rfl⟩ := List.mem_map.mp hcompleted
    obtain ⟨b, -, hb⟩ := List.mem_map.mp hstaging
    cases hb

theorem path_of_object {o : SegmentObject} (h : (look w custody disk path).object? = some o) :
    o.path = path := by
  rcases look_cases w custody disk path with hskip | ⟨-, hobject | ⟨-, hresidue⟩⟩
  · rw [hskip] at h
    cases h
  · obtain ⟨start, «end», seq, -, hseen⟩ := hobject
    rw [hseen] at h
    cases h
    rfl
  · rw [hresidue] at h
    cases h

/-- An object is scanned once. -/
theorem nodup_objects (w : StagingWatermark) (custody : Custody) (disk : Disk) :
    (scan w custody disk).1.Nodup := by
  rw [scan]
  dsimp only
  rw [(List.perm_insertionSort _ _).nodup_iff, List.filterMap_map]
  refine (nodup_walk disk).filterMap fun a b o ha hb ↦ ?_
  rw [← path_of_object ha, path_of_object hb]

end

/-! ## The candidates -/

/-- What a pass can give up: an object with its manifest, or a segment. -/
abbrev Candidate := SegmentObject ⊕ Residue

def Candidate.bytes (c : Candidate) : ℕ := c.elim SegmentObject.bytes Residue.bytes

/-- The candidates of a pass, in the order of their priority. -/
def candidates (objects : List SegmentObject) (residue : List Residue) : List Candidate :=
  objects.map .inl ++ (byPriority residue).map .inr

def Removal.error : Removal → Option ℕ
  | .removed | .notFound => none
  | .failed error => some error

namespace Meanwhile

variable (env : Meanwhile)

/-- Whether the compressor has started on a segment since the scan. -/
def handed (r : Residue) : Bool := env.custody.phase r.path = some .inFlight

/-- The error of giving a candidate up. -/
def error (c : Candidate) : Option ℕ :=
  c.elim (fun o ↦ (env.removeFile o.path).error) fun r ↦
    if env.handed r then none else (env.removeFile r.path).error

/-- A candidate that the pass has not to account for any longer. -/
def freed (c : Candidate) : Bool := (env.error c).isNone

/-- The files that giving a candidate up asks to be removed. -/
def asks (c : Candidate) : List FilePath :=
  c.elim (fun o ↦ o.path :: if env.freed c then [o.manifestPath] else []) fun r ↦
    if env.handed r then [] else [r.path]

end Meanwhile

/-- One candidate of a pass. -/
def Pass.evict (env : Meanwhile) (p : Pass) (c : Candidate) : Pass :=
  c.elim (p.evictObject env) (p.evictCandidate env)

section

variable (env : Meanwhile) (p : Pass)

theorem accountRemoval_eq (w : StagingWatermark) (bytes : ℕ) (published : Bool)
    (outcome : Removal) :
    (accountRemoval w bytes published outcome).reclaimed =
      (if outcome.error.isNone then bytes else 0) ∧
    (accountRemoval w bytes published outcome).error = outcome.error := by
  cases outcome with
  | removed => exact ⟨rfl, rfl⟩
  | notFound => exact ⟨rfl, rfl⟩
  | failed error => exact ⟨rfl, rfl⟩

/-- What a removal leaves of a watermark. -/
theorem accountRemoval_watermark (w : StagingWatermark) (bytes : ℕ) (published : Bool)
    (outcome : Removal) :
    (accountRemoval w bytes published outcome).watermark.stagingMax = w.stagingMax ∧
    (accountRemoval w bytes published outcome).watermark.retainedFloorNs = w.retainedFloorNs ∧
    (accountRemoval w bytes published outcome).watermark.retainedObjects = w.retainedObjects := by
  cases outcome with
  | removed => exact ⟨rfl, rfl, rfl⟩
  | notFound => exact ⟨rfl, rfl, rfl⟩
  | failed error => exact ⟨rfl, rfl, rfl⟩

/-- An object that is given up. -/
theorem evictObject_eq (o : SegmentObject) : p.evictObject env o = {
    watermark := (accountRemoval p.watermark o.bytes true (env.removeFile o.path)).watermark
    total := p.total - if env.freed (.inl o) then o.bytes else 0
    failure := p.failure.or (env.error (.inl o))
    objectsEvicted := if env.freed (.inl o) then p.objectsEvicted + 1 else p.objectsEvicted
    firstKept := if env.freed (.inl o) then p.firstKept else p.firstKept.or (some p.visited)
    visited := p.visited + 1
    asked := p.asked ++ env.asks (.inl o) } := by
  obtain ⟨hreclaimed, herror⟩ := accountRemoval_eq p.watermark o.bytes true (env.removeFile o.path)
  rw [Pass.evictObject, hreclaimed, herror]
  rfl

/-- A segment that is given up, or that the compressor has started on. -/
theorem evictCandidate_eq (r : Residue) : p.evictCandidate env r = { p with
    watermark := if env.handed r then p.watermark else
      (accountRemoval p.watermark r.bytes false (env.removeFile r.path)).watermark
    total := p.total - if env.freed (.inr r) then r.bytes else 0
    failure := p.failure.or (env.error (.inr r))
    asked := p.asked ++ env.asks (.inr r) } := by
  obtain ⟨hreclaimed, herror⟩ := accountRemoval_eq p.watermark r.bytes false (env.removeFile r.path)
  rw [Pass.evictCandidate]
  cases hhanded : env.handed r with
  | true =>
      have hnone : env.error (.inr r) = none := if_pos hhanded
      have hasks : env.asks (.inr r) = [] := if_pos hhanded
      rw [if_pos (of_decide_eq_true hhanded), Meanwhile.freed, hnone, hasks, Option.or_none,
        List.append_nil]
      rfl
  | false =>
      have hnot : env.handed r ≠ true := by rw [hhanded]; exact Bool.false_ne_true
      have hsome : env.error (.inr r) = (env.removeFile r.path).error := if_neg hnot
      have hasks : env.asks (.inr r) = [r.path] := if_neg hnot
      rw [if_neg (of_decide_eq_false hhanded), Meanwhile.freed, hsome, hasks]
      dsimp only
      rw [hreclaimed, herror]
      rfl

/-- What giving up a candidate does to a pass. -/
theorem evict_spec (c : Candidate) :
    (p.evict env c).total = p.total - (if env.freed c then c.bytes else 0) ∧
    (p.evict env c).failure = p.failure.or (env.error c) ∧
    (p.evict env c).asked = p.asked ++ env.asks c ∧
    (p.evict env c).watermark.stagingMax = p.watermark.stagingMax := by
  cases c with
  | inl o =>
      change (p.evictObject env o).total = _ ∧ (p.evictObject env o).failure = _ ∧
        (p.evictObject env o).asked = _ ∧ (p.evictObject env o).watermark.stagingMax = _
      rw [evictObject_eq]
      exact ⟨rfl, rfl, rfl, (accountRemoval_watermark ..).1⟩
  | inr r =>
      change (p.evictCandidate env r).total = _ ∧ (p.evictCandidate env r).failure = _ ∧
        (p.evictCandidate env r).asked = _ ∧ (p.evictCandidate env r).watermark.stagingMax = _
      rw [evictCandidate_eq]
      refine ⟨rfl, rfl, rfl, ?_⟩
      dsimp only
      split
      next => rfl
      next => exact (accountRemoval_watermark ..).1

/-- What giving up some candidates does to a pass. -/
theorem run_evict (cs : List Candidate) :
    (run (Pass.evict env) p cs).failure = p.failure.or (cs.findSome? env.error) ∧
    (run (Pass.evict env) p cs).asked = p.asked ++ cs.flatMap env.asks ∧
    (run (Pass.evict env) p cs).watermark.stagingMax = p.watermark.stagingMax := by
  induction cs generalizing p with
  | nil => exact ⟨(Option.or_none).symm, (List.append_nil _).symm, rfl⟩
  | cons c cs ih =>
      obtain ⟨-, hfailure, hasked, hmax⟩ := evict_spec env p c
      obtain ⟨hfailures, haskeds, hmaxs⟩ := ih (p.evict env c)
      rw [run_cons, hfailures, haskeds, hmaxs, hfailure, hasked, hmax, List.flatMap_cons,
        List.append_assoc, List.findSome?_cons, Option.or_assoc]
      refine ⟨congrArg (p.failure.or ·) ?_, rfl, rfl⟩
      cases env.error c with
      | none => rfl
      | some error => rfl

/-- What giving up some objects does to a pass: it remembers the first one that is still there. -/
theorem run_evictObject (os : List SegmentObject) :
    (run (Pass.evictObject env) p os).visited = p.visited + os.length ∧
    (run (Pass.evictObject env) p os).objectsEvicted =
      p.objectsEvicted + os.countP (fun o ↦ env.freed (.inl o)) ∧
    (run (Pass.evictObject env) p os).firstKept = p.firstKept.or
      ((os.findIdx? fun o ↦ !env.freed (.inl o)).map (p.visited + ·)) := by
  induction os generalizing p with
  | nil => exact ⟨rfl, rfl, Option.or_none.symm⟩
  | cons o os ih =>
      obtain ⟨hvisited, hevicted, hkept⟩ := ih (p.evictObject env o)
      rw [run_cons, hvisited, hevicted, hkept, evictObject_eq, List.length_cons, List.countP_cons,
        List.findIdx?_cons]
      dsimp only
      cases env.freed (.inl o) with
      | true =>
          refine ⟨Nat.add_right_comm .., Nat.add_right_comm .., congrArg (p.firstKept.or ·) ?_⟩
          cases os.findIdx? fun o ↦ !env.freed (.inl o) with
          | none => rfl
          | some i => exact congrArg some (Nat.add_right_comm ..)
      | false =>
          refine ⟨Nat.add_right_comm .., rfl, ?_⟩
          rw [if_neg Bool.false_ne_true, Option.or_assoc, Option.some_or]
          rfl

end

/-! ## What is left -/

/-- The first of some elements that a test keeps is where the remaining ones start, or behind them. -/
theorem getElem?_findIdx?_append {α : Type*} (keep : α → Bool) (taken rest : List α) :
    (taken ++ rest)[(taken.findIdx? keep).getD taken.length]? =
      (taken.filter keep ++ rest).head? := by
  induction taken with
  | nil =>
      rw [List.findIdx?_nil, Option.getD_none, List.filter_nil, List.nil_append,
        List.head?_eq_getElem?]
      rfl
  | cons a taken ih =>
      rw [List.findIdx?_cons, List.cons_append]
      cases hkeep : keep a with
      | true =>
          rw [if_pos rfl, List.filter_cons_of_pos hkeep]
          rfl
      | false =>
          rw [if_neg Bool.false_ne_true, List.filter_cons_of_neg (by rw [hkeep]; exact Bool.false_ne_true),
            ← ih]
          cases taken.findIdx? keep with
          | none => rfl
          | some i => rfl

/-- The objects that are left of a pass that took some candidates. -/
def retained (env : Meanwhile) (objects : List SegmentObject) (taken : List Candidate) :
    List SegmentObject :=
  objects.filter fun o ↦ !(decide (o ∈ taken.filterMap Sum.getLeft?) && env.freed (.inl o))

theorem filterMap_getLeft (taken : List SegmentObject) (segments : List Residue) :
    (taken.map .inl ++ segments.map .inr : List Candidate).filterMap Sum.getLeft? = taken := by
  rw [List.filterMap_append, List.filterMap_map, List.filterMap_map]
  have hsegments : segments.filterMap (Sum.getLeft? ∘ (Sum.inr : Residue → Candidate)) = [] :=
    List.filterMap_eq_nil_iff.mpr fun _ _ ↦ rfl
  rw [hsegments, List.append_nil]
  exact List.filterMap_some

theorem retained_eq (env : Meanwhile) {taken rest : List SegmentObject} {segments : List Residue}
    (hnodup : (taken ++ rest).Nodup) :
    retained env (taken ++ rest) (taken.map .inl ++ segments.map .inr) =
      (taken.filter fun o ↦ !env.freed (.inl o)) ++ rest := by
  rw [retained, filterMap_getLeft, List.filter_append]
  congr 1
  · refine List.filter_congr fun o ho ↦ ?_
    rw [decide_eq_true ho, Bool.true_and]
  · refine List.filter_eq_self.mpr fun o ho ↦ ?_
    have hnot : o ∉ taken := fun h ↦ (List.nodup_append.mp hnodup).2.2 o h o ho rfl
    rw [decide_eq_false hnot]
    rfl

/-- What a pass did that took the first ones of its candidates. -/
structure Evicts (env : Meanwhile) (stagingMax : ℕ) (objects : List SegmentObject)
    (cs taken rest : List Candidate) (out : Enforced) : Prop where
  split : cs = taken ++ rest
  asked : out.asked = taken.flatMap env.asks
  needed : ∀ before c behind, taken = before ++ c :: behind →
    stagingMax < leftOver Candidate.bytes env.freed before (c :: behind ++ rest)
  bounded : rest ≠ [] → leftOver Candidate.bytes env.freed taken rest ≤ stagingMax
  met : (∀ c ∈ taken, env.error c = none) →
    leftOver Candidate.bytes env.freed taken rest ≤ stagingMax
  result : out.result = (taken.findSome? env.error).elim (.ok ()) .error
  floor : out.watermark.retainedFloorNs = (retained env objects taken).head?.map SegmentObject.startNs
  count : out.watermark.retainedObjects = (retained env objects taken).length

/-- A watermark that states other retained history. -/
def Pass.restate (floor : Option ℕ) (count : ℕ) (p : Pass) : Pass :=
  { p with watermark := { p.watermark with retainedFloorNs := floor, retainedObjects := count } }

theorem evictCandidate_restate (env : Meanwhile) (floor : Option ℕ) (count : ℕ) (p : Pass)
    (r : Residue) : (p.restate floor count).evictCandidate env r =
      (p.evictCandidate env r).restate floor count := by
  rw [Pass.evictCandidate, Pass.evictCandidate]
  split
  next => rfl
  next =>
      cases env.removeFile r.path with
      | removed => rfl
      | notFound => rfl
      | failed error => rfl

/-! ## What the budget counts -/

section

variable {w : StagingWatermark} {custody : Custody} {disk : Disk}

theorem weight_perm {α : Type*} {bytes : α → ℕ} {as bs : List α} (h : as.Perm bs) :
    weight bytes as = weight bytes bs := (h.map bytes).sum_eq

/-- What is newest in the queue is in it. -/
theorem queued_of_newestQueued {residue : List Residue} {path : FilePath}
    (h : newestQueued residue = some path) : ∃ r ∈ residue, r.queued = true ∧ r.path = path := by
  obtain ⟨⟨seq, path'⟩, hmax, rfl⟩ := Option.map_eq_some_iff.mp h
  have hmem := List.mem_reverse.mp (List.argmax_mem hmax)
  obtain ⟨r, hr, hseq⟩ := List.mem_filterMap.mp hmem
  obtain ⟨seq', -, heq⟩ := Option.map_eq_some_iff.mp hseq
  obtain ⟨hmem, hqueued⟩ := List.mem_filter.mp hr
  exact ⟨r, hmem, hqueued, (Prod.mk.inj heq).2⟩

theorem weight_map {α β : Type*} (bytes : β → ℕ) (f : α → β) (as : List α) :
    weight bytes (as.map f) = weight (fun a ↦ bytes (f a)) as := by
  rw [weight, List.map_map]
  rfl

theorem weight_candidates (objects : List SegmentObject) (residue : List Residue) :
    weight Candidate.bytes (candidates objects residue) =
      weight SegmentObject.bytes objects + weight Residue.bytes (byPriority residue) := by
  rw [candidates, weight_append, weight_map, weight_map]
  rfl

/-- The residue but for the newest of the queue: orphans, the rest of the queue, and what eviction
cannot reach. -/
theorem weight_residue {residue : List Residue} {newest : Option FilePath}
    (hqueued : ∀ r ∈ residue, r.queued = true → r.evictable = true)
    (hnewest : ∀ r ∈ residue, some r.path = newest → r.queued = true) :
    weight Residue.bytes (residue.filter fun r ↦ some r.path ≠ newest) =
      weight Residue.bytes (residue.filter fun r ↦ r.evictable && !r.queued) +
      weight Residue.bytes ((residue.filter fun r ↦ r.evictable && r.queued).filter fun r ↦
        some r.path ≠ newest) +
      weight Residue.bytes (residue.filter fun r ↦ !r.evictable) := by
  induction residue with
  | nil => rfl
  | cons r residue ih =>
      obtain ⟨hq, hqueued⟩ := List.forall_mem_cons.mp hqueued
      obtain ⟨hn, hnewest⟩ := List.forall_mem_cons.mp hnewest
      have hrest := ih hqueued hnewest
      simp only [ne_eq] at hrest ⊢
      by_cases hpath : some r.path = newest
      · have hr := hn hpath
        simp only [List.filter_cons, hr, hq hr, hpath, not_true, decide_false, Bool.not_true,
          Bool.and_false, Bool.and_true, Bool.false_eq_true, if_true, if_false]
        exact hrest
      · cases hevictable : r.evictable with
        | false =>
            simp only [List.filter_cons, hevictable, hpath, not_false_eq_true, decide_true,
              Bool.false_and, Bool.not_false, Bool.false_eq_true, if_true, if_false, weight_cons]
            omega
        | true =>
            cases hr : r.queued with
            | false =>
                simp only [List.filter_cons, hevictable, hr, hpath, not_false_eq_true,
                  decide_true, Bool.true_and, Bool.not_true, Bool.not_false, Bool.false_eq_true,
                  if_true, if_false, weight_cons]
                omega
            | true =>
                simp only [List.filter_cons, hevictable, hr, hpath, not_false_eq_true,
                  decide_true, Bool.true_and, Bool.not_true, Bool.false_eq_true, if_true, if_false,
                  weight_cons]
                omega

/-- What eviction cannot reach is counted, and what it can reach is the rest. -/
theorem governedBytes_eq (w : StagingWatermark) (custody : Custody) (disk : Disk) :
    governedBytes (scan w custody disk).1 (scan w custody disk).2 =
      weight Candidate.bytes (candidates (scan w custody disk).1 (scan w custody disk).2) +
        unreclaimableBytes (scan w custody disk).2 := by
  have hqueued : ∀ r ∈ (scan w custody disk).2, r.queued = true → r.evictable = true :=
    fun r hr h ↦ (of_mem_residue hr).2.2.2.2.mpr (.inl h)
  have hnewest : ∀ r ∈ (scan w custody disk).2,
      some r.path = newestQueued (scan w custody disk).2 → r.queued = true := by
    intro r hr heq
    obtain ⟨r', hr', hqueued', hpath⟩ := queued_of_newestQueued heq.symm
    rw [residue_inj hr hr' hpath.symm]
    exact hqueued'
  have hpriority := weight_append Residue.bytes
    ((scan w custody disk).2.filter fun r ↦ r.evictable && !r.queued)
    ((((scan w custody disk).2.filter fun r ↦ r.evictable && r.queued).filter fun r ↦
      some r.path ≠ newestQueued (scan w custody disk).2).insertionSort fun a b ↦ a.ahead b)
  rw [weight_perm (List.perm_insertionSort _ _)] at hpriority
  rw [governedBytes, weight_residue hqueued hnewest, ← hpriority, weight_candidates, ← Nat.add_assoc]
  rfl

end

/-! ## A whole pass -/

section

variable {w : StagingWatermark} {custody : Custody} {disk : Disk} {env : Meanwhile}

/-- Both loops of a pass are one sweep of its candidates, with what is retained stated in between. -/
theorem sweeps_eq (env : Meanwhile) (p : Pass) (objects : List SegmentObject)
    (residue : List Residue) (floor : Pass → Option ℕ) (count : Pass → ℕ) :
    let first := sweep (Pass.evictObject env) Pass.isOver p objects
    let whole := sweep (Pass.evict env) Pass.isOver p (candidates objects residue)
    ∃ segments : List Residue, whole.2 = first.2.map .inl ++ segments.map .inr ∧
      (sweep (Pass.evictCandidate env) Pass.isOver (first.1.restate (floor first.1) (count first.1))
        (byPriority residue)).1 = whole.1.restate (floor first.1) (count first.1) := by
  dsimp only
  refine ⟨(sweep (Pass.evictCandidate env) Pass.isOver
    (sweep (Pass.evictObject env) Pass.isOver p objects).1 (byPriority residue)).2, ?_, ?_⟩
  · rw [candidates, sweep_append, sweep_map, sweep_map]
    rfl
  · rw [candidates, sweep_append, sweep_map, sweep_map]
    exact congrArg Prod.fst (sweep_comm (fun s c ↦ evictCandidate_restate env _ _ s c)
      (fun _ ↦ rfl) _ _)

/-- What a pass amounts to at its end. -/
def Pass.enforced (fault : Option ℕ) (p : Pass) : Enforced where
  result := p.failure.elim (.ok ()) .error
  watermark := p.watermark
  fault
  asked := p.asked

/-- Where the history of some objects starts that a pass has been through. -/
def Pass.floor (objects : List SegmentObject) (p : Pass) : Option ℕ :=
  objects[p.firstKept.getD p.visited]?.map SegmentObject.startNs

/-- What the objects loop says is retained is what is left of the objects. -/
theorem retained_evictObject (env : Meanwhile) (w : StagingWatermark) (total : ℕ)
    {taken rest : List SegmentObject} (segments : List Residue) (hnodup : (taken ++ rest).Nodup) :
    Pass.floor (taken ++ rest) (run (Pass.evictObject env) { watermark := w, total } taken) =
      (retained env (taken ++ rest) (taken.map .inl ++ segments.map .inr)).head?.map
        SegmentObject.startNs ∧
    (taken ++ rest).length - (run (Pass.evictObject env) { watermark := w, total } taken).objectsEvicted =
      (retained env (taken ++ rest) (taken.map .inl ++ segments.map .inr)).length := by
  obtain ⟨hvisited, hevicted, hkept⟩ := run_evictObject env { watermark := w, total } taken
  have hshift : (fun i : ℕ ↦ 0 + i) = id := funext Nat.zero_add
  rw [Option.none_or, hshift, Option.map_id_apply] at hkept
  rw [Nat.zero_add] at hvisited hevicted
  rw [Pass.floor, hvisited, hkept, hevicted, retained_eq env hnodup, getElem?_findIdx?_append]
  refine ⟨rfl, ?_⟩
  have hcount := List.length_eq_countP_add_countP (fun o ↦ env.freed (.inl o)) (l := taken)
  have hfilter : (taken.filter fun o ↦ !env.freed (.inl o)).length =
      taken.countP fun o ↦ ¬env.freed (.inl o) = true := by
    rw [← List.countP_eq_length_filter]
    refine List.countP_congr fun o _ ↦ ?_
    rw [Bool.not_eq_true', decide_eq_true_iff, Bool.not_eq_true]
  rw [List.length_append, List.length_append, hfilter]
  omega

/-- A pass that starts over its budget. -/
theorem evicts_over (env : Meanwhile) (w : StagingWatermark) (objects : List SegmentObject)
    (residue : List Residue) (fault : Option ℕ) (hnodup : objects.Nodup) {total : ℕ}
    (htotal : total = weight Candidate.bytes (candidates objects residue)) :
    let first := (sweep (Pass.evictObject env) Pass.isOver { watermark := w, total } objects).1
    ∃ taken rest, Evicts env w.stagingMax objects (candidates objects residue) taken rest
      (Pass.enforced fault (sweep (Pass.evictCandidate env) Pass.isOver
        (first.restate (first.floor objects) (objects.length - first.objectsEvicted))
        (byPriority residue)).1) := by
  dsimp only
  generalize hp : ({ watermark := w, total } : Pass) = p
  have hmax : p.watermark.stagingMax = w.stagingMax := by rw [← hp]
  obtain ⟨segments, htaken, hfinal⟩ := sweeps_eq env p objects residue (Pass.floor objects)
    fun p ↦ objects.length - p.objectsEvicted
  obtain ⟨rest, hsplit, hrun, hbefore, hend⟩ :=
    exists_sweep (Pass.evict env) Pass.isOver p (candidates objects residue)
  obtain ⟨behind, hobjects, hfirst, -⟩ := exists_sweep (Pass.evictObject env) Pass.isOver p objects
  obtain ⟨hfailure, hasked, -⟩ :=
    run_evict env p (sweep (Pass.evict env) Pass.isOver p (candidates objects residue)).2
  rw [hfinal, hrun]
  rw [hrun] at hend
  generalize (sweep (Pass.evict env) Pass.isOver p (candidates objects residue)).2 = taken at *
  generalize (sweep (Pass.evictObject env) Pass.isOver p objects).1 = first at *
  generalize (sweep (Pass.evictObject env) Pass.isOver p objects).2 = ahead at *
  -- the account of the pass, wherever it stands
  have haccount (before behind : List Candidate) (h : taken ++ rest = before ++ behind) :
      (run (Pass.evict env) p before).total = leftOver Candidate.bytes env.freed before behind := by
    refine account_run _ _ (fun p c ↦ (evict_spec env p c).1) ?_
    rw [← hp, ← h, ← hsplit]
    exact htotal
  have hovers (before : List Candidate) : (run (Pass.evict env) p before).isOver = true ↔
      w.stagingMax < (run (Pass.evict env) p before).total := by
    rw [Pass.isOver, decide_eq_true_iff, (run_evict env p before).2.2, hmax]
  have hbounded : rest ≠ [] → leftOver Candidate.bytes env.freed taken rest ≤ w.stagingMax := by
    intro hne
    rw [← haccount taken rest rfl]
    exact not_lt.mp fun hlt ↦ Bool.false_ne_true ((hend hne).symm.trans ((hovers taken).mpr hlt))
  subst hobjects htaken hp
  obtain ⟨hfloor, hcount⟩ := retained_evictObject env w total segments hnodup
  rw [hfirst]
  refine ⟨_, rest, hsplit, ?_, ?_, hbounded, ?_, ?_, hfloor, hcount⟩
  · change (run (Pass.evict env) _ _).asked = _
    rw [hasked]
    rfl
  · intro before c after h
    rw [← haccount before (c :: after ++ rest) (by rw [h, List.append_assoc])]
    exact (hovers before).mp (hbefore before c after h)
  · intro hnone
    cases rest with
    | nil =>
        rw [leftOver, List.filter_eq_nil_iff.mpr fun c hc ↦ by rw [Meanwhile.freed, hnone c hc]; simp]
        exact Nat.zero_le _
    | cons c rest => exact hbounded (List.cons_ne_nil c rest)
  · change (run (Pass.evict env) _ _).failure.elim _ _ = _
    rw [hfailure, Option.none_or]

/-- A pass gives up a beginning of its candidates, for as long as it is over the budget. -/
theorem exists_evicts (w : StagingWatermark) (custody : Custody) (disk : Disk) (env : Meanwhile) :
    ∃ taken rest, Evicts env w.stagingMax (scan w custody disk).1
      (candidates (scan w custody disk).1 (scan w custody disk).2) taken rest
      (enforce w custody disk env) := by
  have htotal : governedBytes (scan w custody disk).1 (scan w custody disk).2 -
      unreclaimableBytes (scan w custody disk).2 =
        weight Candidate.bytes (candidates (scan w custody disk).1 (scan w custody disk).2) := by
    rw [governedBytes_eq, Nat.add_sub_cancel]
  have hnodup := nodup_objects w custody disk
  rw [enforce.eq_def]
  dsimp only
  generalize (scan w custody disk).1 = objects at hnodup htotal ⊢
  generalize (scan w custody disk).2 = residue at htotal ⊢
  split
  next hwithin =>
      rw [htotal] at hwithin
      have hretained : retained env objects [] = objects := by
        refine List.filter_eq_self.mpr fun o _ ↦ ?_
        rw [List.filterMap_nil, decide_eq_false List.not_mem_nil]
        rfl
      refine ⟨[], candidates objects residue, rfl, rfl, ?_, ?_, ?_, rfl, ?_, ?_⟩
      · intro before c behind h
        exact absurd h.symm (List.append_ne_nil_of_right_ne_nil _ (List.cons_ne_nil _ _))
      · exact fun _ ↦ (leftOver_nil ..).trans_le hwithin
      · exact fun _ ↦ (leftOver_nil ..).trans_le hwithin
      · rw [hretained]
      · rw [hretained]
  next =>
      exact evicts_over env { w with
        retainedFloorNs := objects.head?.map SegmentObject.startNs
        retainedObjects := objects.length } objects residue _ hnodup htotal

/-! ## Oldest first -/

theorem SegmentObject.older_total (a b : SegmentObject) : a.older b ∨ b.older a := by
  rcases lt_trichotomy a.startNs b.startNs with h | h | h
  · exact .inl (.inl h)
  · exact (le_total a.segmentSeq b.segmentSeq).imp (fun hle ↦ .inr ⟨h, hle⟩)
      fun hle ↦ .inr ⟨h.symm, hle⟩
  · exact .inr (.inl h)

theorem SegmentObject.older_trans {a b c : SegmentObject} (h : a.older b) (h' : b.older c) :
    a.older c := by
  rcases h with h | ⟨h, hle⟩
  · rcases h' with h' | ⟨h', -⟩
    · exact .inl (h.trans h')
    · exact .inl (h' ▸ h)
  · rcases h' with h' | ⟨h', hle'⟩
    · exact .inl (h ▸ h')
    · exact .inr ⟨h.trans h', hle.trans hle'⟩

theorem Residue.ahead_total (a b : Residue) : a.ahead b = true ∨ b.ahead a = true := by
  rw [ahead, ahead]
  cases a.seq with
  | none => exact .inl rfl
  | some s =>
      cases b.seq with
      | none => exact .inr rfl
      | some t => exact (le_total s t).imp decide_eq_true decide_eq_true

theorem Residue.ahead_trans {a b c : Residue} (h : a.ahead b = true) (h' : b.ahead c = true) :
    a.ahead c = true := by
  rw [ahead] at h h' ⊢
  cases ha : a.seq with
  | none => rfl
  | some s =>
      rw [ha] at h
      cases hb : b.seq with
      | none => rw [hb] at h; cases h
      | some t =>
          rw [hb] at h h'
          cases hc : c.seq with
          | none => rw [hc] at h'; cases h'
          | some u =>
              rw [hc] at h'
              exact decide_eq_true ((of_decide_eq_true h).trans (of_decide_eq_true h'))

theorem pairwise_objects (w : StagingWatermark) (custody : Custody) (disk : Disk) :
    (scan w custody disk).1.Pairwise SegmentObject.older := by
  have : Std.Total SegmentObject.older := ⟨SegmentObject.older_total⟩
  have : IsTrans SegmentObject SegmentObject.older := ⟨fun _ _ _ ↦ SegmentObject.older_trans⟩
  exact List.pairwise_insertionSort _ _

theorem pairwise_residue (w : StagingWatermark) (custody : Custody) (disk : Disk) :
    (scan w custody disk).2.Pairwise fun a b ↦ a.modified ≤ b.modified := by
  have : Std.Total fun a b : Residue ↦ a.modified ≤ b.modified := ⟨fun a b ↦ le_total _ _⟩
  have : IsTrans Residue fun a b ↦ a.modified ≤ b.modified := ⟨fun _ _ _ ↦ le_trans⟩
  exact List.pairwise_insertionSort _ _

theorem pairwise_queue (queue : List Residue) :
    (queue.insertionSort fun a b ↦ a.ahead b).Pairwise fun a b ↦ a.ahead b = true := by
  have : Std.Total fun a b : Residue ↦ a.ahead b = true := ⟨Residue.ahead_total⟩
  have : IsTrans Residue fun a b ↦ a.ahead b = true := ⟨fun _ _ _ ↦ Residue.ahead_trans⟩
  exact List.pairwise_insertionSort _ _

theorem filter_append_queued {orphans queue : List Residue}
    (horphans : ∀ r ∈ orphans, r.queued = false) (hqueue : ∀ r ∈ queue, r.queued = true) :
    ((orphans ++ queue).filter fun r ↦ !r.queued) = orphans ∧
      (orphans ++ queue).filter Residue.queued = queue := by
  have hnone : (orphans.filter Residue.queued) = [] :=
    List.filter_eq_nil_iff.mpr fun r hr ↦ by rw [horphans r hr]; exact Bool.false_ne_true
  have hnone' : (queue.filter fun r ↦ !r.queued) = [] :=
    List.filter_eq_nil_iff.mpr fun r hr ↦ by rw [hqueue r hr]; exact Bool.false_ne_true
  rw [List.filter_append, List.filter_append, hnone, hnone', List.append_nil, List.nil_append]
  refine ⟨List.filter_eq_self.mpr fun r hr ↦ ?_, List.filter_eq_self.mpr hqueue⟩
  rw [horphans r hr]
  rfl

/-- The orphans and the queue of what is taken by priority. -/
theorem filter_byPriority (residue : List Residue) :
    ((byPriority residue).filter fun r ↦ !r.queued) =
      (residue.filter fun r ↦ r.evictable && !r.queued) ∧
    (byPriority residue).filter Residue.queued =
      ((residue.filter fun r ↦ r.evictable && r.queued).filter fun r ↦
        some r.path ≠ newestQueued residue).insertionSort fun a b ↦ a.ahead b := by
  refine filter_append_queued ?_ ?_
  · intro r hr
    have hkeep := (List.mem_filter.mp hr).2
    rw [Bool.and_eq_true, Bool.not_eq_true'] at hkeep
    exact hkeep.2
  · intro r hr
    rw [List.mem_insertionSort] at hr
    have hkeep := (List.mem_filter.mp (List.mem_of_mem_filter hr)).2
    rw [Bool.and_eq_true] at hkeep
    exact hkeep.2

/-! ## What is asked to be removed -/

/-- What a pass may ask to be removed: an object, the manifest of one, a segment that nobody holds, or
one of the queue but for its newest. -/
inductive MayAsk (w : StagingWatermark) (custody : Custody) (disk : Disk) : FilePath → Prop
  | object {path : FilePath} (listed : path ∈ walk disk) (key : parseObjectKey path.name ≠ none) :
      MayAsk w custody disk path
  | manifest {path : FilePath} {start «end» seq : ℕ} (listed : path ∈ walk disk)
      (key : parseObjectKey path.name = some (start, «end», seq)) :
      MayAsk w custody disk ⟨path.dir, manifestName start «end» seq⟩
  | orphan {path : FilePath} (listed : path ∈ walk disk)
      (segment : isRecoveredSegment path.name = true ∨ isWorkingSegment path.name = true)
      (unheld : custody.phase path ≠ some .queued) : MayAsk w custody disk path
  | queued {path : FilePath} (listed : path ∈ walk disk)
      (held : custody.phase path = some .queued)
      (older : some path ≠ newestQueued (scan w custody disk).2) : MayAsk w custody disk path

/-- What no pass may touch: the open segment, a segment that the compressor reads, then or by now, and
what it assembles. -/
structure Spared (w : StagingWatermark) (custody later : Custody) (path : FilePath) : Prop
    extends Reachable w custody path where
  later : later.phase path ≠ some .inFlight

theorem mem_byPriority {residue : List Residue} {r : Residue} : r ∈ byPriority residue ↔
    r ∈ residue ∧ r.evictable = true ∧
      (r.queued = false ∨ r.queued = true ∧ some r.path ≠ newestQueued residue) := by
  rw [byPriority, List.mem_append, List.mem_insertionSort, List.mem_filter, List.mem_filter,
    List.mem_filter, Bool.and_eq_true, Bool.and_eq_true, Bool.not_eq_true', decide_eq_true_iff]
  constructor
  · rintro (⟨hmem, hevictable, hqueued⟩ | ⟨⟨hmem, hevictable, hqueued⟩, hne⟩)
    · exact ⟨hmem, hevictable, .inl hqueued⟩
    · exact ⟨hmem, hevictable, .inr ⟨hqueued, hne⟩⟩
  · rintro ⟨hmem, hevictable, hqueued | ⟨hqueued, hne⟩⟩
    · exact .inl ⟨hmem, hevictable, hqueued⟩
    · exact .inr ⟨⟨hmem, hevictable, hqueued⟩, hne⟩

/-- No object is held by the compressor. -/
theorem phase_of_key (custody : Custody) {path : FilePath} (h : parseObjectKey path.name ≠ none) :
    custody.phase path = none := by
  by_contra hne
  obtain ⟨-, seq, hname⟩ := custody.held path hne
  rw [hname] at h
  exact h (parseObjectKey_openSegmentName seq)

/-- A manifest is neither a segment nor what the compressor assembles. -/
theorem spared_manifest (later : Custody) (dir : Dir) (start «end» seq : ℕ) :
    Spared w custody later ⟨dir, manifestName start «end» seq⟩ := by
  have hname (seq' : ℕ) : manifestName start «end» seq ≠ openSegmentName seq' := by
    intro heq
    have hlast := last_manifestName start «end» seq
    rw [heq, last_openSegmentName] at hlast
    exact absurd hlast (by decide)
  have hphase (custody : Custody) :
      custody.phase ⟨dir, manifestName start «end» seq⟩ ≠ some .inFlight := by
    intro hphase
    obtain ⟨-, seq', heq⟩ := custody.held _ (by rw [hphase]; exact Option.some_ne_none _)
    exact hname seq' heq
  refine ⟨⟨?_, ?_, hphase custody⟩, hphase later⟩
  · rw [isOpen, decide_eq_false (hname w.openSegmentSeq), Bool.and_false]
  · refine Bool.eq_false_iff.mpr fun htemp ↦ ?_
    have hlast := last_compressorTemp htemp
    rw [last_manifestName] at hlast
    exact absurd hlast (by decide)

theorem mayAsk_of_mem {c : Candidate}
    (hc : c ∈ candidates (scan w custody disk).1 (scan w custody disk).2) {path : FilePath}
    (hpath : path ∈ env.asks c) :
    MayAsk w custody disk path ∧ Spared w custody env.custody path := by
  rcases List.mem_append.mp hc with hobject | hsegment
  · obtain ⟨o, ho, rfl⟩ := List.mem_map.mp hobject
    obtain ⟨hlisted, hreach, -, start, «end», seq, hkey, hmanifest⟩ := of_mem_objects ho
    have hsome : parseObjectKey o.path.name ≠ none := by rw [hkey]; exact Option.some_ne_none _
    rcases List.mem_cons.mp hpath with rfl | hmem
    · refine ⟨.object hlisted hsome, hreach, ?_⟩
      rw [phase_of_key env.custody hsome]
      exact (Option.some_ne_none _).symm
    · split at hmem
      next =>
          rw [List.mem_singleton.mp hmem, hmanifest]
          exact ⟨.manifest hlisted hkey, spared_manifest ..⟩
      next => cases hmem
  · obtain ⟨r, hr, rfl⟩ := List.mem_map.mp hsegment
    obtain ⟨hmem, hevictable, hkind⟩ := mem_byPriority.mp hr
    obtain ⟨hlisted, hreach, -, hqueued, hsegment⟩ := of_mem_residue hmem
    change path ∈ (if env.handed r then [] else [r.path]) at hpath
    split at hpath
    next => cases hpath
    next hhanded =>
        rw [List.mem_singleton.mp hpath]
        refine ⟨?_, hreach, of_decide_eq_false (Bool.not_eq_true _ ▸ hhanded)⟩
        rcases hkind with hnot | ⟨hheld, hne⟩
        · refine .orphan hlisted ((hsegment.mp hevictable).resolve_left ?_) ?_
          · rw [hnot]
            exact Bool.false_ne_true
          · intro hphase
            rw [hqueued.mpr hphase] at hnot
            cases hnot
        · exact .queued hlisted (hqueued.mp hheld) hne

/-- A retention pass: it gives up the right history, touches nothing else, and says what is left. -/
structure Retains (w : StagingWatermark) (custody : Custody) (disk : Disk) (env : Meanwhile)
    (out : Enforced) : Prop where
  evicts : ∃ taken rest, Evicts env w.stagingMax (scan w custody disk).1
    (candidates (scan w custody disk).1 (scan w custody disk).2) taken rest out
  asked : ∀ path ∈ out.asked, MayAsk w custody disk path ∧ Spared w custody env.custody path
  complete : ∀ path ∈ walk disk,
    (∀ o, look w custody disk path = .object o →
      .inl o ∈ candidates (scan w custody disk).1 (scan w custody disk).2) ∧
    ∀ r, look w custody disk path = .residue r → r.evictable = true →
      some r.path ≠ newestQueued (scan w custody disk).2 →
      .inr r ∈ candidates (scan w custody disk).1 (scan w custody disk).2
  objects : (scan w custody disk).1.Pairwise SegmentObject.older
  orphans : ((byPriority (scan w custody disk).2).filter fun r ↦ !r.queued).Pairwise fun a b ↦
    a.modified ≤ b.modified
  queue : ((byPriority (scan w custody disk).2).filter Residue.queued).Pairwise fun a b ↦
    a.ahead b = true
  reclaimable : governedBytes (scan w custody disk).1 (scan w custody disk).2 =
    weight Candidate.bytes (candidates (scan w custody disk).1 (scan w custody disk).2) +
      unreclaimableBytes (scan w custody disk).2

theorem enforce_retains (w : StagingWatermark) (custody : Custody) (disk : Disk) (env : Meanwhile) :
    Retains w custody disk env (enforce w custody disk env) where
  evicts := exists_evicts w custody disk env
  asked := by
    obtain ⟨taken, rest, h⟩ := exists_evicts w custody disk env
    intro path hpath
    rw [h.asked] at hpath
    obtain ⟨c, hc, hasks⟩ := List.mem_flatMap.mp hpath
    exact mayAsk_of_mem (h.split ▸ List.mem_append_left rest hc) hasks
  objects := pairwise_objects w custody disk
  complete := by
    intro path hpath
    constructor
    · intro o hlook
      exact List.mem_append_left _ (List.mem_map_of_mem (mem_objects.mpr ⟨path, hpath, hlook⟩))
    · intro r hlook hevictable hne
      have hr : r ∈ (scan w custody disk).2 := mem_residue.mpr ⟨path, hpath, hlook⟩
      refine List.mem_append_right _ (List.mem_map_of_mem (mem_byPriority.mpr ⟨hr, hevictable, ?_⟩))
      cases r.queued with
      | false => exact .inl rfl
      | true => exact .inr ⟨rfl, hne⟩
  orphans := by
    rw [(filter_byPriority _).1]
    exact (pairwise_residue w custody disk).sublist List.filter_sublist
  queue := by
    rw [(filter_byPriority _).2]
    exact pairwise_queue _
  reclaimable := governedBytes_eq w custody disk

end

end EdgeMulticast.Staging
