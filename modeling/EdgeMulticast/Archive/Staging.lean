import EdgeMulticast.Lib.Loops
import EdgeMulticast.Lib.Text
import Mathlib.Data.List.Infix
import Mathlib.Data.List.MinMax
import Mathlib.Data.List.Sort

/-!
# The staging watermark

`staging.rs` and the custody of `compress.rs` (`dz-recorder-archive`): what an archive gives up when
its two directories hold more than their budget.  A pass walks both directories, tells by its name what
each file is, and removes the oldest history until what it can reach is within the budget.

What the file system answers at the time is given: the entries of a directory, what a name measures,
what removing a file comes to, and which segment the compressor is reading by then.
-/

namespace EdgeMulticast.Staging

open EdgeMulticast.Lib

/-! ## Names -/

def SEGMENT_PREFIX : List Byte := ascii "segment-"

def PCAPNG_SUFFIX : List Byte := ascii ".pcapng"

def ZSTD_SUFFIX : List Byte := ascii ".pcapng.zst"

def MANIFEST_SUFFIX : List Byte := ascii ".manifest.json"

/-- What marks a segment whose run ended before it rotated. -/
def RECOVERED_MARKER : List Byte := ascii ".recovered-"

def DASH : Byte := 0x2d

def DOT : Byte := 0x2e

def U64_MAX : ℕ := 2 ^ 64 - 1

/-- The open segment's name. -/
def openSegmentName (segmentSeq : ℕ) : List Byte := SEGMENT_PREFIX ++ decimal segmentSeq ++ PCAPNG_SUFFIX

/-- The sequence number in a working segment's name: digits and nothing else. -/
def workingSegmentSeq (name : List Byte) : Option ℕ := do
  let rest ← name.dropPrefix? SEGMENT_PREFIX
  let seq ← rest.dropSuffix? PCAPNG_SUFFIX
  if seq = [] ∨ seq.all isDigit = false then none else parseUnsigned U64_MAX seq

def manifestName (startNs endNs segmentSeq : ℕ) : List Byte :=
  decimal startNs ++ [DASH] ++ decimal endNs ++ [DASH] ++ decimal segmentSeq ++ MANIFEST_SUFFIX

/-- The name an object is assembled under. -/
def isCompressorTemp (name : List Byte) : Bool :=
  [DOT].isPrefixOf name && (ascii ".part").isSuffixOf name

def isWorkingSegment (name : List Byte) : Bool := (workingSegmentSeq name).isSome

def isRecoveredSegment (name : List Byte) : Bool :=
  SEGMENT_PREFIX.isPrefixOf name && decide (RECOVERED_MARKER <:+: name) &&
    PCAPNG_SUFFIX.isSuffixOf name

/-- `<start_ns>-<end_ns>-<segment_seq>`. -/
def parseStem (stem : List Byte) : Option (ℕ × ℕ × ℕ) :=
  match stem.splitOn DASH with
  | [start, «end», seq] => do
      return (← parseUnsigned U64_MAX start, ← parseUnsigned U64_MAX «end», ← parseUnsigned U64_MAX seq)
  | _ => none

/-- The numbers of an object's name, compressed or not. -/
def parseObjectKey (name : List Byte) : Option (ℕ × ℕ × ℕ) :=
  ((name.dropSuffix? ZSTD_SUFFIX).or (name.dropSuffix? PCAPNG_SUFFIX)).bind parseStem

def manifestNameOf (name : List Byte) : Option (List Byte) :=
  (parseObjectKey name).map fun (start, «end», seq) ↦ manifestName start «end» seq

/-! ## The directories -/

inductive Dir where
  | completed | staging
deriving DecidableEq, Repr

structure FilePath where
  dir : Dir
  name : List Byte
deriving DecidableEq, Repr

/-- Whether the compressor has started on a segment that it holds. -/
inductive Phase where
  | queued | inFlight
deriving DecidableEq, Repr

/-- What the compressor holds.  It is handed segments under their working names. -/
structure Custody where
  phase : FilePath → Option Phase
  held : ∀ path, phase path ≠ none → path.dir = .staging ∧ ∃ seq, path.name = openSegmentName seq

/-- What a pass finds in the two directories.  A directory that cannot be read has no entries, an entry
whose name is no text has none, and a file that cannot be measured is empty and of no age. -/
structure Disk where
  entries : Dir → List (Option (List Byte))
  nodup : ∀ dir, ((entries dir).filterMap id).Nodup
  fileLen : FilePath → ℕ
  modified : FilePath → ℤ
  exists? : FilePath → Bool

/-- What removing a file comes to: it is gone because of it, it was gone, or it is still there. -/
inductive Removal where
  | removed
  | notFound
  | failed (error : ℕ)
deriving DecidableEq, Repr

/-- What a pass meets after its scan: what removing a file comes to when its turn comes, and what the
compressor holds by then. -/
structure Meanwhile where
  removeFile : FilePath → Removal
  custody : Custody

/-! ## The scan -/

/-- One object and the manifest that describes it. -/
structure SegmentObject where
  path : FilePath
  manifestPath : FilePath
  startNs : ℕ
  segmentSeq : ℕ
  /-- The object and its manifest together, as they are deleted together. -/
  bytes : ℕ
deriving DecidableEq, Repr

/-- Everything else that the budget has to answer for. -/
structure Residue where
  path : FilePath
  bytes : ℕ
  modified : ℤ
  evictable : Bool
  /-- Submitted to the compressor and not yet picked up. -/
  queued : Bool
  seq : Option ℕ
deriving DecidableEq, Repr

structure StagingWatermark where
  stagingMax : ℕ
  retainedFloorNs : Option ℕ := none
  retainedObjects : ℕ := 0
  openSegmentSeq : ℕ := 0
  segmentsEvictedTotal : ℕ := 0
  objectsEvictedTotal : ℕ := 0
  bytesEvictedTotal : ℕ := 0
deriving DecidableEq, Repr

/-- The object a manifest describes, compressed or not, if it is still there. -/
def objectOf (disk : Disk) (dir : Dir) (manifest : List Byte) : Option FilePath := do
  let stem ← manifest.dropSuffix? MANIFEST_SUFFIX
  ([ZSTD_SUFFIX, PCAPNG_SUFFIX].map fun suffix ↦ FilePath.mk dir (stem ++ suffix)).find? disk.exists?

/-- What the scan makes of a file. -/
inductive Seen where
  | skipped
  | object (o : SegmentObject)
  | residue (r : Residue)

namespace Seen

def object? : Seen → Option SegmentObject
  | .object o => some o
  | .skipped | .residue _ => none

def residue? : Seen → Option Residue
  | .residue r => some r
  | .skipped | .object _ => none

end Seen

variable (w : StagingWatermark) (custody : Custody) (disk : Disk)

def isOpen (path : FilePath) : Bool :=
  path.dir = .staging && path.name = openSegmentName w.openSegmentSeq

def look (path : FilePath) : Seen :=
  let phase := custody.phase path
  if isOpen w path || isCompressorTemp path.name || phase = some .inFlight then .skipped
  else
    match parseObjectKey path.name with
    | some (startNs, _, segmentSeq) =>
        let manifestPath := ⟨path.dir, (manifestNameOf path.name).getD []⟩
        .object {
          path
          manifestPath
          startNs
          segmentSeq
          bytes := disk.fileLen path + disk.fileLen manifestPath }
    | none =>
        -- accounted with the object it describes
        if MANIFEST_SUFFIX.isSuffixOf path.name && (objectOf disk path.dir path.name).isSome then .skipped
        else
          let queued := phase = some .queued
          .residue {
            path
            bytes := disk.fileLen path
            modified := disk.modified path
            evictable := queued || isRecoveredSegment path.name || isWorkingSegment path.name
            queued
            seq := workingSegmentSeq path.name }

/-- The files with a name, in the order they are walked in. -/
def walk : List FilePath :=
  [Dir.completed, .staging].flatMap fun dir ↦ ((disk.entries dir).filterMap id).map (FilePath.mk dir)

def SegmentObject.older (a b : SegmentObject) : Prop :=
  a.startNs < b.startNs ∨ a.startNs = b.startNs ∧ a.segmentSeq ≤ b.segmentSeq

instance (a b : SegmentObject) : Decidable (a.older b) :=
  inferInstanceAs (Decidable (_ ∨ _ ∧ _))

/-- Both directories, classified and oldest first. -/
def scan : List SegmentObject × List Residue :=
  let seen := (walk disk).map (look w custody disk)
  ((seen.filterMap Seen.object?).insertionSort SegmentObject.older,
    (seen.filterMap Seen.residue?).insertionSort fun a b ↦ a.modified ≤ b.modified)

/-- The most recent segment handed to the compressor and not yet started on: the last one of the
greatest sequence number. -/
def newestQueued (residue : List Residue) : Option FilePath :=
  (((residue.filter Residue.queued).filterMap fun r ↦ r.seq.map (·, r.path)).reverse.argmax
    Prod.fst).map Prod.snd

/-- What the budget counts, over both directories. -/
def governedBytes (objects : List SegmentObject) (residue : List Residue) : ℕ :=
  weight SegmentObject.bytes objects +
    weight Residue.bytes (residue.filter fun r ↦ some r.path ≠ newestQueued residue)

/-- The bytes that eviction cannot reach. -/
def unreclaimableBytes (residue : List Residue) : ℕ :=
  weight Residue.bytes (residue.filter fun r ↦ !r.evictable)

/-! ## A pass -/

/-- A pass on its way, and the files that it has asked to be removed. -/
structure Pass where
  watermark : StagingWatermark
  total : ℕ
  failure : Option ℕ := none
  objectsEvicted : ℕ := 0
  firstKept : Option ℕ := none
  visited : ℕ := 0
  asked : List FilePath := []

/-- What a removal meant for the budget: the bytes that are no longer on the disk, and the error worth
reporting. -/
structure Accounted where
  reclaimed : ℕ
  error : Option ℕ
  watermark : StagingWatermark

def accountRemoval (bytes : ℕ) (publishedObject : Bool) : Removal → Accounted
  | .removed => ⟨bytes, none, { w with
      segmentsEvictedTotal := w.segmentsEvictedTotal + 1
      objectsEvictedTotal := if publishedObject then w.objectsEvictedTotal + 1 else w.objectsEvictedTotal
      bytesEvictedTotal := w.bytesEvictedTotal + bytes }⟩
  | .notFound => ⟨bytes, none, w⟩
  | .failed error => ⟨0, some error, w⟩

namespace Pass

variable (env : Meanwhile) (p : Pass)

def isOver : Bool := p.watermark.stagingMax < p.total

/-- The next object, and its manifest unless the object is still there. -/
def evictObject (o : SegmentObject) : Pass :=
  let done := accountRemoval p.watermark o.bytes true (env.removeFile o.path)
  { watermark := done.watermark
    total := p.total - done.reclaimed
    failure := p.failure.or done.error
    objectsEvicted := if done.error.isNone then p.objectsEvicted + 1 else p.objectsEvicted
    firstKept := if done.error.isNone then p.firstKept else p.firstKept.or (some p.visited)
    visited := p.visited + 1
    asked := p.asked ++ o.path :: if done.error.isNone then [o.manifestPath] else [] }

/-- One candidate: unlink it unless the compressor is reading it, and lower the total either way. -/
def evictCandidate (r : Residue) : Pass :=
  if env.custody.phase r.path = some .inFlight then { p with total := p.total - r.bytes }
  else
    let done := accountRemoval p.watermark r.bytes false (env.removeFile r.path)
    { p with
      watermark := done.watermark
      total := p.total - done.reclaimed
      failure := p.failure.or done.error
      asked := p.asked ++ [r.path] }

end Pass

/-- The order of the queue: a segment without a sequence number comes first. -/
def Residue.ahead (a b : Residue) : Bool :=
  a.seq.elim true fun s ↦ b.seq.elim false fun t ↦ s ≤ t

/-- Orphans first and queued segments last, all but the newest of them and by their sequence. -/
def byPriority (residue : List Residue) : List Residue :=
  (residue.filter fun r ↦ r.evictable && !r.queued) ++
    (((residue.filter fun r ↦ r.evictable && r.queued).filter fun r ↦
      some r.path ≠ newestQueued residue).insertionSort fun a b ↦ a.ahead b)

/-- What a pass amounts to. -/
structure Enforced where
  result : Except ℕ Unit
  watermark : StagingWatermark
  /-- The bytes that eviction cannot reach, reported where they are over the budget alone. -/
  fault : Option ℕ
  asked : List FilePath

/-- Delete oldest first until the archive is inside its budget. -/
def enforce (env : Meanwhile) : Enforced :=
  let (objects, residue) := scan w custody disk
  let w := { w with
    retainedFloorNs := objects.head?.map SegmentObject.startNs
    retainedObjects := objects.length }
  let unreclaimable := unreclaimableBytes residue
  let total := governedBytes objects residue - unreclaimable
  let fault := if w.stagingMax < unreclaimable then some unreclaimable else none
  if total ≤ w.stagingMax then { result := .ok (), watermark := w, fault, asked := [] }
  else
    let p := (sweep (Pass.evictObject env) Pass.isOver { watermark := w, total } objects).1
    let p := { p with watermark := { p.watermark with
      retainedFloorNs := objects[p.firstKept.getD p.visited]?.map SegmentObject.startNs
      retainedObjects := objects.length - p.objectsEvicted } }
    let p := (sweep (Pass.evictCandidate env) Pass.isOver p (byPriority residue)).1
    { result := p.failure.elim (.ok ()) .error, watermark := p.watermark, fault, asked := p.asked }

end EdgeMulticast.Staging
