import EdgeMulticast.Archive.Upstream
import EdgeMulticast.Lib.Durable

/-!
# Publishing an upstream object

`publish`, `assemble` and `clean_up` of `upstream.rs` and `seal` and `write_and_sync` of `compress.rs`
(`dz-recorder-archive`): a closed segment is compressed into a temporary file, a manifest that states
its digest and its length into another, and the two are moved to their final names, the manifest
first.  An attempt that fails removes what it created.

The compressor, the digest and the JSON of a manifest are parameters.  What comes of each operation on
a file is part of the attempt.
-/

namespace EdgeMulticast.Archive

open EdgeMulticast.Lib

/-! ## Names -/

inductive Compression where
  | none
  | zstd (level : ℤ)
deriving DecidableEq

/-- What compression adds to a name. -/
def Compression.suffix : Compression → List Byte
  | .none => []
  | .zstd _ => ascii ".zst"

def UPSTREAM_OBJECT_EXTENSION : List Byte := ascii "dzus"

def upstreamObjectExtension (compression : Compression) : List Byte :=
  UPSTREAM_OBJECT_EXTENSION ++ compression.suffix

/-- Days since 1970-01-01 to a civil date. -/
def civilFromDays (days : ℤ) : ℤ × ℤ × ℤ :=
  let z := days + 719468
  let cycle := (if 0 ≤ z then z else z - 146096).tdiv 146097
  let doc := z - cycle * 146097
  let yoc := (doc - doc.tdiv 1460 + doc.tdiv 36524 - doc.tdiv 146096).tdiv 365
  let y := yoc + cycle * 400
  let doy := doc - (365 * yoc + yoc.tdiv 4 - yoc.tdiv 100)
  let mp := (5 * doy + 2).tdiv 153
  let d := doy - (153 * mp + 2).tdiv 5 + 1
  let m := if mp < 10 then mp + 3 else mp - 9
  (y + if m ≤ 2 then 1 else 0, m, d)

/-- Year, month, day and hour in UTC of a nanosecond timestamp. -/
def utcParts (ns : UInt64) : ℤ × ℤ × ℤ × ℤ :=
  let secs : ℤ := ns.toNat / 1000000000
  let days := secs / 86400
  let (year, month, day) := civilFromDays days
  (year, month, day, (secs % 86400).tdiv 3600)

/-- A number in at least `width` digits. -/
def padded (width : ℕ) (n : ℤ) : List Byte :=
  let digits := decimal n.toNat
  List.replicate (width - digits.length) 0x30 ++ digits

/-- The key that an object is to land under. -/
def objectKey (feed env site recorder : List Byte) (startNs : UInt64) (fileName : List Byte) :
    List Byte :=
  let (year, month, day, hour) := utcParts startNs
  ascii "feed=" ++ feed ++ ascii "/env=" ++ env ++ ascii "/site=" ++ site ++ ascii "/recorder=" ++
    recorder ++ ascii "/date=" ++ padded 4 year ++ ascii "-" ++ padded 2 month ++ ascii "-" ++
    padded 2 day ++ ascii "/hour=" ++ padded 2 hour ++ ascii "/" ++ fileName

/-! ## The manifest -/

/-- What a reader can answer about an upstream object without opening it. -/
structure UpstreamManifest where
  formatVersion : UInt16
  site : List Byte
  recorder : List Byte
  env : List Byte
  feed : List Byte
  observation : List Byte
  connections : List UpstreamConnection
  segmentSeq : UInt64
  startNs : UInt64
  endNs : UInt64
  messageCount : UInt64
  /-- Filled in at publication, as the two below. -/
  objectKey : List Byte
  sha256 : List Byte
  byteCount : ℕ
deriving DecidableEq

/-- The names that one publication touches. -/
structure Names where
  fileName : List Byte
  manifestName : List Byte
  objectTmp : List Byte
  manifestTmp : List Byte

def Names.of (draft : UpstreamManifest) (compression : Compression) : Names :=
  let fileName := decimal draft.startNs.toNat ++ ascii "-" ++ decimal draft.endNs.toNat ++
    ascii "-" ++ decimal draft.segmentSeq.toNat ++ ascii "." ++ upstreamObjectExtension compression
  let manifestName := fileName ++ ascii ".manifest.json"
  { fileName
    manifestName
    objectTmp := ascii "." ++ fileName ++ ascii ".tmp"
    manifestTmp := ascii "." ++ manifestName ++ ascii ".tmp" }

/-! ## An attempt -/

/-- The code that is not the archive's own: the encoder over a whole file, the digest, and the JSON of
a manifest. -/
structure Codecs where
  zstd : ℤ → List Byte → List Byte
  sha256 : List Byte → List Byte
  toJson : UpstreamManifest → List Byte

/-- The bytes of the object of a segment. -/
def Codecs.sealed (codecs : Codecs) (compression : Compression) (segment : List Byte) : List Byte :=
  match compression with
  | .none => segment
  | .zstd level => codecs.zstd level segment

def hexDigit (n : ℕ) : Byte := if n < 10 then UInt8.ofNat (48 + n) else UInt8.ofNat (87 + n)

def hex (bytes : List Byte) : List Byte :=
  bytes.flatMap fun b ↦ [hexDigit (b.toNat / 16), hexDigit (b.toNat % 16)]

/-- The file of the segment, or one in the directory of the completed ones. -/
inductive Path where
  | source
  | completed (name : List Byte)
deriving DecidableEq

/-- What comes of each operation of one attempt.  A removal that is not tried has one too. -/
structure Attempt where
  createDir : Bool
  openSource : Bool
  sealing : Writing
  encode : Bool
  writeManifest : Writing
  moveManifest : Bool
  moveObject : Bool
  removeObjectTmp : Bool
  removeManifestTmp : Bool
  removeManifest : Bool

structure PublishedUpstreamObject where
  path : Path
  manifest : UpstreamManifest

section

variable (codecs : Codecs) (draft : UpstreamManifest) (compression : Compression)

/-- The manifest of an object of some bytes. -/
def finished (object : List Byte) : UpstreamManifest :=
  { draft with
    objectKey := objectKey draft.feed draft.env draft.site draft.recorder draft.startNs
      (Names.of draft compression).fileName
    byteCount := object.length
    sha256 := hex (codecs.sha256 object) }

/-- Compress the segment into a file; the bytes that were written, if all of them are synced. -/
def «seal» (fs : Directory Path) (dest : Path) (a : Attempt) : Option (List Byte) × Directory Path :=
  match fs .source with
  | none => (none, fs)
  | some segment =>
      if a.openSource then
        let object := codecs.sealed compression segment
        let (whole, fs) := fs.write dest object a.sealing
        (if whole then some object else none, fs)
      else (none, fs)

/-- Write the manifest of a sealed object and move both; whether the manifest was installed. -/
def land (fs : Directory Path) (object : List Byte) (a : Attempt) :
    Option PublishedUpstreamObject × Bool × Directory Path :=
  let names := Names.of draft compression
  let manifest := finished codecs draft compression object
  if !a.encode then (none, false, fs)
  else
    let (written, fs) :=
      fs.write (.completed names.manifestTmp) (codecs.toJson manifest) a.writeManifest
    if !written then (none, false, fs)
    else
      let (moved, fs) :=
        fs.rename (.completed names.manifestTmp) (.completed names.manifestName) a.moveManifest
      if !moved then (none, false, fs)
      else
        let (moved, fs) :=
          fs.rename (.completed names.objectTmp) (.completed names.fileName) a.moveObject
        if !moved then (none, true, fs)
        else (some ⟨.completed names.fileName, manifest⟩, true, fs)

def assemble (fs : Directory Path) (a : Attempt) :
    Option PublishedUpstreamObject × Bool × Directory Path :=
  match «seal» codecs compression fs (.completed (Names.of draft compression).objectTmp) a with
  | (none, fs) => (none, false, fs)
  | (some object, fs) => land codecs draft compression fs object a

/-- Remove what an attempt that failed has created, and the final manifest only if it installed it. -/
def cleanUp (fs : Directory Path) (installed : Bool) (a : Attempt) : Directory Path :=
  let names := Names.of draft compression
  let fs := fs.remove (.completed names.objectTmp) a.removeObjectTmp
  let fs := fs.remove (.completed names.manifestTmp) a.removeManifestTmp
  if installed then fs.remove (.completed names.manifestName) a.removeManifest else fs

/-- Compress, digest and publish one closed segment. -/
def publish (fs : Directory Path) (a : Attempt) : Option PublishedUpstreamObject × Directory Path :=
  if !a.createDir then (none, fs)
  else
    match assemble codecs draft compression fs a with
    | (some published, _, fs) => (some published, fs)
    | (none, installed, fs) => (none, cleanUp draft compression fs installed a)

end

end EdgeMulticast.Archive
