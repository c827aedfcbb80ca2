import EdgeMulticast.Load.Ledger

/-!
# A pass of the loader

`loader.rs` (`dz-recorder-load`): a walk over the objects directory, a scan of what it found, the
derivation of what is not loaded yet, feed by feed in turn, and a record in the ledger of each object
whose rows a sink has landed.

What a pass meets, the directory and the files in it, the stop signal and what becomes of its writes,
is a `Visit`.  The metrics are left out, and the ages with them.
-/

namespace EdgeMulticast.Load

open EdgeMulticast.Lib
open EdgeMulticast.Rows
open EdgeMulticast.Loss (Captured CaptureDropScope)

inductive ErrorKind where
  | digest | manifest | replay | inScope | sink | ledger | io
deriving DecidableEq, Repr

/-- A pass that has not seen the whole directory may not compact the ledger against it. -/
inductive Enumeration where
  | complete | incomplete
deriving DecidableEq, Repr

def objectId (manifest : SegmentManifest) : ObjectId := ⟨manifest.objectKey, manifest.sha256⟩

/-! ## What a pass meets -/

/-- What a read of a manifest gives. -/
inductive ManifestRead where
  | found (manifest : SegmentManifest)
  | gone
  | failed
deriving DecidableEq, Repr

/-- What there is under a name.  Whether it is a file reads a failure as no. -/
inductive Stat where
  | file | nothing | failed
deriving DecidableEq, Repr

/-- A manifest in the directory and the object beside it. -/
structure Published where
  stem : String
  /-- The number that the stem starts with, and `0` where it starts with none. -/
  startNs : ℕ
  /-- What there is under the name of the object, compressed and not. -/
  compressed : Stat
  plain : Stat
  /-- What the scan reads. -/
  scanned : ManifestRead
  /-- What the manifest holds when the pass comes to load it, unless it is gone by then. -/
  manifest : Option SegmentManifest
  /-- Whether it can be read then. -/
  readable : Bool
  /-- What the object's bytes give: an error, or the drop scope it states and its datagrams. -/
  archive : Except ErrorKind (CaptureDropScope × List Captured)
  /-- Whether the walk with the codec gets to the end of the object. -/
  events : Bool

/-- What one step of listing a feed's directory gives. -/
inductive Found where
  | failed
  | manifest (published : Published)
  | other

/-- What one step of listing the objects directory gives. -/
inductive Listed where
  | failed
  | manifest (published : Published)
  | directory (name : String) (listing : Option (List Found))
  /-- Neither a manifest nor a directory. -/
  | other
  /-- What it is cannot be told. -/
  | untyped

/-- What one pass meets. -/
structure Visit where
  nowNs : ℕ
  /-- What listing the objects directory gives, unless that fails. -/
  directory : Option (List Listed)
  /-- Whether the stop signal is there when the pass comes to a candidate. -/
  stop : ℕ → Bool
  /-- What becomes of the ledger's append of an object's entry, and when that is. -/
  append : ObjectId → Append × ℕ
  compaction : Compaction

/-! ## The sink -/

/-- What a sink is given for one object. -/
structure RowBatch where
  objectKey : String
  objectSha256 : String
  era : List EraRow
  sequenceGap : List SequenceGap
deriving DecidableEq, Repr

def RowBatch.id (rows : RowBatch) : ObjectId := ⟨rows.objectKey, rows.objectSha256⟩

/-- What a call of a sink comes to: the objects whose rows have landed, or an error. -/
abbrev Answer := Except ErrorKind (List ObjectId)

/-- A call lands some of the objects whose rows the sink was to hold, and is left with the others; one
that fails is left with none. -/
def Lands (held reported held' reported' : List ObjectId) : Answer → Prop
  | .ok landed => (landed ++ held').Perm held ∧ reported' = reported ++ landed
  | .error _ => held' = [] ∧ reported' = reported

/-- Somewhere rows are written.  When it sends what it holds, and when that fails, is its own. -/
structure RowSink where
  State : Type
  /-- The objects whose rows it holds. -/
  holds : State → List ObjectId
  /-- The objects that it and those started before it have reported landed. -/
  reported : State → List ObjectId
  writeBatch : RowBatch → ℕ → State → Answer × State
  postIfDue : ℕ → State → Answer × State
  flush : ℕ → State → Answer × State
  /-- A sink started anew. -/
  restarted : State → State
  lands_writeBatch (rows : RowBatch) (nowNs : ℕ) (s : State) :
    Lands (holds s ++ [rows.id]) (reported s) (holds (writeBatch rows nowNs s).2)
      (reported (writeBatch rows nowNs s).2) (writeBatch rows nowNs s).1
  lands_postIfDue (nowNs : ℕ) (s : State) :
    Lands (holds s) (reported s) (holds (postIfDue nowNs s).2) (reported (postIfDue nowNs s).2)
      (postIfDue nowNs s).1
  lands_flush (nowNs : ℕ) (s : State) :
    Lands (holds s) (reported s) (holds (flush nowNs s).2) (reported (flush nowNs s).2)
      (flush nowNs s).1
  holds_restarted (s : State) : holds (restarted s) = []
  reported_restarted (s : State) : reported (restarted s) = reported s

/-! ## The loader -/

/-- An object whose rows the sink has taken and not yet landed. -/
structure Pending where
  id : ObjectId
  trailer : SegmentTrailer
  feed : String
deriving DecidableEq, Repr

/-- What a loader is run with. -/
structure Config where
  /-- The feeds whose directories are read, and all of them where there are none named. -/
  feeds : Option (List String)
  site : String
  recorder : String
  /-- How many objects a pass derives, with no bound if it is `0`. -/
  maxObjects : ℕ
  /-- The feeds whose objects become market data rows as well. -/
  marketData : List String

structure Loader (sink : RowSink) where
  ledger : Ledger
  pending : List Pending
  sink : sink.State

/-- What one pass did. -/
structure Pass where
  loaded : ℕ := 0
  derived : ℕ := 0
  failed : ℕ := 0
  skipped : ℕ := 0
  unloaded : ℕ := 0
  held : ℕ := 0
  errors : List ErrorKind := []
deriving DecidableEq, Repr

def Pass.fail (p : Pass) (kind : ErrorKind) : Pass :=
  { p with failed := p.failed + 1, errors := p.errors ++ [kind] }

/-- What one recording did. -/
structure Recorded where
  recorded : ℕ := 0
  failures : ℕ := 0

/-- Why the load of an object failed, and what became of the rows that the sink was holding. -/
structure Failed where
  kind : ErrorKind
  sinkLostItsRows : Bool

/-! ## The walk -/

/-- An object and the manifest beside it. -/
structure Candidate where
  published : Published
  path : List String

namespace Published

/-- The name of the object beside the manifest, the compressed one first. -/
def object (p : Published) : Option String :=
  if p.compressed = .file then some (p.stem ++ ".pcapng.zst")
  else if p.plain = .file then some (p.stem ++ ".pcapng")
  else none

def candidate (directory : List String) (p : Published) : Option Candidate :=
  p.object.map fun object ↦ ⟨p, directory ++ [object]⟩

def reread (p : Published) : ManifestRead :=
  if p.readable then p.manifest.elim .gone .found
  else if p.manifest = none then .gone
  else .failed

end Published

namespace Found

def published : Found → Option Published
  | .manifest p => some p
  | .failed | .other => none

def isFailed : Found → Bool
  | .failed => true
  | .manifest _ | .other => false

end Found

namespace Config

variable (config : Config)

/-- Whether the directory of a feed is read. -/
def scans (name : String) : Bool := config.feeds.all fun feeds ↦ name ∈ feeds

/-- The manifests behind one step of listing the objects directory. -/
def manifests : Listed → List Candidate
  | .manifest p => if config.feeds = none then (p.candidate []).toList else []
  | .directory name (some found) =>
      if config.scans name then
        (found.filterMap Found.published).filterMap (Published.candidate [name])
      else []
  | .directory _ none | .failed | .other | .untyped => []

/-- How much one step of listing the objects directory leaves out, with an error for each. -/
def omitted : Listed → ℕ
  | .failed | .untyped => 1
  | .directory name none => if config.scans name then 1 else 0
  | .directory name (some found) =>
      if config.scans name then found.countP Found.isFailed else 0
  | .manifest _ | .other => 0

/-- Oldest first, and by the object's path where two are of one time. -/
def older (a b : Candidate) : Bool :=
  a.published.startNs < b.published.startNs ||
    a.published.startNs = b.published.startNs && (compare a.path b.path).isLE

/-- Every object with a manifest beside it, oldest first. -/
def candidates (directory : Option (List Listed)) : List Candidate :=
  (directory.elim [] (·.flatMap config.manifests)).insertionSort fun a b ↦ older a b

/-- How much the walk has left out. -/
def omissions (directory : Option (List Listed)) : ℕ :=
  directory.elim 1 fun listed ↦ (listed.map config.omitted).sum

def enumeration (directory : Option (List Listed)) : Enumeration :=
  if config.omissions directory = 0 then .complete else .incomplete

end Config

/-! ## The scan -/

/-- What the scan makes of one candidate. -/
inductive Sighting where
  | vanished
  | unread
  | foreignHost (manifest : SegmentManifest)
  | alreadyLoaded (manifest : SegmentManifest)
  | held (manifest : SegmentManifest)
  | derivable (manifest : SegmentManifest)
deriving DecidableEq, Repr

namespace Sighting

def manifest : Sighting → Option SegmentManifest
  | .vanished | .unread => none
  | .foreignHost m | .alreadyLoaded m | .held m | .derivable m => some m

/-- The object, if it is of this host and has no entry in the ledger. -/
def unloaded : Sighting → Option ObjectId
  | .held m | .derivable m => some (objectId m)
  | .vanished | .unread | .foreignHost _ | .alreadyLoaded _ => none

def derivableFeed : Sighting → Option String
  | .derivable m => some m.feed
  | _ => none

def isSkip : Sighting → Bool
  | .unread | .derivable _ => false
  | .vanished | .foreignHost _ | .alreadyLoaded _ | .held _ => true

end Sighting

/-- What the scan of a directory found. -/
structure Scan where
  present : List ObjectId
  seen : List ObjectId
  derivable : List (ℕ × String)
  pass : Pass

section

variable {sink : RowSink} (config : Config)

namespace Loader

def sight (l : Loader sink) : ManifestRead → Sighting
  | .gone => .vanished
  | .failed => .unread
  | .found m =>
      if m.site ≠ config.site ∨ m.recorder ≠ config.recorder then .foreignHost m
      else if l.ledger.isLoaded (objectId m) then .alreadyLoaded m
      else if l.pending.any fun p ↦ p.id = objectId m then .held m
      else .derivable m

def scan (l : Loader sink) (candidates : List Candidate) : Scan :=
  let sightings := candidates.map fun c ↦ l.sight config c.published.scanned
  { present := (sightings.filterMap Sighting.manifest).map objectId
    seen := sightings.filterMap Sighting.unloaded
    derivable := sightings.zipIdx.filterMap fun (s, index) ↦ s.derivableFeed.map (index, ·)
    pass :=
      { skipped := sightings.countP Sighting.isSkip
        failed := sightings.count .unread
        errors := (sightings.filter (· = .unread)).map fun _ ↦ .manifest } }

end Loader

/-- Each position with the number of objects of its feed before it. -/
def ranked (taken : String → ℕ) : List (ℕ × String) → List (ℕ × ℕ)
  | [] => []
  | (position, feed) :: rest =>
      (taken feed, position) :: ranked (Function.update taken feed (taken feed + 1)) rest

/-- The order a pass derives in: every feed's oldest object, then every feed's second, and so on. -/
def takeTurns (derivable : List (ℕ × String)) : List ℕ :=
  ((ranked (fun _ ↦ 0) derivable).insertionSort fun a b ↦
    a.1 < b.1 ∨ a.1 = b.1 ∧ a.2 ≤ b.2).map Prod.snd

/-! ## Loading -/

variable (json : LineCodec Entry)

namespace Loader

/-- The highest segment's, pending or recorded.  Among pending ones the last of the highest. -/
def trailer (l : Loader sink) (feed : String) : Option SegmentTrailer :=
  let pending := (l.pending.filter (·.feed = feed)).map Pending.trailer
  let best := pending.foldl (fun best t ↦
    if best.all fun (b : SegmentTrailer) ↦ b.segmentSeq ≤ t.segmentSeq then some t else best) none
  match best, l.ledger.trailers feed with
  | some p, some t => if p.segmentSeq < t.segmentSeq then some t else some p
  | some p, none => some p
  | none, t => t

/-- Write an entry for one object that has landed, and stop holding it. -/
def recordOne (append : ObjectId → Append × ℕ) (state : Loader sink × Recorded) (id : ObjectId) :
    Loader sink × Recorded :=
  let l := state.1
  match l.pending.find? (·.id = id) with
  | none => state
  | some done =>
      let result := l.ledger.record json
        { objectKey := done.id.key
          objectSha256 := done.id.sha256
          loadedAtNs := (append id).2
          trailer := done.trailer
          feed := done.feed } (append id).1
      ({ l with pending := l.pending.eraseP (·.id = id), ledger := result.1 },
        if result.2 then { state.2 with recorded := state.2.recorded + 1 }
        else { state.2 with failures := state.2.failures + 1 })

/-- Write an entry for every object whose rows have landed. -/
def recordLanded (append : ObjectId → Append × ℕ) (l : Loader sink) (landed : List ObjectId) :
    Loader sink × Recorded :=
  run (recordOne json append) (l, {}) landed

/-- What an object is derived with. -/
def input (l : Loader sink) (m : SegmentManifest) (dropScope : CaptureDropScope) : DeriveInput where
  manifest := m
  dropScope := dropScope
  preceding := l.trailer m.feed
  derivation := .archive

def batch (m : SegmentManifest) (derived : Derived) : RowBatch where
  objectKey := m.objectKey
  objectSha256 := m.sha256
  era := derived.era
  sequenceGap := derived.sequenceGap

/-- Derive one object, hand it to the sink, and record whatever that caused to land. -/
def load (v : Visit) (l : Loader sink) (p : Published) (m : SegmentManifest) :
    Loader sink × Except Failed Recorded :=
  match p.archive with
  | .error kind => (l, .error ⟨kind, false⟩)
  | .ok (dropScope, dgs) =>
      let derived := derive dgs (l.input m dropScope)
      if m.feed ∈ config.marketData ∧ ¬p.events then (l, .error ⟨.replay, false⟩)
      else
        match sink.writeBatch (batch m derived) v.nowNs l.sink with
        | (.error kind, s) => ({ l with sink := s }, .error ⟨kind, true⟩)
        | (.ok landed, s) =>
            let held : Pending := ⟨objectId m, derived.trailer, m.feed⟩
            let result := recordLanded json v.append
              { l with sink := s, pending := l.pending ++ [held] } landed
            (result.1, .ok result.2)

end Loader

/-! ## The pass -/

/-- A pass on its way through what it may derive. -/
structure Going (sink : RowSink) where
  loader : Loader sink
  pass : Pass
  ended : Bool := false

/-- One object of a pass that has come to it. -/
def Going.derive (v : Visit) (g : Going sink) (c : Candidate) : Going sink :=
  match c.published.reread with
  | .gone => { g with pass := { g.pass with skipped := g.pass.skipped + 1 } }
  | .failed => { g with pass := g.pass.fail .manifest }
  | .found m =>
      match g.loader.load config json v c.published m with
      | (l, .ok recorded) =>
          { g with
            loader := l
            pass :=
              { g.pass with
                derived := g.pass.derived + 1
                loaded := g.pass.loaded + recorded.recorded
                failed := g.pass.failed + recorded.failures
                errors := g.pass.errors ++ List.replicate recorded.failures .ledger } }
      | (l, .error failed) =>
          if failed.sinkLostItsRows then
            { loader := { l with pending := [] }, pass := g.pass.fail failed.kind, ended := true }
          else { g with loader := l, pass := g.pass.fail failed.kind }

/-- One turn of a pass, unless it has stopped loading or does so now. -/
def Going.turn (v : Visit) (candidates : List Candidate) (g : Going sink) (index : ℕ) :
    Going sink :=
  if g.ended then g
  else if v.stop index ∨ config.maxObjects ≠ 0 ∧ config.maxObjects ≤ g.pass.derived then
    { g with ended := true }
  else
    match candidates[index]? with
    | none => g
    | some c => g.derive config json v c

namespace Loader

/-- A pass that has scanned the directory and derived nothing yet. -/
def scanned (v : Visit) (l : Loader sink) : Going sink where
  loader := l
  pass :=
    let pass := (l.scan config (config.candidates v.directory)).pass
    { pass with
      errors := List.replicate (config.omissions v.directory) .io ++ pass.errors }

/-- The candidates that a pass may derive, in its order. -/
def turns (v : Visit) (l : Loader sink) : List ℕ :=
  takeTurns (l.scan config (config.candidates v.directory)).derivable

/-- A pass that has come to some of the candidates. -/
def after (v : Visit) (l : Loader sink) (turns : List ℕ) : Going sink :=
  run (Going.turn config json v (config.candidates v.directory)) (l.scanned config v) turns

/-- Post what the sink holds if it is due. -/
def post (v : Visit) (l : Loader sink) : Loader sink × Except ErrorKind Recorded :=
  match sink.postIfDue v.nowNs l.sink with
  | (.error kind, s) => ({ l with sink := s, pending := [] }, .error kind)
  | (.ok landed, s) =>
      let result := recordLanded json v.append { l with sink := s } landed
      (result.1, .ok result.2)

/-- Compact the ledger, against a whole directory only. -/
def compacted (v : Visit) (present : List ObjectId) (l : Loader sink) : Loader sink × Bool :=
  match config.enumeration v.directory with
  | .incomplete => (l, true)
  | .complete =>
      let result := l.ledger.compact json present config.feeds v.compaction
      ({ l with ledger := result.1 }, result.2)

/-- What a pass reports beside what it did turn by turn. -/
def report (seen : List ObjectId) (l : Loader sink) (pass : Pass)
    (posted : Except ErrorKind Recorded) : Pass :=
  let pass : Pass :=
    match posted with
    | .error kind => pass.fail kind
    | .ok recorded =>
        { pass with
          loaded := pass.loaded + recorded.recorded
          failed := pass.failed + recorded.failures
          errors := pass.errors ++ List.replicate recorded.failures .ledger }
  { pass with
    held := l.pending.length
    unloaded := seen.countP fun id ↦ !l.ledger.isLoaded id }

/-- Walk the directory once. -/
def runOnce (v : Visit) (l : Loader sink) : Loader sink × Pass :=
  let scan := l.scan config (config.candidates v.directory)
  let going := l.after config json v (takeTurns scan.derivable)
  let posted := going.loader.post json v
  let pass := posted.1.report scan.seen going.pass posted.2
  let last := posted.1.compacted config json v scan.present
  (last.1, if last.2 then pass else { pass with errors := pass.errors ++ [.ledger] })

/-- What the way out does: everything the sink holds is posted, due or not. -/
def leave (nowNs : ℕ) (append : ObjectId → Append × ℕ) (l : Loader sink) :
    Loader sink × Except ErrorKind Recorded :=
  match sink.flush nowNs l.sink with
  | (.error kind, s) => ({ l with sink := s }, .error kind)
  | (.ok landed, s) =>
      let result := recordLanded json append { l with sink := s } landed
      (result.1, .ok result.2)

/-- The loader that takes over from one that has ended, at any moment.  One that keeps its ledger in
memory starts with an empty one. -/
def restart (l : Loader sink) : Option (Loader sink) :=
  (Ledger.open json l.ledger.file).map fun ledger ↦
    { ledger, pending := [], sink := sink.restarted l.sink }

end Loader

end

end EdgeMulticast.Load
