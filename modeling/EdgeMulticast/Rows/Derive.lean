import EdgeMulticast.Loss.Instance

/-!
# Rows out of an object

`derive` (`dz-recorder-rows`): the datagrams of one object, folded once, and the rows of its eras and
of its sequence gaps made of the loss report and of the trailer that the segment before it left.

The rows of the datagrams and of the coverage copy the object and its manifest, and are left out.
-/

namespace EdgeMulticast.Rows

open EdgeMulticast.Lib
open EdgeMulticast.Loss
open EdgeMulticast.Recorder (ChannelInstance PortRole)
open Std (ExtTreeMap)

/-- What an object's manifest says, as far as the rows read it. -/
structure SegmentManifest where
  site : String
  recorder : String
  env : String
  feed : String
  objectKey : String
  sha256 : String
  segmentSeq : ℕ
  interfaceDropTotal : ℕ
deriving DecidableEq, Repr

/-- The Reset Count of one channel instance on the last datagram of a segment. -/
structure InstanceReset where
  «instance» : ChannelInstance
  resetCount : ℕ
deriving DecidableEq, Repr

/-- What loading one segment leaves behind for the next one. -/
structure SegmentTrailer where
  segmentSeq : ℕ
  interfaceDropTotal : ℕ
  instances : List InstanceReset
deriving DecidableEq, Repr

namespace SegmentTrailer

def lastResetCount (t : SegmentTrailer) (key : ChannelInstance) : Option ℕ :=
  (t.instances.find? fun i ↦ i.instance = key).map InstanceReset.resetCount

/-- Whether this is the trailer of the segment right before `segmentSeq`. -/
def precedes (t : SegmentTrailer) (segmentSeq : ℕ) : Bool :=
  saturatingAdd t.segmentSeq 1 = segmentSeq

end SegmentTrailer

/-- Whether the datagrams behind a window were kept and verified. -/
inductive Derivation where
  | archive | live
deriving DecidableEq, Repr

/-- Everything one derivation needs that is not in the object. -/
structure DeriveInput where
  manifest : SegmentManifest
  dropScope : CaptureDropScope
  preceding : Option SegmentTrailer
  derivation : Derivation
deriving DecidableEq, Repr

/-- Whose loss a gap is.  No object by itself shows that it is the publisher's. -/
inductive Verdict where
  | recorder | upstream | path | unverifiable | publisher
deriving DecidableEq, Repr

structure EraRow where
  site : String
  recorder : String
  feed : String
  «instance» : ChannelInstance
  anchorTs : ℕ
  anchorSeq : ℕ
  resetCount : ℕ
  segmentSeq : ℕ
  anchorCertain : ℕ
  continuation : ℕ
  objectKey : String
  objectSha256 : String
  derivation : Derivation
deriving DecidableEq, Repr

structure SequenceGap where
  site : String
  recorder : String
  env : String
  feed : String
  portRole : PortRole
  groupAddr : ℕ
  «instance» : ChannelInstance
  resetCount : ℕ
  eraIndex : ℕ
  eraAnchorTs : ℕ
  anchorCertain : ℕ
  missingFrom : ℕ
  missingTo : ℕ
  missingCount : ℕ
  referenceSeqs : ℕ
  beforeTs : ℕ
  afterTs : ℕ
  sentFromTs : Option ℕ
  sentToTs : Option ℕ
  admittedRecorder : ℕ
  admittedScope : CaptureDropScope
  unexplainedCount : Option ℕ
  interfaceDrops : Option ℕ
  seenElsewhere : Option ℕ
  onRedundantPath : Option ℕ
  verdict : Verdict
  objectKey : String
  derivation : Derivation
deriving DecidableEq, Repr

structure Derived where
  era : List EraRow
  sequenceGap : List SequenceGap
  trailer : SegmentTrailer
  shortDatagrams : ℕ
deriving DecidableEq, Repr

/-! ## The rows of eras -/

/-- Whether the anchor of an era is certain, and whether it continues the era before it.  The first
era of an instance is the one that the segment before decides. -/
def boundary (coverage : EraCoverage) (key : ChannelInstance) (input : DeriveInput) : ℕ × ℕ :=
  if 1 < coverage.ordinal then (1, 0)
  else
    match input.preceding.filter fun t ↦ t.precedes input.manifest.segmentSeq with
    | none => (0, 0)
    | some preceding =>
        if preceding.lastResetCount key = some coverage.resetCount then (1, 1) else (1, 0)

def eraRow (manifest : SegmentManifest) (derivation : Derivation) (key : ChannelInstance)
    (coverage : EraCoverage) (certainty : ℕ × ℕ) : EraRow where
  site := manifest.site
  recorder := manifest.recorder
  feed := manifest.feed
  «instance» := key
  anchorTs := coverage.anchorTsNs
  anchorSeq := coverage.anchorSeq
  resetCount := coverage.resetCount
  segmentSeq := manifest.segmentSeq
  anchorCertain := certainty.1
  continuation := certainty.2
  objectKey := manifest.objectKey
  objectSha256 := manifest.sha256
  derivation := derivation

/-! ## The rows of gaps -/

/-- What a gap row needs that the run itself does not carry. -/
structure GapEvidence where
  eraAnchorTs : ℕ
  anchorCertain : ℕ
  admitted : ℕ
  subtractionIsValid : Bool
  interfaceDrops : Option ℕ
  onRedundantPath : Option ℕ

/-- The recorder's own admitted loss covering one run: what the datagram right after it carried. -/
def admittedForRun (admittedBefore : ExtTreeMap (Scoped ChannelInstance) ℕ) (key : ChannelInstance)
    (run : SequenceRun) : ℕ :=
  admittedBefore[(⟨key, saturatingAdd run.missingTo 1⟩ : Scoped ChannelInstance)]?.getD 0

/-- The verdicts, in the order they are tested. -/
def verdict (unexplainedCount interfaceDrops onRedundantPath : Option ℕ) : Verdict :=
  if unexplainedCount = some 0 then .recorder
  else if interfaceDrops.any (0 < ·) then .upstream
  else if onRedundantPath = some 1 then .path
  else .unverifiable

/-- Loss upstream of the capture point over this window. -/
def interfaceDropDelta (manifest : SegmentManifest) (preceding : Option SegmentTrailer) :
    Option ℕ :=
  (preceding.filter fun t ↦ t.precedes manifest.segmentSeq).map fun t ↦
    manifest.interfaceDropTotal - t.interfaceDropTotal

/-- Whether a peer delivered every value of a run in an era of the same Reset Count. -/
def deliveredWholeRun (peer : InstanceLoss) (run : SequenceRun) : Bool :=
  peer.eras.any fun era ↦
    era.resetCount = run.resetCount ∧ era.firstSeq ≤ run.missingFrom ∧
      run.missingTo ≤ era.lastSeq ∧
      ¬peer.runs.any fun peerRun ↦
        peerRun.eraOrdinal = era.ordinal ∧ peerRun.missingFrom ≤ run.missingTo ∧
          run.missingFrom ≤ peerRun.missingTo

/-- Whether a redundant instance on the same channel and port delivered what a run is missing. -/
def onRedundantPath (report : LossReport) (loss : InstanceLoss) (run : SequenceRun) : Option ℕ :=
  let peers := (report.instances.toList.map Prod.snd).filter fun peer ↦
    peer.instance.channelId = loss.instance.channelId ∧
      peer.instance.dstPort = loss.instance.dstPort ∧ peer.instance.source ≠ loss.instance.source
  if peers = [] then none
  else some (if peers.any fun peer ↦ deliveredWholeRun peer run then 1 else 0)

def gapRow (manifest : SegmentManifest) (dropScope : CaptureDropScope) (derivation : Derivation)
    (loss : InstanceLoss) (run : SequenceRun) (evidence : GapEvidence) : SequenceGap :=
  let unexplainedCount :=
    if evidence.subtractionIsValid then
      some (run.missingCount - min evidence.admitted run.missingCount)
    else none
  { site := manifest.site
    recorder := manifest.recorder
    env := manifest.env
    feed := manifest.feed
    portRole := run.role
    groupAddr := run.group
    «instance» := run.instance
    resetCount := run.resetCount
    eraIndex := min run.eraOrdinal (2 ^ 32 - 1)
    eraAnchorTs := evidence.eraAnchorTs
    anchorCertain := evidence.anchorCertain
    missingFrom := run.missingFrom
    missingTo := run.missingTo
    missingCount := run.missingCount
    referenceSeqs := loss.referenceSeqs
    beforeTs := run.beforeTsNs
    afterTs := run.afterTsNs
    sentFromTs := none
    sentToTs := none
    admittedRecorder := evidence.admitted
    admittedScope := dropScope
    unexplainedCount := unexplainedCount
    interfaceDrops := evidence.interfaceDrops
    seenElsewhere := none
    onRedundantPath := evidence.onRedundantPath
    verdict := verdict unexplainedCount evidence.interfaceDrops evidence.onRedundantPath
    objectKey := manifest.objectKey
    derivation := derivation }

/-! ## The fold over the datagrams -/

structure Fold where
  loss : LossDeriver
  lastReset : ExtTreeMap ChannelInstance ℕ := ∅
  /-- The admitted loss that the datagram at a number of an instance carried. -/
  admittedBefore : ExtTreeMap (Scoped ChannelInstance) ℕ := ∅
  shortDatagrams : ℕ := 0

namespace Fold

/-- Fold one datagram in. -/
def observe (f : Fold) (c : Captured) : Fold :=
  let f := { f with loss := f.loss.observe c }
  match c with
  | .short _ _ => { f with shortDatagrams := f.shortDatagrams + 1 }
  | .read _ key dg =>
      { f with
        lastReset :=
          if f.lastReset.contains key || f.lastReset.size < f.loss.limits.maxInstances then
            f.lastReset.insert key dg.resetCount
          else f.lastReset
        -- the first arrival stands: a duplicate is not a second admission of the same loss
        admittedBefore :=
          if dg.dropDelta ≠ 0 then
            f.admittedBefore.insertIfNew ⟨key, dg.sequenceNumber⟩ dg.dropDelta
          else f.admittedBefore }

/-- The row of a run of one instance. -/
def rowOfRun (f : Fold) (input : DeriveInput) (report : LossReport) (key : ChannelInstance)
    (loss : InstanceLoss) (run : SequenceRun) : SequenceGap :=
  let anchor := (loss.eras.find? fun e ↦ e.ordinal = run.eraOrdinal).map fun e ↦
    (e.anchorTsNs, (boundary e key input).1)
  gapRow input.manifest input.dropScope input.derivation loss run
    { eraAnchorTs := anchor.elim run.beforeTsNs Prod.fst
      anchorCertain := anchor.elim 0 Prod.snd
      admitted := admittedForRun f.admittedBefore key run
      subtractionIsValid :=
        match report.unexplained key with
        | some (.count _) => true
        | some .unverifiable | none => false
      interfaceDrops := interfaceDropDelta input.manifest input.preceding
      onRedundantPath := onRedundantPath report loss run }

end Fold

def folded (scope : CaptureDropScope) (dgs : List Captured) : Fold :=
  run Fold.observe { loss := { scope } } dgs

/-- The pure half of the derivation: rows out of the datagrams of an object. -/
def derive (dgs : List Captured) (input : DeriveInput) : Derived :=
  let f := folded input.dropScope dgs
  let report := f.loss.finish
  { era := report.instances.toList.flatMap fun (key, loss) ↦
      loss.eras.map fun coverage ↦
        eraRow input.manifest input.derivation key coverage (boundary coverage key input)
    sequenceGap := report.instances.toList.flatMap fun (key, loss) ↦
      loss.runs.map (f.rowOfRun input report key loss)
    trailer :=
      { segmentSeq := input.manifest.segmentSeq
        interfaceDropTotal := input.manifest.interfaceDropTotal
        instances := f.lastReset.toList.map fun (key, resetCount) ↦ ⟨key, resetCount⟩ }
    shortDatagrams := f.shortDatagrams }

end EdgeMulticast.Rows
