import EdgeMulticast.Loss.Era
import EdgeMulticast.Recorder.Wire

/-!
# Loss of one channel instance

`InstanceState.observe` folds the header of one datagram in: the tracker says what its sequence
number did on arrival, and the ranges of the era it belongs to say what the archive ends up
holding.  `finish` closes the window and makes of the spaces between the ranges of every era the
runs of missing values.

The two accounts come apart in two places.  A datagram that carries the Reset Count of the
previous era and lies beyond it is delivered there and the tracker is not asked
(`eraOfStraggler`), and an era beyond the limit is refused although the tracker has entered it.
-/

namespace EdgeMulticast.Loss

open EdgeMulticast.Lib
open EdgeMulticast.Recorder (ChannelInstance PortRole)

def SUPPORTED_SCHEMA_VERSIONS : List ℕ := [3, 1]

/-- A datagram as `observe` reads it: the header, and what the capture adds. -/
structure RecordedDatagram where
  sequenceNumber : ℕ
  resetCount : ℕ
  schemaVersion : ℕ := 3
  dstIp : ℕ := 0
  recvTsNs : ℕ := 0
  dropDelta : ℕ := 0
  /-- The sequence number is a word. -/
  word : sequenceNumber ≤ U64_MAX := by decide
deriving DecidableEq

/-- A datagram by its words. -/
def RecordedDatagram.ofWord (sequenceNumber : UInt64) (resetCount : ℕ) (recvTsNs : ℕ := 0) :
    RecordedDatagram where
  sequenceNumber := sequenceNumber.toNat
  resetCount := resetCount
  recvTsNs := recvTsNs
  word := Nat.le_of_lt_succ sequenceNumber.toNat_lt

/-- `u64` addition, which wraps. -/
def wrappingAdd (a b : ℕ) : ℕ := (a + b) % (U64_MAX + 1)

/-- One contiguous run of missing sequence numbers of one era. -/
structure SequenceRun where
  «instance» : ChannelInstance
  group : ℕ
  role : PortRole
  eraOrdinal : ℕ
  resetCount : ℕ
  missingFrom : ℕ
  missingTo : ℕ
  beforeTsNs : ℕ
  afterTsNs : ℕ
deriving DecidableEq

/-- How many sequence numbers nobody delivered. -/
def SequenceRun.missingCount (r : SequenceRun) : ℕ := saturatingAdd (r.missingTo - r.missingFrom) 1

/-- The state of one channel instance while the window is open. -/
structure InstanceState where
  group : ℕ
  role : PortRole
  sequence : SequenceTracker := .new
  datagrams : ℕ := 0
  admitted : ℕ := 0
  gapsOnArrival : ℕ := 0
  missingOnArrival : ℕ := 0
  duplicates : ℕ := 0
  reordered : ℕ := 0
  backward : ℕ := 0
  forwardJumps : ℕ := 0
  resets : ℕ := 0
  stragglers : ℕ := 0
  groupMismatches : ℕ := 0
  erasRefused : ℕ := 0
  rangesRefused : ℕ := 0
  implausibleDeliveries : ℕ := 0
  unknownSchema : ℕ := 0
  eras : List Era := []
deriving DecidableEq

/-- Everything derivable about the sequence space of one channel instance. -/
structure InstanceLoss where
  «instance» : ChannelInstance
  group : ℕ
  role : PortRole
  datagrams : ℕ
  runs : List SequenceRun
  missing : ℕ
  referenceSeqs : ℕ
  admitted : ℕ
  gapsOnArrival : ℕ
  missingOnArrival : ℕ
  duplicates : ℕ
  reordered : ℕ
  backward : ℕ
  forwardJumps : ℕ
  resets : ℕ
  eraTransitions : ℕ
  unknownSchema : ℕ
  stragglers : ℕ
  groupMismatches : ℕ
  erasRefused : ℕ
  rangesRefused : ℕ
  implausibleDeliveries : ℕ
  eras : List EraCoverage
deriving DecidableEq

namespace InstanceState

def new (group : ℕ) (role : PortRole) : InstanceState where
  group := group
  role := role

/-! ## One datagram -/

/-- The index of the era a late datagram belongs to, when there is one: the previous era, and a
value beyond what it was delivered. -/
def eraOfStraggler (s : InstanceState) (resetCount seq : ℕ) : Option ℕ :=
  if 2 ≤ s.eras.length then
    let previous := s.eras.length - 2
    match s.eras[previous]? with
    | some era =>
        match era.delivered.getLast? with
        | some last =>
            if era.resetCount = resetCount ∧ last.end < seq then some previous else none
        | none => none
    | none => none
  else none

/-- What is counted of every datagram. -/
def count (s : InstanceState) (dg : RecordedDatagram) : InstanceState :=
  { s with
    datagrams := s.datagrams + 1
    groupMismatches := if dg.dstIp ≠ s.group then s.groupMismatches + 1 else s.groupMismatches
    admitted := s.admitted + dg.dropDelta
    unknownSchema :=
      if dg.schemaVersion ∈ SUPPORTED_SCHEMA_VERSIONS then s.unknownSchema
      else s.unknownSchema + 1 }

/-- Record a value in the era at an index, and count the refusal if there is one. -/
def deliver (s : InstanceState) (index : ℕ) (dg : RecordedDatagram) (limits : DeriverLimits) :
    InstanceState :=
  match s.eras[index]? with
  | some era =>
      let (era, delivery) := era.deliver dg.sequenceNumber dg.recvTsNs limits
      let s := { s with eras := s.eras.set index era }
      match delivery with
      | .recorded => s
      | .tooManyRanges => { s with rangesRefused := s.rangesRefused + 1 }
      | .tooDistant => { s with implausibleDeliveries := s.implausibleDeliveries + 1 }
  | none => s

/-- Record a value in the era that is open. -/
def deliverLast (s : InstanceState) (dg : RecordedDatagram) (limits : DeriverLimits) :
    InstanceState :=
  if s.eras = [] then { s with erasRefused := s.erasRefused + 1 }
  else s.deliver (s.eras.length - 1) dg limits

/-- Fold the header of one datagram in. -/
def observe (s : InstanceState) (limits : DeriverLimits) (dg : RecordedDatagram) : InstanceState :=
  let s := s.count dg
  match s.eraOfStraggler dg.resetCount dg.sequenceNumber with
  | some index => { s with stragglers := s.stragglers + 1 }.deliver index dg limits
  | none =>
      let (sequence, outcome) := s.sequence.observe dg.sequenceNumber dg.resetCount
      let s := { s with sequence }
      match outcome with
      | .opened =>
          { s with eras := s.eras ++
              [.opened sequence.eraOrdinal dg.resetCount dg.sequenceNumber dg.recvTsNs] }
      | .reset eraOrdinal =>
          let s := { s with resets := s.resets + 1 }
          if limits.maxErasPerInstance ≤ s.eras.length then
            { s with erasRefused := s.erasRefused + 1 }
          else
            { s with eras := s.eras ++
                [.opened eraOrdinal dg.resetCount dg.sequenceNumber dg.recvTsNs] }
      | .inOrder => s.deliverLast dg limits
      | .gap missing =>
          { s with
            gapsOnArrival := s.gapsOnArrival + 1
            missingOnArrival := wrappingAdd s.missingOnArrival missing }.deliverLast dg limits
      | .duplicate => { s with duplicates := s.duplicates + 1 }.deliverLast dg limits
      | .reordered _ => { s with reordered := s.reordered + 1 }.deliverLast dg limits
      | .backward _ => { s with backward := s.backward + 1 }.deliverLast dg limits
      -- the tracker refused to adopt the value, and recording it would redefine the space
      | .forwardJump _ => { s with forwardJumps := s.forwardJumps + 1 }

/-! ## The end of the window -/

/-- The runs of an era: the spaces between its ranges, with the stamps on either side. -/
def eraRuns (s : InstanceState) («instance» : ChannelInstance) (era : Era) :
    List Delivered → List SequenceRun
  | before :: after :: rest =>
      { «instance» := «instance»
        group := s.group
        role := s.role
        eraOrdinal := era.ordinal
        resetCount := era.resetCount
        missingFrom := saturatingAdd before.end 1
        missingTo := after.start - 1
        beforeTsNs := before.endTsNs
        afterTsNs := after.startTsNs } :: eraRuns s «instance» era (after :: rest)
  | _ => []

def runs (s : InstanceState) («instance» : ChannelInstance) : List SequenceRun :=
  s.eras.flatMap fun era ↦ s.eraRuns «instance» era era.delivered

/-- Close the window and derive the runs. -/
def finish (s : InstanceState) («instance» : ChannelInstance) : InstanceLoss where
  «instance» := «instance»
  group := s.group
  role := s.role
  datagrams := s.datagrams
  runs := s.runs «instance»
  missing := (s.runs «instance»).foldl (fun missing run ↦ saturatingAdd missing run.missingCount) 0
  referenceSeqs :=
    s.eras.foldl (fun total era ↦ saturatingAdd total era.coverage.referenceSeqs) 0
  admitted := s.admitted
  gapsOnArrival := s.gapsOnArrival
  missingOnArrival := s.missingOnArrival
  duplicates := s.duplicates
  reordered := s.reordered
  backward := s.backward
  forwardJumps := s.forwardJumps
  resets := s.resets
  eraTransitions := s.eras.length
  unknownSchema := s.unknownSchema
  stragglers := s.stragglers
  groupMismatches := s.groupMismatches
  erasRefused := s.erasRefused
  rangesRefused := s.rangesRefused
  implausibleDeliveries := s.implausibleDeliveries
  eras := s.eras.map Era.coverage

/-! ## What a datagram does -/

section

variable (s : InstanceState) (dg : RecordedDatagram)

@[simp] theorem count_eras : (s.count dg).eras = s.eras := rfl

@[simp] theorem count_sequence : (s.count dg).sequence = s.sequence := rfl

@[simp] theorem eraOfStraggler_count (resetCount seq : ℕ) :
    (s.count dg).eraOfStraggler resetCount seq = s.eraOfStraggler resetCount seq := rfl

end

/-- The era a straggler belongs to: the one before the last. -/
theorem eraOfStraggler_eq_some {s : InstanceState} {resetCount seq index : ℕ}
    (h : s.eraOfStraggler resetCount seq = some index) :
    index + 2 = s.eras.length ∧ ∃ era last, s.eras[index]? = some era ∧
      era.delivered.getLast? = some last ∧ era.resetCount = resetCount ∧ last.end < seq := by
  unfold eraOfStraggler at h
  split at h
  next hlen =>
      dsimp only at h
      split at h
      next era hera =>
          split at h
          next last hlast =>
              split at h
              next hand =>
                  obtain rfl := Option.some.inj h
                  exact ⟨by omega, era, last, hera, hlast, hand⟩
              next => exact absurd h (by simp)
          next => exact absurd h (by simp)
      next => exact absurd h (by simp)
  next => exact absurd h (by simp)

/-- A datagram that goes on with the era of the tracker: it is no straggler, opens no era, and is
not too far ahead. -/
structure GoesOn (s : InstanceState) (dg : RecordedDatagram) : Prop where
  stays : s.eraOfStraggler dg.resetCount dg.sequenceNumber = none
  opened : s.sequence.opened = true
  reset : dg.resetCount = s.sequence.resetCount
  near : dg.sequenceNumber ≤ s.sequence.highest + MAX_FORWARD_JUMP

/-- What is counted of the outcome of a datagram that goes on. -/
def tally (s : InstanceState) : SequenceOutcome → InstanceState
  | .gap missing =>
      { s with
        gapsOnArrival := s.gapsOnArrival + 1
        missingOnArrival := wrappingAdd s.missingOnArrival missing }
  | .duplicate => { s with duplicates := s.duplicates + 1 }
  | .reordered _ => { s with reordered := s.reordered + 1 }
  | .backward _ => { s with backward := s.backward + 1 }
  | _ => s

@[simp] theorem tally_eras (s : InstanceState) (outcome : SequenceOutcome) :
    (s.tally outcome).eras = s.eras := by
  cases outcome <;> rfl

/-- What a datagram does, told apart by where it is delivered. -/
inductive Observes (s : InstanceState) (limits : DeriverLimits) (dg : RecordedDatagram) :
    InstanceState → Prop where
  | straggler (index : ℕ) (h : s.eraOfStraggler dg.resetCount dg.sequenceNumber = some index) :
      Observes s limits dg
        ({ s.count dg with stragglers := s.stragglers + 1 }.deliver index dg limits)
  | opened (h : s.eraOfStraggler dg.resetCount dg.sequenceNumber = none)
      (hopened : s.sequence.opened = false) :
      Observes s limits dg
        { s.count dg with
          sequence := s.sequence.open dg.sequenceNumber dg.resetCount
          eras := s.eras ++ [.opened (s.sequence.eraOrdinal + 1) dg.resetCount dg.sequenceNumber
            dg.recvTsNs] }
  | refused (h : s.eraOfStraggler dg.resetCount dg.sequenceNumber = none)
      (hopened : s.sequence.opened = true) (hreset : dg.resetCount ≠ s.sequence.resetCount)
      (hfull : limits.maxErasPerInstance ≤ s.eras.length) :
      Observes s limits dg
        { s.count dg with
          sequence := s.sequence.open dg.sequenceNumber dg.resetCount
          resets := s.resets + 1
          erasRefused := s.erasRefused + 1 }
  | reset (h : s.eraOfStraggler dg.resetCount dg.sequenceNumber = none)
      (hopened : s.sequence.opened = true) (hreset : dg.resetCount ≠ s.sequence.resetCount)
      (hroom : s.eras.length < limits.maxErasPerInstance) :
      Observes s limits dg
        { s.count dg with
          sequence := s.sequence.open dg.sequenceNumber dg.resetCount
          resets := s.resets + 1
          eras := s.eras ++ [.opened (s.sequence.eraOrdinal + 1) dg.resetCount dg.sequenceNumber
            dg.recvTsNs] }
  | forwardJump (h : s.eraOfStraggler dg.resetCount dg.sequenceNumber = none)
      (hopened : s.sequence.opened = true) (hreset : dg.resetCount = s.sequence.resetCount)
      (hfar : s.sequence.highest + MAX_FORWARD_JUMP < dg.sequenceNumber) :
      Observes s limits dg { s.count dg with forwardJumps := s.forwardJumps + 1 }
  | goesOn (h : s.GoesOn dg) :
      Observes s limits dg
        (({ s.count dg with sequence := (s.sequence.observe dg.sequenceNumber dg.resetCount).1 }.tally
          (s.sequence.observe dg.sequenceNumber dg.resetCount).2).deliverLast dg limits)

theorem observe_cases (s : InstanceState) (limits : DeriverLimits) (dg : RecordedDatagram) :
    s.Observes limits dg (s.observe limits dg) := by
  unfold observe
  dsimp only
  rw [eraOfStraggler_count]
  split
  next index h => exact .straggler index h
  next h =>
      rw [count_sequence]
      have hgoes := fun ho hr hn ↦ @Observes.goesOn s limits dg ⟨h, ho, hr, hn⟩
      generalize s.sequence.observe dg.sequenceNumber dg.resetCount = out,
        s.sequence.observe_cases dg.sequenceNumber dg.resetCount = hobs at hgoes ⊢
      cases hobs with
      | opened hopened => exact .opened h hopened
      | reset hopened hreset =>
          dsimp only
          split
          next hfull => exact .refused h hopened hreset hfull
          next hroom => exact .reset h hopened hreset (Nat.not_le.mp hroom)
      | forwardJump hopened hreset hfar => exact .forwardJump h hopened hreset hfar
      | inOrder hopened hreset hnext =>
          exact hgoes hopened hreset (hnext ▸ Nat.add_le_add_left (by decide) _)
      | gap hopened hreset _ hnear => exact hgoes hopened hreset hnear
      | backward hopened hreset hfar => exact hgoes hopened hreset (by omega)
      | duplicate hopened hreset hle | reordered hopened hreset hle =>
          exact hgoes hopened hreset (by omega)

end InstanceState

/-!
## Loss over a window

`LossDeriver` (`dz-recorder-loss`): the datagrams of a source, told apart by channel instance, and
what the capture handle admits over all of them.
-/

open EdgeMulticast.Lib.Ranges (covered)
open Std (ExtTreeMap)

/-- The scope that admitted losses are declared at. -/
inductive CaptureDropScope where
  | portRole | captureHandle
deriving DecidableEq, Repr

/-- A datagram of a source: too short to hold a header, or read. -/
inductive Captured where
  | short (role : PortRole) (dropDelta : ℕ)
  | read (role : PortRole) («instance» : ChannelInstance) (dg : RecordedDatagram)
deriving DecidableEq

namespace Captured

def role : Captured → PortRole
  | .short role _ | .read role _ _ => role

def dropDelta : Captured → ℕ
  | .short _ dropDelta => dropDelta
  | .read _ _ dg => dg.dropDelta

end Captured

structure LossDeriver where
  scope : CaptureDropScope
  limits : DeriverLimits := {}
  instances : ExtTreeMap ChannelInstance InstanceState := ∅
  datagrams : ℕ := 0
  shortDatagrams : ℕ := 0
  instancesRefused : ℕ := 0
  handleAdmitted : ℕ := 0
  roleAdmitted : PortRole → ℕ := fun _ ↦ 0

/-- The residue: what is missing less what the recorder admits, where that may be subtracted. -/
inductive Unexplained where
  | count (n : ℕ)
  | unverifiable
deriving DecidableEq, Repr

structure LossReport where
  scope : CaptureDropScope
  instances : ExtTreeMap ChannelInstance InstanceLoss
  datagrams : ℕ
  shortDatagrams : ℕ
  instancesRefused : ℕ
  handleAdmitted : ℕ
  roleAdmitted : PortRole → ℕ

namespace LossDeriver

/-- What is counted of every datagram, before its header is looked at. -/
def count (d : LossDeriver) (c : Captured) : LossDeriver :=
  { d with
    datagrams := d.datagrams + 1
    handleAdmitted := d.handleAdmitted + c.dropDelta
    roleAdmitted := fun role ↦
      if role = c.role then d.roleAdmitted role + c.dropDelta else d.roleAdmitted role }

/-- The state of an instance, or the state it opens with. -/
def state (d : LossDeriver) (role : PortRole) (i : ChannelInstance) (dg : RecordedDatagram) :
    InstanceState :=
  d.instances[i]?.getD (.new dg.dstIp role)

/-- Fold one datagram in, in the order of receipt. -/
def observe (d : LossDeriver) (c : Captured) : LossDeriver :=
  let d := d.count c
  match c with
  | .short _ _ => { d with shortDatagrams := d.shortDatagrams + 1 }
  | .read role i dg =>
      if !d.instances.contains i && d.limits.maxInstances ≤ d.instances.size then
        { d with instancesRefused := d.instancesRefused + 1 }
      else
        { d with instances := d.instances.insert i ((d.state role i dg).observe d.limits dg) }

/-- Close the window and derive the runs. -/
def finish (d : LossDeriver) : LossReport where
  scope := d.scope
  instances := d.instances.map fun i s ↦ s.finish i
  datagrams := d.datagrams
  shortDatagrams := d.shortDatagrams
  instancesRefused := d.instancesRefused
  handleAdmitted := d.handleAdmitted
  roleAdmitted := d.roleAdmitted

end LossDeriver

namespace LossReport

variable (r : LossReport)

def instancesOnRole (role : PortRole) : ℕ :=
  (r.instances.toList.filter fun (_, loss) ↦ loss.role = role).length

/-- The residue of an instance, at the scope that the archive declared. -/
def unexplained (i : ChannelInstance) : Option Unexplained :=
  r.instances[i]?.map fun loss ↦
    match r.scope with
    | .portRole =>
        if r.instancesOnRole loss.role = 1 ∨ r.roleAdmitted loss.role = 0 then
          .count (loss.missing - loss.admitted)
        else .unverifiable
    | .captureHandle => if r.handleAdmitted = 0 then .count loss.missing else .unverifiable

end LossReport

end EdgeMulticast.Loss
