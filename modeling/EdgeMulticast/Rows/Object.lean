import EdgeMulticast.Archive.Described
import EdgeMulticast.Archive.Replay
import EdgeMulticast.Rows.Derive

/-!
# Rows out of a written segment

`derive_object` (`dz-recorder-rows`): an object is opened, the scope of its drops is resolved
between its section and its manifest, and the datagrams that it hands out are folded.  Of a segment
that a writer wrote these are the rows of the datagrams as they were captured, or there are none
(`object_derives`).

The digest of the bytes and the blocks in them are arguments.
-/

namespace EdgeMulticast.Rows

open EdgeMulticast.Archive
open EdgeMulticast.Lib (byteAt trim)
open EdgeMulticast.Loss (Captured CaptureDropScope)

/-- A datagram as the fold over it reads it. -/
def captured (dg : Archive.RecordedDatagram) : Captured :=
  match dg.channelInstance with
  | none => .short dg.role dg.dropDelta.toNat
  | some key => .read dg.role key {
      sequenceNumber := dg.sequenceNumber.toNat
      resetCount := dg.resetCount.toNat
      schemaVersion := (byteAt dg.payload 2).toNat
      dstIp := dg.dst.ip.toNat
      recvTsNs := dg.recvTsNs.toNat
      dropDelta := dg.dropDelta.toNat
      word := Nat.le_of_lt_succ dg.sequenceNumber.toNat_lt }

inductive DeriveError where
  | digestMismatch (objectKey stated found : String)
  | io
  | source (objectKey : String) (source : SourceError)
  | incomplete (objectKey : String) (termination : Termination)
  | scopeDisagreement (objectKey : String) («section» manifest : List Char)
  | scopeUnstated (objectKey : String)
deriving DecidableEq, Repr

/-- The scope, from the section of the object and what its manifest states. -/
def resolveScope (s : ArchiveSource) (objectKey : String) (stated : List Char) :
    Except DeriveError CaptureDropScope :=
  let stated := trim stated
  match s.captureDropScope with
  | some scope =>
      if stated = [] ∨ scopeStr scope = stated then .ok scope
      else .error (.scopeDisagreement objectKey (scopeStr scope) stated)
  | none =>
      match [CaptureDropScope.portRole, .captureHandle].find? (scopeStr · = stated) with
      | some scope => .ok scope
      | none => .error (.scopeUnstated objectKey)

/-- What a source hands out until it ends.  There are no more datagrams than blocks. -/
def walk : ℕ → ArchiveSource → Except SourceError (List Archive.RecordedDatagram × ArchiveSource)
  | 0, s => .ok ([], s)
  | blocks + 1, s =>
      match s.next with
      | (.error e, _) => .error e
      | (.ok none, s) => .ok ([], s)
      | (.ok (some dg), s) => (walk blocks s).map fun (dgs, s) ↦ (dg :: dgs, s)

/-- Check the digest that was found, then derive every row. -/
def deriveObject (found : String) (reader : List (Except PcapError Block))
    (manifest : SegmentManifest) (stated : List Char) (preceding : Option SegmentTrailer) :
    Except DeriveError Derived :=
  if found.toLower ≠ manifest.sha256.toLower then
    .error (.digestMismatch manifest.objectKey manifest.sha256 found)
  else match ArchiveSource.fromReader reader with
  | .error .io => .error .io
  | .error e => .error (.source manifest.objectKey e)
  | .ok s =>
      match resolveScope s manifest.objectKey stated with
      | .error e => .error e
      | .ok dropScope =>
          match walk reader.length s with
          | .error e => .error (.source manifest.objectKey e)
          | .ok (dgs, s) =>
              if s.termination ≠ .eof then .error (.incomplete manifest.objectKey s.termination)
              else .ok (derive (dgs.map captured)
                { manifest, dropScope, preceding, derivation := .archive })

variable {s : ArchiveSource} {dgs out : List Archive.RecordedDatagram}

theorem walk_of_yields (h : s.Yields out) {blocks : ℕ} (hblocks : out.length < blocks) :
    ∃ ended, walk blocks s = .ok (out, ended) ∧ ended.termination = .eof := by
  induction out generalizing s blocks with
  | nil =>
      obtain ⟨ended, hnext, hended⟩ := h
      obtain ⟨blocks, rfl⟩ := Nat.exists_eq_succ_of_ne_zero (Nat.ne_zero_of_lt hblocks)
      rw [walk, hnext]
      exact ⟨ended, rfl, hended⟩
  | cons dg out ih =>
      obtain ⟨rest, hnext, hrest⟩ := h
      obtain ⟨blocks, rfl⟩ := Nat.exists_eq_succ_of_ne_zero (Nat.ne_zero_of_lt hblocks)
      obtain ⟨ended, hwalk, hended⟩ := ih hrest (Nat.lt_of_succ_lt_succ hblocks)
      rw [walk, hnext]
      dsimp only
      rw [hwalk]
      exact ⟨ended, rfl, hended⟩

/-- The scope of a segment whose manifest states the one of its drops. -/
theorem resolveScope_written (s : ArchiveSource) (objectKey : String) (scope : CaptureDropScope) :
    resolveScope s objectKey (scopeStr scope) =
      match s.captureDropScope.filter (· ≠ scope) with
      | some other => .error (.scopeDisagreement objectKey (scopeStr other) (scopeStr scope))
      | none => .ok scope := by
  have htrim : trim (scopeStr scope) = scopeStr scope := by cases scope <;> decide
  rw [resolveScope, htrim]
  cases s.captureDropScope with
  | none => cases scope <;> rfl
  | some other => cases other <;> cases scope <;> rfl

/-- **A written segment gives the rows of what was captured, or none.**  Where its identity makes
the section state another scope than the one of its drops, it is refused. -/
theorem object_derives (build : Build) (cfg : SegmentWriterConfig)
    (hdgs : ∀ dg ∈ dgs, dg.Captured) (manifest : SegmentManifest)
    (preceding : Option SegmentTrailer) :
    deriveObject manifest.sha256 ((Archive.segment build cfg dgs).map .ok) manifest
        (scopeStr cfg.captureDropScope) preceding =
      match cfg.states.captureDropScope.filter (· ≠ cfg.captureDropScope) with
      | some other => .error (.scopeDisagreement manifest.objectKey (scopeStr other)
          (scopeStr cfg.captureDropScope))
      | none => .ok (derive (dgs.map captured)
          { manifest, dropScope := cfg.captureDropScope, preceding, derivation := .archive }) := by
  obtain ⟨s, going, isbs, hopen, hdefaults, hgoing, hnext, hgo⟩ :=
    ArchiveSource.open_segment build cfg dgs
  have hyields : s.Yields (dgs.map fun dg ↦ dg.seen cfg.states cfg.linkHeaders) :=
    (ArchiveSource.yields_congr hnext _).mpr
      ((ArchiveSource.yields_iff hdgs hgo _).mpr (by rw [hgoing]))
  have hblocks : (dgs.map fun dg ↦ dg.seen cfg.states cfg.linkHeaders).length <
      ((Archive.segment build cfg dgs).map (Except.ok (ε := PcapError))).length := by
    rw [List.length_map, List.length_map, Archive.segment, SegmentWriter.finish, inner_foldl,
      SegmentWriter.new]
    simp only [List.length_append, List.length_cons, List.length_map]
    omega
  obtain ⟨ended, hwalk, hended⟩ := walk_of_yields hyields hblocks
  have hscope : s.captureDropScope = cfg.states.captureDropScope := congrArg _ hdefaults
  have hseen : (dgs.map fun dg ↦ dg.seen cfg.states cfg.linkHeaders).map captured =
      dgs.map captured := by
    rw [List.map_map]
    rfl
  rw [deriveObject, if_neg (not_not_intro rfl), hopen]
  dsimp only
  rw [resolveScope_written, hscope]
  cases cfg.states.captureDropScope.filter (· ≠ cfg.captureDropScope) with
  | some other => rfl
  | none =>
      dsimp only
      rw [hwalk]
      dsimp only
      rw [if_neg (not_not_intro hended), hseen]

/-- Rows are derived of a segment with two datagrams in it. -/
theorem object_derives_example : ∃ derived, deriveObject "00"
    ((Archive.segment exampleBuild (exampleConfig ['s']) [bareDatagram, headedDatagram]).map .ok)
    ⟨"s", "r", "e", "v", "k", "00", 0, 0⟩ (scopeStr .portRole) none = .ok derived := by
  have hall : ∀ dg ∈ [bareDatagram, headedDatagram], dg.Captured :=
    List.forall_mem_cons.mpr ⟨captured_bare, List.forall_mem_singleton.mpr captured_headed⟩
  have hscope : (exampleConfig ['s']).states.captureDropScope.filter
      (· ≠ (exampleConfig ['s']).captureDropScope) = none := by
    decide +kernel
  have hderives := object_derives exampleBuild (exampleConfig ['s']) hall
    ⟨"s", "r", "e", "v", "k", "00", 0, 0⟩ none
  rw [hscope] at hderives
  exact ⟨_, hderives⟩

end EdgeMulticast.Rows
