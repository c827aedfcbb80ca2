import EdgeMulticast.Archive.Upstream
import EdgeMulticast.Codec.Core
import EdgeMulticast.Lib.KeyValue
import EdgeMulticast.Loss.Instance

/-!
# Segments

`writer.rs` and the coverage of `manifest.rs` (`dz-recorder-archive`): one segment of datagrams.  A
segment is a section header, an interface for each port role, a packet block for each datagram and
statistics at its end.  What holds of most datagrams the section states once, in the comment of its
header; a datagram that is an exception states so in an option of its own block.

A block is the fields and options that are handed to the writer of the container.
-/

namespace EdgeMulticast.Archive

open EdgeMulticast.Lib
open EdgeMulticast.Codec (DATAGRAM_HEADER_SIZE MAX_DATAGRAM_SIZE)
open EdgeMulticast.Loss (CaptureDropScope)
open EdgeMulticast.Recorder (ChannelInstance PortRole)
open Std (ExtTreeMap ExtTreeSet)

/-! ## What is recorded -/

structure SocketAddrV4 where
  ip : UInt32
  port : UInt16
deriving DecidableEq, Repr

/-- One received datagram and what is known of its arrival. -/
structure RecordedDatagram where
  payload : List Byte
  src : SocketAddrV4
  dst : SocketAddrV4
  role : PortRole
  recvTsNs : UInt64
  recvTsKind : RecvTsKind
  /-- Datagrams that the capture handle lost right before this one. -/
  dropDelta : UInt32
  ttl : Option Byte
  linkHeaders : Option (List Byte)
  /-- The length on the wire, which the capture may have cut short. -/
  wirePayloadLen : UInt32
deriving DecidableEq

structure RecorderIdentity where
  site : List Char
  recorder : List Char
  env : List Char
  buildVersion : List Char
  buildCommit : List Char
  configHash : List Char
deriving DecidableEq

def RecorderIdentity.hardware (id : RecorderIdentity) : List Char := id.site ++ '/' :: id.recorder

/-- The host and the version that a recorder is built for. -/
structure Build where
  os : List Char
  arch : List Char
  version : List Char

/-! ## Blocks -/

inductive SectionHeaderOption where
  | hardware (text : List Char)
  | os (text : List Char)
  | userApplication (text : List Char)
  | comment (text : List Char)
deriving DecidableEq

inductive InterfaceDescriptionOption where
  | ifName (text : List Char)
  | ifDescription (text : List Char)
  | ifTsResol (resol : Byte)
deriving DecidableEq

inductive EnhancedPacketOption where
  | dropCount (n : UInt64)
  | comment (text : List Char)
deriving DecidableEq

inductive InterfaceStatisticsOption where
  | isbIfRecv (n : ℕ)
  | isbOsDrop (n : ℕ)
  | isbIfDrop (n : ℕ)
  | comment (text : List Char)
deriving DecidableEq

structure InterfaceDescriptionBlock where
  snaplen : ℕ
  options : List InterfaceDescriptionOption
deriving DecidableEq

structure EnhancedPacketBlock where
  interfaceId : UInt32
  timestamp : UInt64
  originalLen : UInt32
  data : List Byte
  options : List EnhancedPacketOption
deriving DecidableEq

structure InterfaceStatisticsBlock where
  interfaceId : UInt32
  timestamp : UInt64
  options : List InterfaceStatisticsOption
deriving DecidableEq

inductive Block where
  | sectionHeader (options : List SectionHeaderOption)
  | interfaceDescription (idb : InterfaceDescriptionBlock)
  | enhancedPacket (epb : EnhancedPacketBlock)
  | interfaceStatistics (isb : InterfaceStatisticsBlock)
deriving DecidableEq

/-! ## Coverage -/

/-- The most channel instances that one segment describes. -/
def MAX_INSTANCES : ℕ := 4096

structure Coverage where
  firstSeq : UInt64
  lastSeq : UInt64
  count : ℕ
  resetCountsSeen : ExtTreeSet Byte

structure CoverageTracker where
  instances : ExtTreeMap ChannelInstance Coverage := ∅
  shortDatagrams : ℕ := 0
  instancesDropped : ℕ := 0

def CoverageTracker.observe (t : CoverageTracker) (dg : RecordedDatagram) : CoverageTracker :=
  if dg.payload.length < DATAGRAM_HEADER_SIZE then
    { t with shortDatagrams := t.shortDatagrams + 1 }
  else
    let channelId := byteAt dg.payload 3
    let sequenceNumber := u64At dg.payload 4
    let resetCount := byteAt dg.payload 21
    let key : ChannelInstance := ⟨dg.src.ip.toNat, channelId.toNat, dg.dst.port.toNat⟩
    match t.instances[key]? with
    | some cov =>
        let cov := { cov with
          lastSeq := sequenceNumber
          count := cov.count + 1
          resetCountsSeen := cov.resetCountsSeen.insert resetCount }
        { t with instances := t.instances.insert key cov }
    | none =>
        if MAX_INSTANCES ≤ t.instances.size then
          { t with instancesDropped := t.instancesDropped + 1 }
        else
          let cov := ⟨sequenceNumber, sequenceNumber, 1, .ofList [resetCount]⟩
          { t with instances := t.instances.insert key cov }

/-! ## Configuration -/

/-- Whether the bytes in front of a payload were observed or made up. -/
inductive LinkHeaders where
  | captured | synthesised
deriving DecidableEq, Repr

namespace LinkHeaders

def asStr : LinkHeaders → List Char
  | .captured => "captured".toList
  | .synthesised => "synthesised".toList

/-- The exception of one datagram. -/
def mark : LinkHeaders → List Char
  | .captured => "link_headers=captured".toList
  | .synthesised => "link_headers=synthesised".toList

end LinkHeaders

/-- The token of a scope. -/
def scopeStr : CaptureDropScope → List Char
  | .portRole => "port-role".toList
  | .captureHandle => "capture-handle".toList

def roleStr : PortRole → List Char
  | .mktdata => "mktdata".toList
  | .refdata => "refdata".toList
  | .snapshot => "snapshot".toList

/-- One port role that the recorder was asked to join, and where. -/
structure RoleJoin where
  role : PortRole
  group : UInt32
  port : UInt16
  interface : Option (List Char) := none
  source : Option UInt32 := none

/-- An address in dotted decimal. -/
def showIp (ip : UInt32) : List Char :=
  ['.'].intercalate ((be32 ip).map fun b ↦ Nat.toDigits 10 b.toNat)

def RoleJoin.describe (j : RoleJoin) : List Char :=
  "port_role=".toList ++ roleStr j.role ++ "; joined=true; group=".toList ++ showIp j.group ++
    "; port=".toList ++ Nat.toDigits 10 j.port.toNat ++
    (j.interface.elim [] fun interface ↦ "; interface=".toList ++ interface) ++
    j.source.elim [] fun source ↦ "; source=".toList ++ showIp source

structure SegmentWriterConfig where
  identity : RecorderIdentity
  rolesJoined : List RoleJoin
  linkHeaders : LinkHeaders
  captureDropScope : CaptureDropScope

/-! ## The section header -/

def SECTION_RECV_TS_KIND : List Char := "kernel-software".toList

def FALLBACK_MARK : List Char := "recv_ts_kind=application-fallback".toList

/-- The six fields of an identity, as the comment of a section states them. -/
def RecorderIdentity.fields (id : RecorderIdentity) : List (List Char × List Char) := [
  ("site".toList, id.site),
  ("recorder".toList, id.recorder),
  ("env".toList, id.env),
  ("build_version".toList, id.buildVersion),
  ("build_commit".toList, id.buildCommit),
  ("config_hash".toList, id.configHash)]

/-- Not observed must never be readable as an observed zero. -/
def LinkHeaders.note : LinkHeaders → List Char
  | .captured => []
  | .synthesised => ("; synthesised_fields=mac,ip_id,ip_checksum,udp_checksum; " ++
      "ttl_zero_means_unobserved").toList

/-- The settings of a section, as its comment ends. -/
def settings (linkHeaders : LinkHeaders) (scope : CaptureDropScope) : List Char :=
  " link_headers=".toList ++ linkHeaders.asStr ++ "; recv_ts_kind=".toList ++
    SECTION_RECV_TS_KIND ++ "; capture_drop_scope=".toList ++ scopeStr scope ++ linkHeaders.note

def SegmentWriterConfig.comment (cfg : SegmentWriterConfig) : List Char :=
  writeParts cfg.identity.fields ++ ';' :: settings cfg.linkHeaders cfg.captureDropScope

def sectionOptions (build : Build) (cfg : SegmentWriterConfig) : List SectionHeaderOption := [
  .hardware cfg.identity.hardware,
  .os (build.os ++ '/' :: build.arch),
  .userApplication ("dz-recorder/".toList ++ build.version),
  .comment cfg.comment]

/-! ## The writer -/

def MAX_LINK_HEADER_LEN : ℕ := 14 + 60 + 8

/-- Every port role, in the order of the interfaces. -/
def ALL_ROLES : List PortRole := [.mktdata, .refdata, .snapshot]

def roleIndex : PortRole → UInt32
  | .mktdata => 0
  | .refdata => 1
  | .snapshot => 2

def HANDLE_SCOPE_MARK : List Char :=
  ("capture_drop_scope=capture-handle; isb_osdrop is the capture handle's total for this segment, " ++
    "the same value on every interface, and must not be summed across them").toList

structure RoleCounters where
  received : ℕ := 0
  captureDrops : ℕ := 0
  interfaceDrops : ℕ := 0

structure SegmentStats where
  datagramCount : ℕ
  payloadByteCount : ℕ
  startNs : UInt64
  endNs : UInt64
  captureDropTotal : ℕ
  interfaceDropTotal : ℕ
  shortDatagrams : ℕ
  instancesDropped : ℕ
  linkHeaderExceptions : ℕ
  instances : ExtTreeMap ChannelInstance Coverage

structure SegmentWriter where
  /-- The blocks that were written. -/
  inner : List Block
  rolesJoined : List PortRole
  linkHeaders : LinkHeaders
  linkHeaderExceptions : ℕ := 0
  captureDropScope : CaptureDropScope
  perRole : PortRole → RoleCounters := fun _ ↦ {}
  captureDrops : ℕ := 0
  coverage : CoverageTracker := {}
  datagramCount : ℕ := 0
  payloadByteCount : ℕ := 0
  firstNs : Option UInt64 := none
  lastNs : UInt64 := 0

/-- The headers in front of a payload that arrived without them. -/
def synthesiseLinkHeaders (dg : RecordedDatagram) : List Byte :=
  let wire := dg.wirePayloadLen.toNat
  let ipTotalLen := UInt16.ofNat (min (20 + 8 + wire) 65535)
  let udpLen := UInt16.ofNat (min (8 + wire) 65535)
  List.replicate 12 0 ++ be16 0x0800 ++
    [0x45, 0] ++ be16 ipTotalLen ++ [0, 0] ++ [0, 0] ++ [dg.ttl.getD 0, 17] ++ [0, 0] ++
    be32 dg.src.ip ++ be32 dg.dst.ip ++
    be16 dg.src.port ++ be16 dg.dst.port ++ be16 udpLen ++ [0, 0]

/-- What stands in front of a payload, and whether it was observed. -/
def RecordedDatagram.framed (dg : RecordedDatagram) : List Byte × LinkHeaders :=
  match dg.linkHeaders with
  | some headers => (headers, .captured)
  | none => (synthesiseLinkHeaders dg, .synthesised)

/-- The block of a datagram, in a section that claims `claimed`. -/
def RecordedDatagram.block (dg : RecordedDatagram) (claimed : LinkHeaders) : EnhancedPacketBlock :=
  let (headers, observed) := dg.framed
  { interfaceId := roleIndex dg.role
    timestamp := dg.recvTsNs
    originalLen := UInt32.ofNat
      (min (min headers.length (2 ^ 32 - 1) + dg.wirePayloadLen.toNat) (2 ^ 32 - 1))
    data := headers ++ dg.payload
    options :=
      (if dg.dropDelta = 0 then [] else [.dropCount dg.dropDelta.toUInt64]) ++
      (if dg.recvTsKind = .applicationFallback then [.comment FALLBACK_MARK] else []) ++
      if observed = claimed then [] else [.comment observed.mark] }

/-- The interface of a port role, whether it was joined or not. -/
def SegmentWriterConfig.interface (cfg : SegmentWriterConfig) (role : PortRole) :
    InterfaceDescriptionBlock where
  snaplen := MAX_DATAGRAM_SIZE + MAX_LINK_HEADER_LEN
  options := [
    .ifName (roleStr role),
    .ifDescription (match cfg.rolesJoined.find? fun j ↦ j.role = role with
      | some join => join.describe
      | none => "port_role=".toList ++ roleStr role ++ "; joined=false".toList),
    .ifTsResol 9]

namespace SegmentWriter

def new (build : Build) (cfg : SegmentWriterConfig) : SegmentWriter where
  inner := .sectionHeader (sectionOptions build cfg) ::
    ALL_ROLES.map fun role ↦ .interfaceDescription (cfg.interface role)
  rolesJoined := ALL_ROLES.filter fun role ↦ cfg.rolesJoined.any fun j ↦ j.role = role
  linkHeaders := cfg.linkHeaders
  captureDropScope := cfg.captureDropScope

def write (w : SegmentWriter) (dg : RecordedDatagram) : SegmentWriter :=
  let perRoleDelta := match w.captureDropScope with
    | .portRole => dg.dropDelta.toNat
    -- a ring drops before it can tell the roles apart
    | .captureHandle => 0
  let counters := w.perRole dg.role
  let counters := { counters with
    received := counters.received + 1
    captureDrops := counters.captureDrops + perRoleDelta }
  { w with
    inner := w.inner ++ [.enhancedPacket (dg.block w.linkHeaders)]
    coverage := w.coverage.observe dg
    linkHeaderExceptions :=
      if dg.framed.2 = w.linkHeaders then w.linkHeaderExceptions else w.linkHeaderExceptions + 1
    perRole := Function.update w.perRole dg.role counters
    captureDrops := w.captureDrops + dg.dropDelta.toNat
    datagramCount := w.datagramCount + 1
    payloadByteCount := w.payloadByteCount + dg.payload.length
    firstNs := some (w.firstNs.getD dg.recvTsNs)
    lastNs := dg.recvTsNs }

/-- Loss upstream of the capture point. -/
def recordInterfaceDrops (w : SegmentWriter) (role : PortRole) (delta : ℕ) : SegmentWriter :=
  let counters := w.perRole role
  let counters := { counters with interfaceDrops := counters.interfaceDrops + delta }
  { w with perRole := Function.update w.perRole role counters }

/-- The statistics of a role that was joined. -/
def statistics (w : SegmentWriter) (role : PortRole) : InterfaceStatisticsBlock where
  interfaceId := roleIndex role
  timestamp := (w.lastNs <<< 32) ||| (w.lastNs >>> 32)
  options :=
    [.isbIfRecv (w.perRole role).received,
      .isbOsDrop (match w.captureDropScope with
        | .portRole => (w.perRole role).captureDrops
        | .captureHandle => w.captureDrops),
      .isbIfDrop (w.perRole role).interfaceDrops] ++
    if w.captureDropScope = .captureHandle then [.comment HANDLE_SCOPE_MARK] else []

/-- The segment, and what it amounts to. -/
def finish (w : SegmentWriter) : List Block × SegmentStats :=
  (w.inner ++ w.rolesJoined.map fun role ↦ .interfaceStatistics (w.statistics role), {
    datagramCount := w.datagramCount
    payloadByteCount := w.payloadByteCount
    startNs := w.firstNs.getD 0
    endNs := w.lastNs
    captureDropTotal := w.captureDrops
    interfaceDropTotal := (ALL_ROLES.map fun role ↦ (w.perRole role).interfaceDrops).sum
    shortDatagrams := w.coverage.shortDatagrams
    instancesDropped := w.coverage.instancesDropped
    linkHeaderExceptions := w.linkHeaderExceptions
    instances := w.coverage.instances })

end SegmentWriter

end EdgeMulticast.Archive
