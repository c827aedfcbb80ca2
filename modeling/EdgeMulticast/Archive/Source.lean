import EdgeMulticast.Archive.Segment

/-!
# A segment read back

`source.rs` (`dz-recorder-replay`): an archive as a source of datagrams.  What a section states of its
datagrams is read off the comment of its header, the exceptions off the comments of the blocks, and the
addresses off the headers in front of each payload.

`reader` is what the reader of the container still has to hand out, an error included.
-/

namespace EdgeMulticast.Archive

open EdgeMulticast.Lib
open EdgeMulticast.Loss (CaptureDropScope)
open EdgeMulticast.Recorder (PortRole)

def ETHERNET_HEADER_LEN : ℕ := 14

def ETHERTYPE_IPV4 : UInt16 := 0x0800

def IP_PROTO_UDP : Byte := 17

/-- The resolution of an interface that declares none. -/
def DEFAULT_TS_RESOL : Byte := 6

/-- The most interfaces that one section may declare. -/
def MAX_INTERFACES : ℕ := 4096

/-- Why a stream ended. -/
inductive Termination where
  | running | eof | truncated | failed | rejected
deriving DecidableEq, Repr

/-- How the reader of the container fails. -/
inductive PcapError where
  | incompleteBuffer | unexpectedEof | io | other
deriving DecidableEq, Repr

/-- What is wrong with an archive. -/
inductive Malformed where
  | shortPacket (len : ℕ)
  | ethertype (found : UInt16)
  | ipVersion (found : Byte)
  | ipHeader (ihl : ℕ)
  | protocol (found : Byte)
  | noInterface (id : UInt32)
  | noRole (id : UInt32) (port : UInt16)
  | tooManyInterfaces
  | endsInBlock
  | endsInFirstBlock
  | container
deriving DecidableEq, Repr

inductive SourceError where
  | malformedArchive (what : Malformed)
  | io
deriving DecidableEq, Repr

/-- Which kind of ending an error is. -/
def classify : PcapError → Termination × SourceError
  | .incompleteBuffer => (.truncated, .malformedArchive .endsInBlock)
  | .unexpectedEof => (.truncated, .malformedArchive .endsInBlock)
  | .io => (.failed, .io)
  | .other => (.failed, .malformedArchive .container)

def openError (e : PcapError) : SourceError :=
  match classify e with
  | (.truncated, _) => .malformedArchive .endsInFirstBlock
  | (_, error) => error

/-! ## What a section states -/

/-- Whether the link headers were observed, as far as the section says. -/
inductive LinkHeaderProvenance where
  | captured | synthesised | unstated
deriving DecidableEq, Repr

/-- A zero that was made up is no observation. -/
def LinkHeaderProvenance.ttl (p : LinkHeaderProvenance) (byte : Byte) : Option Byte :=
  if p = .synthesised ∧ byte = 0 then none else some byte

/-- What holds of every block of a section, unless the block says otherwise. -/
structure SectionDefaults where
  recvTsKind : RecvTsKind := .applicationFallback
  linkHeaders : LinkHeaderProvenance := .unstated
  captureDropScope : Option CaptureDropScope := none
deriving DecidableEq

def recvTsKindOf (comment : List Char) : Option RecvTsKind :=
  match valueOf comment "recv_ts_kind".toList with
  | none => none
  | some value =>
      if value = "kernel-software".toList then some .kernelSoftware
      else if value = "application-fallback".toList then some .applicationFallback
      else none

def linkHeadersOf (comment : List Char) : Option LinkHeaderProvenance :=
  match valueOf comment "link_headers".toList with
  | none => none
  | some value =>
      if value = "captured".toList then some .captured
      else if value = "synthesised".toList then some .synthesised
      else none

def captureDropScopeOf (comment : List Char) : Option CaptureDropScope :=
  match valueOf comment "capture_drop_scope".toList with
  | none => none
  | some value =>
      if value = "port-role".toList then some .portRole
      else if value = "capture-handle".toList then some .captureHandle
      else none

def sectionDefaults (options : List SectionHeaderOption) : SectionDefaults :=
  options.foldl (fun defaults option ↦ match option with
    | .comment comment =>
        { recvTsKind := (recvTsKindOf comment).getD defaults.recvTsKind
          linkHeaders := (linkHeadersOf comment).getD defaults.linkHeaders
          captureDropScope := (captureDropScopeOf comment).or defaults.captureDropScope }
    | _ => defaults) {}

/-- All six fields or none, of the first comment that has them. -/
def sectionIdentity (options : List SectionHeaderOption) : Option RecorderIdentity :=
  options.findSome? fun option ↦ match option with
    | .comment comment => do
        let site ← valueOf comment "site".toList
        let recorder ← valueOf comment "recorder".toList
        let env ← valueOf comment "env".toList
        let buildVersion ← valueOf comment "build_version".toList
        let buildCommit ← valueOf comment "build_commit".toList
        let configHash ← valueOf comment "config_hash".toList
        return { site, recorder, env, buildVersion, buildCommit, configHash }
    | _ => none

/-! ## What an interface states -/

structure InterfaceMeta where
  role : Option PortRole := none
  tsResol : Byte := DEFAULT_TS_RESOL
deriving DecidableEq

def portRoleOf (name : List Char) : Option PortRole :=
  if name = "mktdata".toList then some .mktdata
  else if name = "refdata".toList then some .refdata
  else if name = "snapshot".toList then some .snapshot
  else none

def interfaceMeta (idb : InterfaceDescriptionBlock) : InterfaceMeta :=
  idb.options.foldl (fun found option ↦ match option with
    | .ifName name => { found with role := portRoleOf name }
    | .ifTsResol resol => { found with tsResol := resol }
    | .ifDescription _ => found) {}

/-- A stamp in nanoseconds.  The top bit of a resolution makes it one of two's powers. -/
def toNanos (units : UInt64) (resol : Byte) : UInt64 :=
  let exponent := resol.toNat % 128
  let ns :=
    if resol.toNat < 128 then
      if exponent ≤ 9 then units.toNat * 10 ^ (9 - exponent)
      else units.toNat / 10 ^ min (exponent - 9) 38
    else units.toNat * 1000000000 / 2 ^ exponent
  UInt64.ofNat (min ns (2 ^ 64 - 1))

/-! ## Packets -/

structure LinkFields where
  src : SocketAddrV4
  dst : SocketAddrV4
  ttl : Byte
  payloadAt : ℕ
  payloadEnd : ℕ
deriving DecidableEq

/-- The addresses, the ports and the TTL in front of a payload, and where the payload is. -/
def parseLinkHeaders (data : List Byte) : Except SourceError LinkFields :=
  if data.length < ETHERNET_HEADER_LEN + 20 + 8 then
    .error (.malformedArchive (.shortPacket data.length))
  else if u16BeAt data 12 ≠ ETHERTYPE_IPV4 then
    .error (.malformedArchive (.ethertype (u16BeAt data 12)))
  else
    let ip := data.drop ETHERNET_HEADER_LEN
    if byteAt ip 0 >>> 4 ≠ 4 then .error (.malformedArchive (.ipVersion (byteAt ip 0 >>> 4)))
    else
      let ihl := (byteAt ip 0 &&& 0x0f).toNat * 4
      if ihl < 20 ∨ ip.length < ihl + 8 then .error (.malformedArchive (.ipHeader ihl))
      else if byteAt ip 9 ≠ IP_PROTO_UDP then .error (.malformedArchive (.protocol (byteAt ip 9)))
      else
        let udp := ip.drop ihl
        let udpLen := (u16BeAt udp 4).toNat
        let payloadAt := ETHERNET_HEADER_LEN + ihl + 8
        .ok {
          src := ⟨u32BeAt ip 12, u16BeAt udp 0⟩
          dst := ⟨u32BeAt ip 16, u16BeAt udp 2⟩
          ttl := byteAt ip 8
          payloadAt
          -- a short frame arrives padded, and the padding is no payload
          payloadEnd := if 8 ≤ udpLen ∧ payloadAt + (udpLen - 8) ≤ data.length then
            payloadAt + (udpLen - 8) else data.length }

/-- What is known of one arrival, less its payload. -/
structure Arrival where
  src : SocketAddrV4
  dst : SocketAddrV4
  role : PortRole
  recvTsNs : UInt64
  recvTsKind : RecvTsKind
  dropDelta : UInt32
  ttl : Option Byte
  linkHeaders : LinkHeaderProvenance
  wirePayloadLen : UInt32
  payloadAt : ℕ
  payloadEnd : ℕ
deriving DecidableEq

/-- A number of a block as `u32`, clamped. -/
def clamp32 (n : ℕ) : UInt32 := UInt32.ofNat (min n (2 ^ 32 - 1))

def roleFor (portRoles : List (UInt16 × PortRole)) (port : UInt16) : Option PortRole :=
  portRoles.findSome? fun (p, role) ↦ if p = port then some role else none

/-- What a block excepts from its section: the stamp's kind, the provenance and the loss. -/
abbrev Exceptions := RecvTsKind × LinkHeaderProvenance × UInt32

def Exceptions.add : Exceptions → EnhancedPacketOption → Exceptions
  | (kind, provenance, _), .dropCount n => (kind, provenance, clamp32 n.toNat)
  | (kind, provenance, dropDelta), .comment comment =>
      ((recvTsKindOf comment).getD kind, (linkHeadersOf comment).getD provenance, dropDelta)

def exceptions (defaults : SectionDefaults) (options : List EnhancedPacketOption) : Exceptions :=
  options.foldl Exceptions.add (defaults.recvTsKind, defaults.linkHeaders, 0)

def readPacket (defaults : SectionDefaults) (interfaces : List InterfaceMeta)
    (portRoles : List (UInt16 × PortRole)) (epb : EnhancedPacketBlock) : Except SourceError Arrival :=
  match interfaces[epb.interfaceId.toNat]? with
  | none => .error (.malformedArchive (.noInterface epb.interfaceId))
  | some iface => do
      let link ← parseLinkHeaders epb.data
      match iface.role.or (roleFor portRoles link.dst.port) with
      | none => .error (.malformedArchive (.noRole epb.interfaceId link.dst.port))
      | some role =>
          let (recvTsKind, linkHeaders, dropDelta) := exceptions defaults epb.options
          return {
            src := link.src
            dst := link.dst
            role
            recvTsNs := toNanos epb.timestamp iface.tsResol
            recvTsKind
            dropDelta
            ttl := linkHeaders.ttl link.ttl
            linkHeaders
            -- never less than what is held
            wirePayloadLen := UInt32.ofNat
              (max (epb.originalLen.toNat - (clamp32 link.payloadAt).toNat)
                (clamp32 (link.payloadEnd - link.payloadAt)).toNat)
            payloadAt := link.payloadAt
            payloadEnd := link.payloadEnd }

/-! ## The source -/

structure ArchiveSource where
  reader : List (Except PcapError Block)
  defaults : SectionDefaults
  identity : Option RecorderIdentity
  interfaces : List InterfaceMeta := []
  payload : List Byte := []
  linkBytes : List Byte := []
  portRoles : List (UInt16 × PortRole) := []
  termination : Termination := .running

namespace ArchiveSource

/-- Open what the reader of the container hands out.  A section header comes first. -/
def fromReader : List (Except PcapError Block) → Except SourceError ArchiveSource
  | .ok (.sectionHeader options) :: reader =>
      .ok {
        reader
        defaults := sectionDefaults options
        identity := sectionIdentity options }
  | .error e :: _ => .error (openError e)
  | .ok _ :: _ => .error (.malformedArchive .container)
  | [] => .error (.malformedArchive .endsInFirstBlock)

/-- The blocks up to the next arrival, of a stream that has not ended. -/
def scan (s : ArchiveSource) :
    List (Except PcapError Block) → Except SourceError (Option Arrival) × ArchiveSource
  | [] => (.ok none, { s with reader := [], termination := .eof })
  | .error e :: reader =>
      (.error (classify e).2, { s with reader, termination := (classify e).1 })
  | .ok (.enhancedPacket epb) :: reader =>
      match readPacket s.defaults s.interfaces s.portRoles epb with
      | .error e => (.error e, { s with reader, termination := .rejected })
      | .ok arrival =>
          (.ok (some arrival), { s with
            reader
            payload := slice epb.data arrival.payloadAt (arrival.payloadEnd - arrival.payloadAt)
            linkBytes := if arrival.linkHeaders = .captured then epb.data.take arrival.payloadAt
              else [] })
  | .ok (.interfaceDescription idb) :: reader =>
      if MAX_INTERFACES ≤ s.interfaces.length then
        (.error (.malformedArchive .tooManyInterfaces), { s with reader, termination := .rejected })
      else scan { s with interfaces := s.interfaces ++ [interfaceMeta idb] } reader
  | .ok (.sectionHeader options) :: reader =>
      -- a new section restates everything
      scan { s with
        defaults := sectionDefaults options
        identity := sectionIdentity options
        interfaces := [] } reader
  | .ok (.interfaceStatistics _) :: reader => scan s reader

def nextArrival (s : ArchiveSource) : Except SourceError (Option Arrival) × ArchiveSource :=
  -- an ended stream stays ended
  if s.termination = .running then s.scan s.reader else (.ok none, s)

def next (s : ArchiveSource) : Except SourceError (Option RecordedDatagram) × ArchiveSource :=
  match s.nextArrival with
  | (.error e, s) => (.error e, s)
  | (.ok none, s) => (.ok none, s)
  | (.ok (some a), s) =>
      (.ok (some {
        payload := s.payload
        src := a.src
        dst := a.dst
        role := a.role
        recvTsNs := a.recvTsNs
        recvTsKind := a.recvTsKind
        dropDelta := a.dropDelta
        ttl := a.ttl
        -- some only where the archive vouches for them
        linkHeaders := if s.linkBytes = [] then none else some s.linkBytes
        wirePayloadLen := a.wirePayloadLen }), s)

def captureDropScope (s : ArchiveSource) : Option CaptureDropScope := s.defaults.captureDropScope

end ArchiveSource

end EdgeMulticast.Archive
