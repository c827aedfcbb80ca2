import EdgeMulticast.Archive.Source

/-!
# A segment replays what was captured

What a source hands out of a written segment is `seen`: each datagram under what the comment of the
section states and what its own block excepts (`yields_iff`).  The comment begins with the identity of
the recorder, whose texts are written as they are, and the first part with a key is the one that
counts.  `segment_replays` says for which identities the datagrams are those that were written.
-/

namespace EdgeMulticast.Archive

open EdgeMulticast.Lib
open EdgeMulticast.Loss (CaptureDropScope)
open EdgeMulticast.Recorder (PortRole)

/-! ## The headers in front of a payload -/

/-- Headers that state the addresses, the ports and the length of a datagram, and this TTL.  An IPv4
header may carry options. -/
structure Heads (headers : List Byte) (dg : RecordedDatagram) (ttl : Byte) : Prop where
  ethertype : slice headers 12 2 = be16 0x0800
  version : byteAt headers 14 >>> 4 = 4
  ihl : 20 ≤ (byteAt headers 14 &&& 0x0f).toNat * 4
  length : headers.length = 14 + (byteAt headers 14 &&& 0x0f).toNat * 4 + 8
  ttl : byteAt headers 22 = ttl
  protocol : byteAt headers 23 = 17
  srcIp : slice headers 26 4 = be32 dg.src.ip
  dstIp : slice headers 30 4 = be32 dg.dst.ip
  srcPort : slice headers (14 + (byteAt headers 14 &&& 0x0f).toNat * 4) 2 = be16 dg.src.port
  dstPort : slice headers (14 + (byteAt headers 14 &&& 0x0f).toNat * 4 + 2) 2 = be16 dg.dst.port
  udpLen : slice headers (14 + (byteAt headers 14 &&& 0x0f).toNat * 4 + 4) 2 =
    be16 (UInt16.ofNat (8 + dg.wirePayloadLen.toNat))

/-- A datagram as a capture hands it over. -/
structure RecordedDatagram.Captured (dg : RecordedDatagram) : Prop where
  held : dg.payload.length ≤ dg.wirePayloadLen.toNat
  wire : dg.wirePayloadLen.toNat ≤ 65507
  headers : ∀ headers ∈ dg.linkHeaders, ∃ ttl, dg.ttl = some ttl ∧ Heads headers dg ttl

variable {dg : RecordedDatagram}

theorem be16_eq (x : UInt16) : ∃ a b, be16 x = [a, b] := ⟨_, _, rfl⟩

theorem be32_eq (x : UInt32) : ∃ a b c d, be32 x = [a, b, c, d] := ⟨_, _, _, _, rfl⟩

theorem heads_synthesised (h : dg.Captured) :
    Heads (synthesiseLinkHeaders dg) dg (dg.ttl.getD 0) := by
  have hwire := h.wire
  have hheaders : synthesiseLinkHeaders dg = List.replicate 12 0 ++ [0x08, 0x00] ++
      [0x45, 0] ++ be16 (UInt16.ofNat (20 + 8 + dg.wirePayloadLen.toNat)) ++ [0, 0, 0, 0] ++
      [dg.ttl.getD 0, 17, 0, 0] ++ be32 dg.src.ip ++ be32 dg.dst.ip ++ be16 dg.src.port ++
      be16 dg.dst.port ++ be16 (UInt16.ofNat (8 + dg.wirePayloadLen.toNat)) ++ [0, 0] := by
    rw [synthesiseLinkHeaders, Nat.min_eq_left (by omega), Nat.min_eq_left (by omega)]
    simp only [List.append_assoc]
    rfl
  obtain ⟨a, b, hsrcPort⟩ := be16_eq dg.src.port
  obtain ⟨c, d, hdstPort⟩ := be16_eq dg.dst.port
  obtain ⟨e, f, hudpLen⟩ := be16_eq (UInt16.ofNat (8 + dg.wirePayloadLen.toNat))
  obtain ⟨g, i, htotalLen⟩ := be16_eq (UInt16.ofNat (20 + 8 + dg.wirePayloadLen.toNat))
  obtain ⟨j, k, l, m, hsrcIp⟩ := be32_eq dg.src.ip
  obtain ⟨n, o, p, q, hdstIp⟩ := be32_eq dg.dst.ip
  rw [hsrcPort, hdstPort, hudpLen, htotalLen, hsrcIp, hdstIp] at hheaders
  rw [hheaders]
  generalize hlist : List.replicate 12 0 ++ [0x08, 0x00] ++ [0x45, 0] ++ [g, i] ++ [0, 0, 0, 0] ++
    [dg.ttl.getD 0, 17, 0, 0] ++ [j, k, l, m] ++ [n, o, p, q] ++ [a, b] ++ [c, d] ++ [e, f] ++
    [0, 0] = headers
  have hfirst : byteAt headers 14 = 0x45 := by
    rw [← hlist]
    rfl
  have hihl : ((0x45 : Byte) &&& 0x0f).toNat * 4 = 20 := by decide
  subst hlist
  exact {
    ethertype := rfl
    version := by rw [hfirst]; decide
    ihl := by rw [hfirst, hihl]
    length := by rw [hfirst, hihl]; rfl
    ttl := rfl
    protocol := rfl
    srcIp := hsrcIp.symm
    dstIp := hdstIp.symm
    srcPort := by rw [hfirst, hihl]; exact hsrcPort.symm
    dstPort := by rw [hfirst, hihl]; exact hdstPort.symm
    udpLen := by rw [hfirst, hihl]; exact hudpLen.symm }

theorem heads_framed (h : dg.Captured) : Heads dg.framed.1 dg (dg.ttl.getD 0) := by
  rw [RecordedDatagram.framed]
  cases hlink : dg.linkHeaders with
  | none => exact heads_synthesised h
  | some headers =>
      obtain ⟨ttl, httl, hheads⟩ := h.headers headers hlink
      rw [httl]
      exact hheads

theorem byteAt_append {a : List Byte} (b : List Byte) {pos : ℕ} (h : pos < a.length) :
    byteAt (a ++ b) pos = byteAt a pos := by
  rw [byteAt, byteAt, List.getD_eq_getElem?_getD, List.getD_eq_getElem?_getD,
    List.getElem?_append_left h]

theorem slice_append_left {a : List Byte} (b : List Byte) {pos n : ℕ} (h : pos + n ≤ a.length) :
    slice (a ++ b) pos n = slice a pos n := by
  rw [slice, slice, List.drop_append_of_le_length (by omega),
    List.take_append_of_le_length (by rw [List.length_drop]; omega)]

/-- The headers are read back, and the payload is what is behind them. -/
theorem parse_heads {headers : List Byte} {ttl : Byte} (h : Heads headers dg ttl)
    (hheld : dg.payload.length ≤ dg.wirePayloadLen.toNat) (hwire : dg.wirePayloadLen.toNat ≤ 65507) :
    parseLinkHeaders (headers ++ dg.payload) =
      .ok ⟨dg.src, dg.dst, ttl, headers.length, headers.length + dg.payload.length⟩ := by
  obtain ⟨hethertype, hversion, hihl, hlength, httl, hprotocol, hsrcIp, hdstIp, hsrcPort, hdstPort,
    hudpLen⟩ := h
  generalize hihleq : (byteAt headers 14 &&& 0x0f).toNat * 4 = ihl at *
  have hdata : (headers ++ dg.payload).length = 14 + ihl + 8 + dg.payload.length := by
    rw [List.length_append, hlength]
  have hbyte (pos : ℕ) (hpos : pos < 34) :
      byteAt (headers ++ dg.payload) pos = byteAt headers pos := byteAt_append _ (by omega)
  have hslice (pos n : ℕ) (hpos : pos + n ≤ 14 + ihl + 8) :
      slice (headers ++ dg.payload) pos n = slice headers pos n := slice_append_left _ (by omega)
  have hudp : (UInt16.ofNat (8 + dg.wirePayloadLen.toNat)).toNat = 8 + dg.wirePayloadLen.toNat :=
    UInt16.toNat_ofNat_of_lt' (show 8 + dg.wirePayloadLen.toNat < 65536 by omega)
  rw [parseLinkHeaders, if_neg (by rw [hdata, ETHERNET_HEADER_LEN]; omega),
    u16BeAt_eq ((hslice 12 2 (by omega)).trans hethertype), if_neg (by decide)]
  dsimp only [ETHERNET_HEADER_LEN]
  simp only [byteAt_drop, Nat.reduceAdd, List.drop_drop, hbyte 14 (by decide), hbyte 22 (by decide),
    hbyte 23 (by decide), hihleq]
  rw [if_neg (not_not.mpr hversion), if_neg (by rw [List.length_drop, hdata]; omega),
    if_neg (show ¬byteAt headers 23 ≠ IP_PROTO_UDP from not_not.mpr hprotocol)]
  rw [u16BeAt_eq (x := dg.src.port), u16BeAt_eq (x := dg.dst.port), u32BeAt_eq (x := dg.src.ip),
    u32BeAt_eq (x := dg.dst.ip), u16BeAt_eq (x := UInt16.ofNat (8 + dg.wirePayloadLen.toNat)), hudp,
    httl, hdata, hlength]
  · congr 2
    split
    next h => omega
    next => rfl
  · rw [slice_drop, hslice _ _ (by omega), hudpLen]
  · rw [slice_drop, hslice _ _ (by omega), hdstIp]
  · rw [slice_drop, hslice _ _ (by omega), hsrcIp]
  · rw [slice_drop, hslice _ _ (by omega), hdstPort]
  · rw [slice_drop, Nat.add_zero, hslice _ _ (by omega), hsrcPort]

/-! ## What is read of a block -/

def LinkHeaders.provenance : LinkHeaders → LinkHeaderProvenance
  | .captured => .captured
  | .synthesised => .synthesised

/-- What a datagram's own block and its section say of its link headers. -/
def RecordedDatagram.provenance (dg : RecordedDatagram) (defaults : SectionDefaults)
    (claimed : LinkHeaders) : LinkHeaderProvenance :=
  if dg.framed.2 = claimed then defaults.linkHeaders else dg.framed.2.provenance

/-- A datagram as it is handed out where its section states `defaults`. -/
def RecordedDatagram.seen (dg : RecordedDatagram) (defaults : SectionDefaults)
    (claimed : LinkHeaders) : RecordedDatagram :=
  { dg with
    recvTsKind := if dg.recvTsKind = .applicationFallback then .applicationFallback
      else defaults.recvTsKind
    ttl := (dg.provenance defaults claimed).ttl (dg.ttl.getD 0)
    linkHeaders := if dg.provenance defaults claimed = .captured then some dg.framed.1 else none }

variable {defaults : SectionDefaults} {claimed : LinkHeaders}

theorem exceptions_block (dg : RecordedDatagram) (defaults : SectionDefaults)
    (claimed : LinkHeaders) :
    exceptions defaults (dg.block claimed).options =
      ((dg.seen defaults claimed).recvTsKind, dg.provenance defaults claimed, dg.dropDelta) := by
  have hfallback : recvTsKindOf FALLBACK_MARK = some .applicationFallback ∧
      linkHeadersOf FALLBACK_MARK = none := by decide
  have hmark (observed : LinkHeaders) : recvTsKindOf observed.mark = none ∧
      linkHeadersOf observed.mark = some observed.provenance := by
    cases observed <;> decide
  have hdrop : clamp32 dg.dropDelta.toUInt64.toNat = dg.dropDelta := by
    have hlt := dg.dropDelta.toNat_lt
    rw [UInt32.toNat_toUInt64, clamp32, Nat.min_eq_left (by omega), UInt32.ofNat_toNat]
  have hlost : (if dg.dropDelta = 0 then [] else [.dropCount dg.dropDelta.toUInt64]).foldl
      Exceptions.add (defaults.recvTsKind, defaults.linkHeaders, 0) =
        (defaults.recvTsKind, defaults.linkHeaders, dg.dropDelta) := by
    split
    next hzero => rw [hzero, List.foldl_nil]
    next => rw [List.foldl_cons, List.foldl_nil, Exceptions.add, hdrop]
  rw [exceptions, RecordedDatagram.block, RecordedDatagram.seen, RecordedDatagram.provenance]
  dsimp only
  rw [List.foldl_append, List.foldl_append, hlost]
  split <;> split <;>
    simp only [List.foldl_cons, List.foldl_nil, Exceptions.add, hfallback, hmark, Option.getD_some,
      Option.getD_none]

theorem interfaceMeta_interface (cfg : SegmentWriterConfig) (role : PortRole) :
    interfaceMeta (cfg.interface role) = ⟨some role, 9⟩ := by
  have hrole : portRoleOf (roleStr role) = some role := by cases role <;> decide
  rw [interfaceMeta, SegmentWriterConfig.interface]
  simp only [List.foldl_cons, List.foldl_nil, hrole]

/-- The interfaces of a segment. -/
def interfaces : List InterfaceMeta := ALL_ROLES.map fun role ↦ ⟨some role, 9⟩

theorem interfaces_role (role : PortRole) :
    interfaces[(roleIndex role).toNat]? = some ⟨some role, 9⟩ := by
  cases role <;> rfl

theorem toNanos_nine (units : UInt64) : toNanos units 9 = units := by
  have hlt := units.toNat_lt
  rw [toNanos]
  change UInt64.ofNat (min (units.toNat * 1) (2 ^ 64 - 1)) = units
  rw [Nat.mul_one, Nat.min_eq_left (by omega), UInt64.ofNat_toNat]

theorem readPacket_block (h : dg.Captured) (portRoles : List (UInt16 × PortRole)) :
    readPacket defaults interfaces portRoles (dg.block claimed) = .ok {
      src := dg.src
      dst := dg.dst
      role := dg.role
      recvTsNs := dg.recvTsNs
      recvTsKind := (dg.seen defaults claimed).recvTsKind
      dropDelta := dg.dropDelta
      ttl := (dg.seen defaults claimed).ttl
      linkHeaders := dg.provenance defaults claimed
      wirePayloadLen := dg.wirePayloadLen
      payloadAt := dg.framed.1.length
      payloadEnd := dg.framed.1.length + dg.payload.length } := by
  have hheads := heads_framed h
  have hwire := h.wire
  have hheld := h.held
  have hlength := hheads.length
  have hihl : (byteAt dg.framed.1 14 &&& 0x0f).toNat < 16 := by
    rw [UInt8.toNat_and]
    exact Nat.and_lt_two_pow (n := 4) _ (by decide)
  have hclamp {n : ℕ} (hn : n < 2 ^ 32) : (clamp32 n).toNat = n := by
    rw [clamp32, Nat.min_eq_left (by omega), UInt32.toNat_ofNat_of_lt' hn]
  have horiginal : (dg.block claimed).originalLen.toNat =
      dg.framed.1.length + dg.wirePayloadLen.toNat := by
    rw [RecordedDatagram.block]
    dsimp only
    rw [Nat.min_eq_left (by omega), Nat.min_eq_left (by omega),
      UInt32.toNat_ofNat_of_lt' (show _ < 2 ^ 32 by omega)]
  have hlen : UInt32.ofNat (max ((dg.block claimed).originalLen.toNat -
      (clamp32 dg.framed.1.length).toNat) (clamp32 (dg.framed.1.length + dg.payload.length -
        dg.framed.1.length)).toNat) = dg.wirePayloadLen := by
    rw [horiginal, hclamp (by omega), Nat.add_sub_cancel_left, Nat.add_sub_cancel_left,
      hclamp (by omega), Nat.max_eq_left hheld, UInt32.ofNat_toNat]
  have hparse := parse_heads hheads hheld hwire
  have hexceptions := exceptions_block dg defaults claimed
  rw [readPacket, show (dg.block claimed).interfaceId = roleIndex dg.role from rfl, interfaces_role]
  dsimp only
  rw [show (dg.block claimed).data = dg.framed.1 ++ dg.payload from rfl, hparse, hexceptions,
    show (dg.block claimed).timestamp = dg.recvTsNs from rfl, toNanos_nine]
  dsimp only [bind, Except.bind, Option.some_or]
  rw [hlen]
  rfl

/-! ## What is handed out -/

namespace ArchiveSource

/-- A source hands out these datagrams and then comes to the end of a whole archive. -/
def Yields : ArchiveSource → List RecordedDatagram → Prop
  | s, [] => ∃ ended, s.next = (.ok none, ended) ∧ ended.termination = .eof
  | s, dg :: dgs => ∃ rest, s.next = (.ok (some dg), rest) ∧ Yields rest dgs

/-- A source that is opened and goes on behind the interfaces. -/
structure Going (s : ArchiveSource) (blocks : List Block) : Prop where
  reader : s.reader = blocks.map .ok
  interfaces : s.interfaces = Archive.interfaces
  termination : s.termination = .running

variable {s : ArchiveSource} {blocks : List Block}

theorem scan_statistics (s : ArchiveSource) (isbs : List InterfaceStatisticsBlock) :
    s.scan ((isbs.map .interfaceStatistics).map .ok) =
      (.ok none, { s with reader := [], termination := .eof }) := by
  induction isbs with
  | nil => rfl
  | cons isb isbs ih => exact ih

theorem next_statistics {isbs : List InterfaceStatisticsBlock}
    (h : s.Going (isbs.map .interfaceStatistics)) :
    s.next = (.ok none, { s with reader := [], termination := .eof }) := by
  rw [next, nextArrival, if_pos h.termination, h.reader, scan_statistics]

theorem next_packet {dg : RecordedDatagram} (hdg : dg.Captured) {claimed : LinkHeaders}
    (h : s.Going (.enhancedPacket (dg.block claimed) :: blocks)) :
    ∃ rest, s.next = (.ok (some (dg.seen s.defaults claimed)), rest) ∧ rest.Going blocks ∧
      rest.defaults = s.defaults := by
  have hread := @readPacket_block dg s.defaults claimed hdg s.portRoles
  have hpayload : slice (dg.block claimed).data dg.framed.1.length dg.payload.length = dg.payload := by
    change slice (dg.framed.1 ++ dg.payload) _ _ = _
    rw [slice, List.drop_left, List.take_length]
  have hheaders : (dg.block claimed).data.take dg.framed.1.length = dg.framed.1 := List.take_left
  have hne : dg.framed.1 ≠ [] := by
    intro hnil
    have hlength := (heads_framed hdg).length
    rw [hnil] at hlength
    exact absurd hlength (by rw [List.length_nil]; omega)
  let linkBytes := if dg.provenance s.defaults claimed = .captured then dg.framed.1 else []
  have hlink : (if linkBytes = [] then none else some linkBytes) =
      (dg.seen s.defaults claimed).linkHeaders := by
    dsimp only [linkBytes, RecordedDatagram.seen]
    by_cases hcaptured : dg.provenance s.defaults claimed = .captured
    · simp [hcaptured, hne]
    · simp [hcaptured]
  rw [← h.interfaces] at hread
  refine ⟨{ s with reader := blocks.map .ok, payload := dg.payload, linkBytes }, ?_,
    ⟨rfl, h.interfaces, h.termination⟩, rfl⟩
  rw [next, nextArrival, if_pos h.termination, h.reader, List.map_cons, scan, hread]
  dsimp only
  rw [Nat.add_sub_cancel_left, hpayload, hheaders, hlink]
  rfl

/-- What is handed out of the packets of a segment. -/
theorem yields_iff {claimed : LinkHeaders} {isbs : List InterfaceStatisticsBlock}
    {dgs : List RecordedDatagram} (hdgs : ∀ dg ∈ dgs, dg.Captured)
    (h : s.Going (dgs.map (fun dg ↦ .enhancedPacket (dg.block claimed)) ++
      isbs.map .interfaceStatistics)) (out : List RecordedDatagram) :
    s.Yields out ↔ out = dgs.map fun dg ↦ dg.seen s.defaults claimed := by
  induction dgs generalizing s out with
  | nil =>
      have hnext := next_statistics h
      cases out with
      | nil => exact iff_of_true ⟨_, hnext, rfl⟩ rfl
      | cons dg out =>
          refine iff_of_false ?_ (List.cons_ne_nil _ _)
          rintro ⟨rest, hrest, -⟩
          rw [hnext] at hrest
          cases hrest
  | cons dg dgs ih =>
      obtain ⟨rest, hnext, hgoing, hdefaults⟩ := next_packet (hdgs dg List.mem_cons_self) h
      cases out with
      | nil =>
          refine iff_of_false ?_ (List.cons_ne_nil _ _).symm
          rintro ⟨ended, hended, -⟩
          rw [hnext] at hended
          cases hended
      | cons first out =>
          have hrest := ih (fun dg hdg ↦ hdgs dg (List.mem_cons_of_mem _ hdg)) hgoing out
          rw [hdefaults] at hrest
          rw [List.map_cons, List.cons.injEq, ← hrest]
          constructor
          · rintro ⟨rest', hnext', hyields⟩
            rw [hnext] at hnext'
            cases hnext'
            exact ⟨rfl, hyields⟩
          · rintro ⟨rfl, hyields⟩
            exact ⟨rest, hnext, hyields⟩

end ArchiveSource

/-! ## A written segment -/

/-- The blocks of a segment that these datagrams were written to. -/
def segment (build : Build) (cfg : SegmentWriterConfig) (dgs : List RecordedDatagram) : List Block :=
  (dgs.foldl SegmentWriter.write (.new build cfg)).finish.1

/-- What the section of a writer states. -/
def SegmentWriterConfig.states (cfg : SegmentWriterConfig) : SectionDefaults where
  recvTsKind := (recvTsKindOf cfg.comment).getD .applicationFallback
  linkHeaders := (linkHeadersOf cfg.comment).getD .unstated
  captureDropScope := captureDropScopeOf cfg.comment

theorem sectionDefaults_sectionOptions (build : Build) (cfg : SegmentWriterConfig) :
    sectionDefaults (sectionOptions build cfg) = cfg.states := by
  rw [SegmentWriterConfig.states, sectionDefaults, sectionOptions]
  simp only [List.foldl_cons, List.foldl_nil, Option.or_none]

theorem inner_foldl (w : SegmentWriter) (dgs : List RecordedDatagram) :
    (dgs.foldl SegmentWriter.write w).inner =
        w.inner ++ dgs.map fun dg ↦ .enhancedPacket (dg.block w.linkHeaders) := by
  induction dgs generalizing w with
  | nil => exact (List.append_nil _).symm
  | cons dg dgs ih =>
      rw [List.foldl_cons, ih, SegmentWriter.write, List.map_cons, List.append_assoc]
      rfl

namespace ArchiveSource

theorem scan_reader (s : ArchiveSource) (reader blocks : List (Except PcapError Block)) :
    { s with reader }.scan blocks = s.scan blocks := by
  induction blocks generalizing s with
  | nil => rfl
  | cons block blocks ih =>
      rcases block with e | ⟨options | idb | epb | isb⟩
      · rfl
      · exact ih { s with
          defaults := sectionDefaults options
          identity := sectionIdentity options
          interfaces := [] }
      · rw [scan, scan]
        dsimp only
        split
        · rfl
        · exact ih { s with interfaces := s.interfaces ++ [interfaceMeta idb] }
      · rfl
      · exact ih s

/-- Interfaces are read one after the other, and nothing is handed out for them. -/
theorem scan_interfaces (s : ArchiveSource) (cfg : SegmentWriterConfig) {roles : List PortRole}
    (h : s.interfaces.length + roles.length ≤ MAX_INTERFACES)
    (reader : List (Except PcapError Block)) :
    s.scan ((roles.map fun role ↦ .ok (.interfaceDescription (cfg.interface role))) ++ reader) =
      { s with interfaces := s.interfaces ++ roles.map fun role ↦ InterfaceMeta.mk (some role) 9 }.scan reader := by
  induction roles generalizing s with
  | nil => rw [List.map_nil, List.map_nil, List.nil_append, List.append_nil]
  | cons role roles ih =>
      rw [List.length_cons] at h
      have hmore := ih { s with interfaces := s.interfaces ++ [⟨some role, 9⟩] } (by
        rw [List.length_append, List.length_singleton]
        omega)
      rw [List.map_cons, List.cons_append, scan, if_neg (by omega), interfaceMeta_interface, hmore,
        List.append_assoc]
      rfl

/-- Opening a segment, and reading over its interfaces. -/
theorem open_segment (build : Build) (cfg : SegmentWriterConfig) (dgs : List RecordedDatagram) :
    ∃ (s going : ArchiveSource) (isbs : List InterfaceStatisticsBlock),
      fromReader ((segment build cfg dgs).map .ok) = .ok s ∧
      s.defaults = cfg.states ∧ going.defaults = cfg.states ∧ s.next = going.next ∧
      going.Going (dgs.map (fun dg ↦ .enhancedPacket (dg.block cfg.linkHeaders)) ++
        isbs.map .interfaceStatistics) := by
  let w := dgs.foldl SegmentWriter.write (.new build cfg)
  let isbs := w.rolesJoined.map w.statistics
  let blocks := dgs.map (fun dg ↦ Block.enhancedPacket (dg.block cfg.linkHeaders)) ++
    isbs.map .interfaceStatistics
  let idbs := ALL_ROLES.map fun role ↦ Block.interfaceDescription (cfg.interface role)
  have hsegment : segment build cfg dgs =
      .sectionHeader (sectionOptions build cfg) :: (idbs ++ blocks) := by
    rw [segment, SegmentWriter.finish, inner_foldl, SegmentWriter.new, List.append_assoc,
      List.cons_append]
    dsimp only [idbs, blocks, isbs, w]
    rw [List.map_map]
    rfl
  let s : ArchiveSource := {
    reader := (idbs ++ blocks).map .ok
    defaults := cfg.states
    identity := sectionIdentity (sectionOptions build cfg) }
  let going : ArchiveSource := { s with
    reader := blocks.map .ok
    interfaces := Archive.interfaces }
  refine ⟨s, going, isbs, ?_, rfl, rfl, ?_, rfl, rfl, rfl⟩
  · rw [hsegment, List.map_cons, fromReader, sectionDefaults_sectionOptions]
  · have hroom : s.interfaces.length + ALL_ROLES.length ≤ MAX_INTERFACES := by
      change 0 + 3 ≤ 4096
      omega
    have hreader : s.reader = (ALL_ROLES.map fun role ↦
        .ok (.interfaceDescription (cfg.interface role))) ++ blocks.map .ok := by
      dsimp only [s, idbs]
      rw [List.map_append, List.map_map]
      rfl
    have hscan : s.scan s.reader = going.scan (blocks.map .ok) := by
      have hgoing : going = { s with
          reader := blocks.map .ok
          interfaces := s.interfaces ++ ALL_ROLES.map fun role ↦ InterfaceMeta.mk (some role) 9 } := rfl
      rw [hreader, scan_interfaces s cfg hroom, ← scan_reader _ (blocks.map .ok), hgoing]
    rw [next, next, nextArrival, nextArrival, if_pos rfl, if_pos rfl, hscan]

end ArchiveSource

/-! ## What the identity states -/

/-- What the identity of a section states for a key. -/
def SegmentWriterConfig.claims (cfg : SegmentWriterConfig) (key : List Char) : Option (List Char) :=
  valueOf (writeParts cfg.identity.fields) key

/-- The identity states nothing else for a key than the settings do. -/
def SegmentWriterConfig.Leaves (cfg : SegmentWriterConfig) (key value : List Char) : Prop :=
  cfg.claims key = none ∨ cfg.claims key = some value

theorem valueOf_settings (linkHeaders : LinkHeaders) (scope : CaptureDropScope) :
    valueOf (settings linkHeaders scope) "recv_ts_kind".toList = some SECTION_RECV_TS_KIND ∧
    valueOf (settings linkHeaders scope) "link_headers".toList = some linkHeaders.asStr ∧
    valueOf (settings linkHeaders scope) "capture_drop_scope".toList = some (scopeStr scope) := by
  cases linkHeaders <;> cases scope <;> decide +kernel

theorem valueOf_comment (cfg : SegmentWriterConfig) (key : List Char) :
    valueOf cfg.comment key =
      (cfg.claims key).or (valueOf (settings cfg.linkHeaders cfg.captureDropScope) key) :=
  valueOf_append ..

theorem states_recvTsKind (cfg : SegmentWriterConfig) :
    cfg.states.recvTsKind = .kernelSoftware ↔
      cfg.Leaves "recv_ts_kind".toList SECTION_RECV_TS_KIND := by
  rw [SegmentWriterConfig.states, SegmentWriterConfig.Leaves]
  dsimp only
  rw [recvTsKindOf, valueOf_comment, (valueOf_settings ..).1]
  cases cfg.claims "recv_ts_kind".toList with
  | none => exact iff_of_true (by decide +kernel) (.inl rfl)
  | some value =>
      rw [Option.some_or, or_iff_right (Option.some_ne_none value), Option.some.injEq]
      dsimp only
      by_cases hvalue : value = SECTION_RECV_TS_KIND
      · exact iff_of_true (by rw [hvalue]; decide +kernel) hvalue
      · refine iff_of_false ?_ hvalue
        rw [if_neg (show ¬value = "kernel-software".toList from hvalue)]
        split
        · decide
        · decide

theorem states_captureDropScope (cfg : SegmentWriterConfig) :
    cfg.states.captureDropScope = some cfg.captureDropScope ↔
      cfg.Leaves "capture_drop_scope".toList (scopeStr cfg.captureDropScope) := by
  rw [SegmentWriterConfig.states, SegmentWriterConfig.Leaves]
  dsimp only
  rw [captureDropScopeOf, valueOf_comment, (valueOf_settings ..).2.2]
  cases cfg.claims "capture_drop_scope".toList with
  | none => exact iff_of_true (by cases cfg.captureDropScope <;> decide +kernel) (.inl rfl)
  | some value =>
      rw [Option.some_or, or_iff_right (Option.some_ne_none value), Option.some.injEq]
      dsimp only
      by_cases hvalue : value = scopeStr cfg.captureDropScope
      · exact iff_of_true (by rw [hvalue]; cases cfg.captureDropScope <;> decide +kernel) hvalue
      · refine iff_of_false (fun hscope ↦ hvalue ?_) hvalue
        split at hscope
        next hport =>
            have hport : value = scopeStr .portRole := hport
            exact hport.trans (congrArg scopeStr (Option.some.inj hscope))
        next =>
            split at hscope
            next hhandle =>
                have hhandle : value = scopeStr .captureHandle := hhandle
                exact hhandle.trans (congrArg scopeStr (Option.some.inj hscope))
            next => cases hscope

/-- What a section states of its link headers. -/
theorem states_linkHeaders (cfg : SegmentWriterConfig) :
    (cfg.states.linkHeaders = cfg.linkHeaders.provenance ↔
      cfg.Leaves "link_headers".toList cfg.linkHeaders.asStr) ∧
    (cfg.states.linkHeaders = .unstated ↔ ∃ value, cfg.claims "link_headers".toList = some value ∧
      value ≠ LinkHeaders.captured.asStr ∧ value ≠ LinkHeaders.synthesised.asStr) := by
  rw [SegmentWriterConfig.states, SegmentWriterConfig.Leaves]
  dsimp only
  rw [linkHeadersOf, valueOf_comment, (valueOf_settings ..).2.1]
  cases cfg.claims "link_headers".toList with
  | none =>
      constructor
      · exact iff_of_true (by cases cfg.linkHeaders <;> decide +kernel) (.inl rfl)
      · refine iff_of_false (by cases cfg.linkHeaders <;> decide +kernel) ?_
        rintro ⟨value, hvalue, -⟩
        cases hvalue
  | some value =>
      rw [Option.some_or, or_iff_right (Option.some_ne_none value), Option.some.injEq]
      dsimp only
      by_cases hcaptured : value = LinkHeaders.captured.asStr
      · rw [if_pos (show value = "captured".toList from hcaptured), hcaptured]
        cases cfg.linkHeaders <;> decide +kernel
      · rw [if_neg (show ¬value = "captured".toList from hcaptured)]
        by_cases hsynthesised : value = LinkHeaders.synthesised.asStr
        · rw [if_pos (show value = "synthesised".toList from hsynthesised), hsynthesised]
          cases cfg.linkHeaders <;> decide +kernel
        · rw [if_neg (show ¬value = "synthesised".toList from hsynthesised)]
          constructor
          · cases cfg.linkHeaders with
            | captured => exact iff_of_false (by decide +kernel) hcaptured
            | synthesised => exact iff_of_false (by decide +kernel) hsynthesised
          · exact iff_of_true rfl ⟨value, rfl, hcaptured, hsynthesised⟩

/-! ## What was captured -/

/-- A datagram as a replay states it: a TTL of zero that was made up is no TTL. -/
def RecordedDatagram.replayed (dg : RecordedDatagram) : RecordedDatagram :=
  { dg with ttl := if dg.linkHeaders = none ∧ dg.ttl = some 0 then none else dg.ttl }

/-- The segment replays the datagrams that were written to it, in order, under the scope of its
configuration, and comes to a clean end. -/
def Replays (build : Build) (cfg : SegmentWriterConfig) (dgs : List RecordedDatagram) : Prop :=
  ∃ s, ArchiveSource.fromReader ((segment build cfg dgs).map .ok) = .ok s ∧
    s.captureDropScope = some cfg.captureDropScope ∧
    s.Yields (dgs.map RecordedDatagram.replayed)

/-- The identity states no setting that the datagrams rest on, or states it as the section does.  A
datagram without link headers that has a TTL needs no more than that it is not taken for a captured
one. -/
structure Unclaimed (cfg : SegmentWriterConfig) (dgs : List RecordedDatagram) : Prop where
  scope : cfg.Leaves "capture_drop_scope".toList (scopeStr cfg.captureDropScope)
  kind : ∀ dg ∈ dgs, dg.recvTsKind = .kernelSoftware →
    cfg.Leaves "recv_ts_kind".toList SECTION_RECV_TS_KIND
  link : ∀ dg ∈ dgs, dg.framed.2 = cfg.linkHeaders →
    cfg.Leaves "link_headers".toList cfg.linkHeaders.asStr ∨
      dg.linkHeaders = none ∧ dg.ttl ≠ none ∧ dg.ttl ≠ some 0 ∧
        cfg.claims "link_headers".toList ≠ some LinkHeaders.captured.asStr

/-- What a datagram rests on: the kind of its stamp, and what is known of its link headers. -/
theorem seen_eq_replayed (h : dg.Captured) :
    dg.seen defaults claimed = dg.replayed ↔
      (dg.recvTsKind = .kernelSoftware → defaults.recvTsKind = .kernelSoftware) ∧
      (dg.provenance defaults claimed = dg.framed.2.provenance ∨
        dg.linkHeaders = none ∧ dg.ttl ≠ none ∧ dg.ttl ≠ some 0 ∧
          dg.provenance defaults claimed = .unstated) := by
  rw [RecordedDatagram.seen, RecordedDatagram.replayed, RecordedDatagram.mk.injEq]
  simp only [true_and, and_true]
  refine and_congr ?_ ?_
  · cases dg.recvTsKind with
    | kernelSoftware =>
        rw [if_neg (by decide)]
        exact (imp_iff_right rfl).symm
    | applicationFallback => exact iff_of_true (if_pos rfl) nofun
  · generalize dg.provenance defaults claimed = provenance
    cases hlink : dg.linkHeaders with
    | some headers =>
        obtain ⟨ttl, httl, -⟩ := h.headers headers hlink
        rw [RecordedDatagram.framed, hlink, httl]
        cases provenance with
        | captured => simp [LinkHeaderProvenance.ttl, LinkHeaders.provenance]
        | synthesised => simp [LinkHeaders.provenance]
        | unstated => simp [LinkHeaders.provenance]
    | none =>
        rw [RecordedDatagram.framed, hlink]
        cases provenance with
        | captured => simp [LinkHeaders.provenance]
        | synthesised =>
            refine iff_of_true ⟨?_, if_neg nofun⟩ (.inl rfl)
            cases dg.ttl with
            | none => rfl
            | some ttl => by_cases hzero : ttl = 0 <;> simp [LinkHeaderProvenance.ttl, hzero]
        | unstated =>
            cases dg.ttl with
            | none => simp [LinkHeaderProvenance.ttl, LinkHeaders.provenance]
            | some ttl => by_cases hzero : ttl = 0 <;>
                simp [LinkHeaderProvenance.ttl, LinkHeaders.provenance, hzero]

theorem ArchiveSource.yields_congr {s s' : ArchiveSource} (h : s.next = s'.next)
    (out : List RecordedDatagram) : s.Yields out ↔ s'.Yields out := by
  cases out with
  | nil => rw [Yields, Yields, h]
  | cons dg out => rw [Yields, Yields, h]

/-- What a replay comes to is decided by what the section states. -/
theorem replays_iff (build : Build) (cfg : SegmentWriterConfig) {dgs : List RecordedDatagram}
    (h : ∀ dg ∈ dgs, dg.Captured) :
    Replays build cfg dgs ↔ cfg.states.captureDropScope = some cfg.captureDropScope ∧
      ∀ dg ∈ dgs, dg.seen cfg.states cfg.linkHeaders = dg.replayed := by
  obtain ⟨s, going, isbs, hopen, hstates, hgoing, hnext, hblocks⟩ :=
    ArchiveSource.open_segment build cfg dgs
  have hyields : s.Yields (dgs.map RecordedDatagram.replayed) ↔
      ∀ dg ∈ dgs, dg.seen cfg.states cfg.linkHeaders = dg.replayed := by
    rw [ArchiveSource.yields_congr hnext, ArchiveSource.yields_iff h hblocks, hgoing,
      List.map_inj_left]
    exact forall₂_congr fun dg _ ↦ eq_comm
  constructor
  · rintro ⟨s', hs', hscope, hout⟩
    rw [hopen] at hs'
    cases hs'
    rw [ArchiveSource.captureDropScope, hstates] at hscope
    exact ⟨hscope, hyields.mp hout⟩
  · rintro ⟨hscope, hout⟩
    refine ⟨s, hopen, ?_, hyields.mpr hout⟩
    rw [ArchiveSource.captureDropScope, hstates, hscope]

theorem provenance_iff (cfg : SegmentWriterConfig) (dg : RecordedDatagram) :
    (dg.provenance cfg.states cfg.linkHeaders = dg.framed.2.provenance ∨
      dg.linkHeaders = none ∧ dg.ttl ≠ none ∧ dg.ttl ≠ some 0 ∧
        dg.provenance cfg.states cfg.linkHeaders = .unstated) ↔
    (dg.framed.2 = cfg.linkHeaders → cfg.Leaves "link_headers".toList cfg.linkHeaders.asStr ∨
      dg.linkHeaders = none ∧ dg.ttl ≠ none ∧ dg.ttl ≠ some 0 ∧
        cfg.claims "link_headers".toList ≠ some LinkHeaders.captured.asStr) := by
  rw [RecordedDatagram.provenance]
  by_cases hclaimed : dg.framed.2 = cfg.linkHeaders
  · obtain ⟨hsame, hunstated⟩ := states_linkHeaders cfg
    rw [if_pos hclaimed, imp_iff_right hclaimed, hclaimed, hsame, hunstated]
    refine or_congr_right' fun hleaves ↦ and_congr_right fun hnone ↦ and_congr_right fun _ ↦
      and_congr_right fun _ ↦ ?_
    -- no link headers are made up ones, and the section claims those
    have hsynthesised : cfg.linkHeaders = .synthesised := by
      rw [← hclaimed, RecordedDatagram.framed, hnone]
    rw [SegmentWriterConfig.Leaves, hsynthesised, not_or] at hleaves
    obtain ⟨hstated, hother⟩ := hleaves
    obtain ⟨value, hvalue⟩ := Option.ne_none_iff_exists'.mp hstated
    rw [hvalue] at hother ⊢
    constructor
    · rintro ⟨value', hvalue', hcaptured, -⟩ heq
      cases hvalue'
      exact hcaptured (Option.some.inj heq)
    · intro hcaptured
      exact ⟨value, rfl, mt (congrArg some) hcaptured, mt (congrArg some) hother⟩
  · rw [if_neg hclaimed]
    exact iff_of_true (.inl rfl) fun h ↦ absurd h hclaimed

/-- **A segment replays the datagrams that were written to it exactly when the identity in its section
states no setting that they rest on.** -/
theorem segment_replays (build : Build) (cfg : SegmentWriterConfig) (dgs : List RecordedDatagram)
    (h : ∀ dg ∈ dgs, dg.Captured) : Replays build cfg dgs ↔ Unclaimed cfg dgs := by
  have hdg (dg : RecordedDatagram) (hmem : dg ∈ dgs) :
      dg.seen cfg.states cfg.linkHeaders = dg.replayed ↔
        (dg.recvTsKind = .kernelSoftware →
          cfg.Leaves "recv_ts_kind".toList SECTION_RECV_TS_KIND) ∧
        (dg.framed.2 = cfg.linkHeaders → cfg.Leaves "link_headers".toList cfg.linkHeaders.asStr ∨
          dg.linkHeaders = none ∧ dg.ttl ≠ none ∧ dg.ttl ≠ some 0 ∧
            cfg.claims "link_headers".toList ≠ some LinkHeaders.captured.asStr) := by
    rw [seen_eq_replayed (h dg hmem), states_recvTsKind, provenance_iff]
  rw [replays_iff build cfg h, states_captureDropScope]
  constructor
  · rintro ⟨hscope, hall⟩
    exact ⟨hscope, fun dg hmem ↦ ((hdg dg hmem).mp (hall dg hmem)).1,
      fun dg hmem ↦ ((hdg dg hmem).mp (hall dg hmem)).2⟩
  · rintro ⟨hscope, hkind, hlink⟩
    exact ⟨hscope, fun dg hmem ↦ (hdg dg hmem).mpr ⟨hkind dg hmem, hlink dg hmem⟩⟩

theorem plainKey_fields (id : RecorderIdentity) : ∀ p ∈ id.fields, PlainKey p.1 := by
  simp only [RecorderIdentity.fields, List.forall_mem_cons, List.not_mem_nil, false_imp_iff,
    implies_true, and_true]
  refine ⟨?_, ?_, ?_, ?_, ?_, ?_⟩ <;>
    exact ⟨by rintro c ⟨⟩; rfl, by simp, by simp⟩

/-- An identity of texts without a semicolon states its own six fields alone. -/
theorem claims_eq_none (cfg : SegmentWriterConfig) {key : List Char}
    (hfields : ∀ p ∈ cfg.identity.fields, ';' ∉ p.2) (hkey : ∀ p ∈ cfg.identity.fields, p.1 ≠ key) :
    cfg.claims key = none :=
  valueOf_writeParts_eq_none (fun p hp ↦ ⟨plainKey_fields _ p hp, hkey p hp⟩) hfields

/-! ## An identity that states a setting -/

def exampleBuild : Build := ⟨"linux".toList, "x86_64".toList, "1".toList⟩

/-- A recorder that reads link headers off its interface, at a site of this name. -/
def exampleConfig (site : List Char) : SegmentWriterConfig where
  identity := ⟨site, ['r'], ['e'], ['v'], ['c'], ['h']⟩
  rolesJoined := [{ role := .mktdata, group := 0xef000001, port := 5000 }]
  linkHeaders := .captured
  captureDropScope := .portRole

/-- A datagram without link headers, two bytes of three of it. -/
def bareDatagram : RecordedDatagram where
  payload := [1, 2]
  src := ⟨0x0a000001, 4000⟩
  dst := ⟨0xef000001, 5000⟩
  role := .mktdata
  recvTsNs := 7
  recvTsKind := .kernelSoftware
  dropDelta := 1
  ttl := some 9
  linkHeaders := none
  wirePayloadLen := 3

/-- The same datagram with its headers. -/
def headedDatagram : RecordedDatagram :=
  { bareDatagram with linkHeaders := some (synthesiseLinkHeaders bareDatagram) }

theorem captured_bare : bareDatagram.Captured := ⟨by decide, by decide, nofun⟩

theorem captured_headed : headedDatagram.Captured := by
  refine ⟨by decide, by decide, fun headers hheaders ↦ ?_⟩
  cases hheaders
  obtain ⟨h₁, h₂, h₃, h₄, h₅, h₆, h₇, h₈, h₉, h₁₀, h₁₁⟩ := heads_synthesised captured_bare
  exact ⟨9, rfl, h₁, h₂, h₃, h₄, h₅, h₆, h₇, h₈, h₉, h₁₀, h₁₁⟩

theorem segment_replays_example :
    Replays exampleBuild (exampleConfig ['s']) [bareDatagram, headedDatagram] := by
  have hnone {key : List Char} (hkey : ∀ p ∈ (exampleConfig ['s']).identity.fields, p.1 ≠ key) :
      (exampleConfig ['s']).claims key = none :=
    claims_eq_none _ (by decide) hkey
  have hall : ∀ dg ∈ [bareDatagram, headedDatagram], dg.Captured :=
    List.forall_mem_cons.mpr ⟨captured_bare, List.forall_mem_singleton.mpr captured_headed⟩
  exact (segment_replays exampleBuild (exampleConfig ['s']) _ hall).mpr ⟨.inl (hnone (by decide)),
    fun _ _ _ ↦ .inl (hnone (by decide)), fun _ _ _ ↦ .inl (.inl (hnone (by decide)))⟩

/-- A site whose name states another kind of stamp: what the kernel stamped is read as a fallback. -/
theorem not_replays_example :
    ¬Replays exampleBuild (exampleConfig "s; recv_ts_kind=application-fallback".toList)
      [bareDatagram] := by
  rw [replays_iff _ _ (List.forall_mem_singleton.mpr captured_bare)]
  rintro ⟨-, hseen⟩
  have hkind := congrArg RecordedDatagram.recvTsKind (hseen bareDatagram List.mem_cons_self)
  have hstates : (exampleConfig "s; recv_ts_kind=application-fallback".toList).states.recvTsKind =
      .applicationFallback := by decide +kernel
  rw [RecordedDatagram.seen, hstates] at hkind
  cases hkind

/-!
## Provenance in the section comment

Six texts of an identity and three settings share one comment.  Whoever reads it gets bare values, so
an identity survives only if its texts are bare, and then everything else survives with it: no bare
text states a setting.
-/

/-- What the section of a writer is meant to state of its datagrams. -/
def SegmentWriterConfig.meant (cfg : SegmentWriterConfig) : SectionDefaults where
  recvTsKind := .kernelSoftware
  linkHeaders := cfg.linkHeaders.provenance
  captureDropScope := some cfg.captureDropScope

/-- The section header that is written is read as it is meant. -/
def SegmentWriterConfig.Survives (build : Build) (cfg : SegmentWriterConfig) : Prop :=
  sectionIdentity (sectionOptions build cfg) = some cfg.identity ∧
    sectionDefaults (sectionOptions build cfg) = cfg.meant

variable (build : Build) (cfg : SegmentWriterConfig)

/-- The keys of the fields, in the order they are written in. -/
def fieldKeys : List (List Char) :=
  ["site", "recorder", "env", "build_version", "build_commit", "config_hash"].map String.toList

theorem keys_fields (id : RecorderIdentity) : id.fields.map Prod.fst = fieldKeys := rfl

theorem nodup_fieldKeys : fieldKeys.Nodup := by decide

/-- An identity is read back exactly when each of its fields is. -/
theorem sectionIdentity_eq_iff : sectionIdentity (sectionOptions build cfg) = some cfg.identity ↔
    ∀ p ∈ cfg.identity.fields, valueOf cfg.comment p.1 = some p.2 := by
  have hread : sectionIdentity (sectionOptions build cfg) = (do
      let site ← valueOf cfg.comment "site".toList
      let recorder ← valueOf cfg.comment "recorder".toList
      let env ← valueOf cfg.comment "env".toList
      let buildVersion ← valueOf cfg.comment "build_version".toList
      let buildCommit ← valueOf cfg.comment "build_commit".toList
      let configHash ← valueOf cfg.comment "config_hash".toList
      return { site, recorder, env, buildVersion, buildCommit, configHash } :
        Option RecorderIdentity) := by
    rw [sectionIdentity, sectionOptions]
    simp only [List.findSome?_cons, List.findSome?_nil]
    split
    next found hfound => exact hfound.symm
    next hnone => exact hnone.symm
  rw [hread]
  simp only [RecorderIdentity.fields, List.forall_mem_cons, List.not_mem_nil, false_imp_iff,
    implies_true, and_true, Option.bind_eq_bind, Option.bind_eq_some_iff]
  constructor
  · rintro ⟨site, hsite, recorder, hrecorder, env, henv, version, hversion, commit, hcommit,
      hash, hhash, heq⟩
    rw [← Option.some.inj heq]
    exact ⟨hsite, hrecorder, henv, hversion, hcommit, hhash⟩
  · rintro ⟨hsite, hrecorder, henv, hversion, hcommit, hhash⟩
    exact ⟨_, hsite, _, hrecorder, _, henv, _, hversion, _, hcommit, _, hhash, rfl⟩

/-- The identity states its own fields first. -/
theorem valueOf_comment_bare (h : ∀ p ∈ cfg.identity.fields, Bare p.2) :
    ∀ p ∈ cfg.identity.fields, valueOf cfg.comment p.1 = some p.2 := by
  intro p hp
  rw [valueOf_comment, SegmentWriterConfig.claims,
    valueOf_writeParts (plainKey_fields _) (keys_fields _ ▸ nodup_fieldKeys) h p hp, Option.some_or]

/-- A bare identity states no setting. -/
theorem states_bare (h : ∀ p ∈ cfg.identity.fields, Bare p.2) : cfg.states = cfg.meant := by
  have hnone {key : List Char} (hkey : ∀ p ∈ cfg.identity.fields, p.1 ≠ key) :
      cfg.claims key = none := claims_eq_none cfg (fun p hp ↦ (h p hp).semicolon) hkey
  have hkeys (key : List Char) (hkey : key ∉ fieldKeys) : ∀ p ∈ cfg.identity.fields, p.1 ≠ key := by
    rintro p hp rfl
    exact hkey (keys_fields cfg.identity ▸ List.mem_map_of_mem hp)
  have hkind : cfg.states.recvTsKind = .kernelSoftware :=
    (states_recvTsKind cfg).mpr (.inl (hnone (hkeys _ (by decide))))
  have hlink : cfg.states.linkHeaders = cfg.linkHeaders.provenance :=
    (states_linkHeaders cfg).1.mpr (.inl (hnone (hkeys _ (by decide))))
  have hscope : cfg.states.captureDropScope = some cfg.captureDropScope :=
    (states_captureDropScope cfg).mpr (.inl (hnone (hkeys _ (by decide))))
  calc cfg.states
      = ⟨cfg.states.recvTsKind, cfg.states.linkHeaders, cfg.states.captureDropScope⟩ := rfl
    _ = cfg.meant := by rw [hkind, hlink, hscope]; rfl

/-- The section header is read as it is meant exactly when each text of the identity is bare. -/
theorem survives_iff : cfg.Survives build ↔ ∀ p ∈ cfg.identity.fields, Bare p.2 := by
  constructor
  · rintro ⟨hidentity, -⟩ p hp
    exact bare_of_valueOf ((sectionIdentity_eq_iff build cfg).mp hidentity p hp)
  · intro h
    refine ⟨(sectionIdentity_eq_iff build cfg).mpr (valueOf_comment_bare cfg h), ?_⟩
    rw [sectionDefaults_sectionOptions, states_bare cfg h]

/-- A site whose name states another kind of stamp. -/
theorem not_survives_example :
    ¬(exampleConfig "s; recv_ts_kind=application-fallback".toList).Survives exampleBuild := by
  rintro ⟨-, hdefaults⟩
  rw [sectionDefaults_sectionOptions] at hdefaults
  have hkind := congrArg SectionDefaults.recvTsKind hdefaults
  have hstates : (exampleConfig "s; recv_ts_kind=application-fallback".toList).states.recvTsKind =
      .applicationFallback := by decide +kernel
  rw [hstates] at hkind
  cases hkind

end EdgeMulticast.Archive
