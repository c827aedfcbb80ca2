import EdgeMulticast.Lib.FiniteMap
import Mathlib.Data.List.Nodup
import Mathlib.Data.Prod.Lex

/-!
# What the recorder's derivation reads

The part of `wire.rs` (`dz-recorder-relower`) that `derive_events_into` folds, and the keys of
`dz-recorder-core`.

An archive is a list of datagrams.  `WireCapture.absorb` walks it once and files the messages
in three vectors, each with its provenance; the derivation merges the three again, by a sort on
the position of the datagram and of the message in it.  `ordered_absorb` says what the merge
comes to: the messages in the order of the archive.

A message keeps the fields the derivation reads.  What a datagram carries besides is `skipped`:
heartbeats, ends of session, and messages without a decoder.
-/

namespace EdgeMulticast.Recorder

open Std EdgeMulticast.Lib

/-! ## Keys -/

inductive PortRole where
  | mktdata | refdata | snapshot
deriving DecidableEq, Repr

/-- The only correct key for anything that tracks a sequence space. -/
structure ChannelInstance where
  source : ℕ
  channelId : ℕ
  dstPort : ℕ
deriving DecidableEq, Repr

namespace ChannelInstance

instance : Ord ChannelInstance :=
  ⟨compareLex (compareOn source) (compareLex (compareOn channelId) (compareOn dstPort))⟩

instance : TransOrd ChannelInstance :=
  inferInstanceAs (TransCmp
    (compareLex (compareOn source) (compareLex (compareOn channelId) (compareOn dstPort))))

instance : LawfulEqOrd ChannelInstance :=
  lawfulEqCmp_compareLex (c := compareLex (compareOn channelId) (compareOn dstPort))
    fun a b hsource hrest ↦ by
      obtain ⟨hchannel, hport⟩ := compareLex_eq_eq.mp hrest
      have hchannel' : a.channelId = b.channelId := LawfulEqOrd.eq_of_compare hchannel
      have hport' : a.dstPort = b.dstPort := LawfulEqOrd.eq_of_compare hport
      cases a; cases b
      simp_all

end ChannelInstance

/-- The key reference data and books are held under: a channel, not a channel instance. -/
structure Channel where
  sourceAddr : ℕ
  channelId : ℕ
deriving DecidableEq, Repr

namespace Channel

instance : Ord Channel := ⟨compareLex (compareOn sourceAddr) (compareOn channelId)⟩

instance : TransOrd Channel :=
  inferInstanceAs (TransCmp (compareLex (compareOn sourceAddr) (compareOn channelId)))

instance : LawfulEqOrd Channel :=
  lawfulEqCmp_compareLex (c := compareOn channelId) fun a b hsource hid ↦ by
    have hid' : a.channelId = b.channelId := LawfulEqOrd.eq_of_compare hid
    cases a; cases b
    simp_all

def of (i : ChannelInstance) : Channel := ⟨i.source, i.channelId⟩

end Channel

/-! ## Messages -/

/-- A complete two-sided top. -/
structure Quote where
  instrumentId : ℕ
  bidPrice : ℤ
  bidQty : ℕ
  askPrice : ℤ
  askQty : ℕ
  bidSourceCount : ℕ
  askSourceCount : ℕ
  sourceTimestampNs : ℕ := 0
deriving DecidableEq, Repr

structure Trade where
  instrumentId : ℕ
  sourceTimestampNs : ℕ := 0
deriving DecidableEq, Repr

/-- One price level's aggregate quantity.  It is absolute, and zero removes the level. -/
structure LevelUpdate where
  instrumentId : ℕ
  side : ℕ
  priceRaw : ℤ
  qtyRaw : ℕ
  timestampNs : ℕ := 0
deriving DecidableEq, Repr

/-- Bulk removal of levels. -/
structure BookClear where
  instrumentId : ℕ
  clearSide : ℕ
  scope : ℕ
  fromPriceRaw : ℤ
  timestampNs : ℕ := 0
deriving DecidableEq, Repr

structure InstrumentReset where
  instrumentId : ℕ
  newAnchorSeq : ℕ
  timestampNs : ℕ := 0
deriving DecidableEq, Repr

structure SnapshotBegin where
  instrumentId : ℕ
  anchorSeq : ℕ
  totalLevels : ℕ
  snapshotId : ℕ
  timestampNs : ℕ := 0
deriving DecidableEq, Repr

structure SnapshotLevel where
  snapshotId : ℕ
  side : ℕ
  priceRaw : ℤ
  qtyRaw : ℕ
deriving DecidableEq, Repr

structure SnapshotEnd where
  instrumentId : ℕ
  anchorSeq : ℕ
  snapshotId : ℕ
deriving DecidableEq, Repr

structure InstrumentDefinition where
  instrumentId : ℕ
  sourceId : ℕ
  symbol : String
  priceExponent : ℤ
  qtyExponent : ℤ
  contractValue : ℕ
  manifestSeq : ℕ
deriving DecidableEq, Repr

structure ManifestSummary where
  valid : ℕ
  instrumentCount : ℕ
deriving DecidableEq, Repr

def sideBid : ℕ := 0

def clearBid : ℕ := 0

def clearAsk : ℕ := 1

def clearBoth : ℕ := 2

def scopeFromPrice : ℕ := 1

/-- The four types a normalized venue event can become. -/
inductive MessageBody where
  | quote (quote : Quote)
  | trade (trade : Trade)
  | level (level : LevelUpdate)
  | clear (clear : BookClear)
deriving DecidableEq, Repr

/-- The messages that move book state without being a venue event. -/
inductive StateBody where
  | reset (reset : InstrumentReset)
  | snapshotBegin (begin : SnapshotBegin)
  | snapshotLevel (level : SnapshotLevel)
  | snapshotEnd (finish : SnapshotEnd)
deriving DecidableEq, Repr

/-- The two messages that describe instruments rather than markets. -/
inductive ReferenceBody where
  | definition (definition : InstrumentDefinition)
  | manifest (summary : ManifestSummary)
deriving DecidableEq, Repr

/-- Where a message was on the wire. -/
structure WireProvenance where
  datagramIndex : ℕ
  messageIndex : ℕ
  channelId : ℕ
  sequenceNumber : ℕ
  resetCount : ℕ
  recvTsNs : ℕ
  role : PortRole
  srcIp : ℕ
  dstPort : ℕ
deriving DecidableEq, Repr

/-- `instance_of`: the channel instance a message arrived on. -/
def WireProvenance.inst (p : WireProvenance) : ChannelInstance :=
  ⟨p.srcIp, p.channelId, p.dstPort⟩

/-- One decoded message from any of the walk's three outputs. -/
inductive Decoded where
  | market (body : MessageBody) (provenance : WireProvenance)
  | state (body : StateBody) (provenance : WireProvenance)
  | reference (body : ReferenceBody) (provenance : WireProvenance)
deriving DecidableEq, Repr

def Decoded.provenance : Decoded → WireProvenance
  | .market _ p | .state _ p | .reference _ p => p

/-! ## The walk -/

/-- What a message of a datagram decodes to. -/
inductive WireBody where
  | market (body : MessageBody)
  | state (body : StateBody)
  | reference (body : ReferenceBody)
  | skipped
deriving DecidableEq, Repr

/-- A message at a position, unless it is skipped. -/
def WireBody.decoded (p : WireProvenance) : WireBody → Option Decoded
  | .market body => some (.market body p)
  | .state body => some (.state body p)
  | .reference body => some (.reference body p)
  | .skipped => none

/-- One datagram of an archive.  `messages` is absent where `Datagram::decode` refuses the
payload; a `Message Count` is a `u8`. -/
structure RecordedDatagram where
  magic : ℕ
  srcIp : ℕ
  dstPort : ℕ
  role : PortRole
  recvTsNs : ℕ
  channelId : ℕ
  sequenceNumber : ℕ
  resetCount : ℕ
  messages : Option (List WireBody)
  count_lt : ∀ ms ∈ messages, ms.length < 256

namespace RecordedDatagram

/-- The provenance of the message at a position of the datagram. -/
def provenance (d : RecordedDatagram) (datagramIndex messageIndex : ℕ) : WireProvenance where
  datagramIndex := datagramIndex
  messageIndex := min messageIndex 255
  channelId := d.channelId
  sequenceNumber := d.sequenceNumber
  resetCount := d.resetCount
  recvTsNs := d.recvTsNs
  role := d.role
  srcIp := d.srcIp
  dstPort := d.dstPort

/-- The messages of the datagram that are not skipped, in its order. -/
def decoded (d : RecordedDatagram) (magic datagramIndex : ℕ) : List Decoded :=
  if d.magic ≠ magic then []
  else (d.messages.getD []).zipIdx.filterMap fun m ↦
    m.1.decoded (d.provenance datagramIndex m.2)

end RecordedDatagram

/-- Everything the multicast archive says. -/
structure WireCapture where
  messages : List Decoded := []
  state : List Decoded := []
  reference : List Decoded := []
  datagrams : ℕ := 0

namespace WireCapture

/-- `absorb_message`: file one message under its kind. -/
def push (c : WireCapture) : Decoded → WireCapture
  | d@(.market ..) => { c with messages := c.messages ++ [d] }
  | d@(.state ..) => { c with state := c.state ++ [d] }
  | d@(.reference ..) => { c with reference := c.reference ++ [d] }

/-- `absorb_datagram`.  Every datagram is counted, foreign and undecodable ones included. -/
def absorbDatagram (magic : ℕ) (c : WireCapture) (d : RecordedDatagram) : WireCapture :=
  let c' := (d.decoded magic c.datagrams).foldl push c
  { c' with datagrams := c.datagrams + 1 }

def absorb (magic : ℕ) (archive : List RecordedDatagram) : WireCapture :=
  archive.foldl (absorbDatagram magic) {}

/-- The position of a message in the archive. -/
def position (d : Decoded) : ℕ ×ₗ ℕ :=
  toLex (d.provenance.datagramIndex, d.provenance.messageIndex)

/-- The merge of the three vectors. -/
def ordered (c : WireCapture) : List Decoded :=
  (c.reference ++ c.messages ++ c.state).mergeSort fun a b ↦ decide (position a ≤ position b)

end WireCapture

/-! ## The order of the archive -/

/-- The messages of an archive in its own order. -/
def inOrder (magic : ℕ) : ℕ → List RecordedDatagram → List Decoded
  | _, [] => []
  | index, d :: archive => d.decoded magic index ++ inOrder magic (index + 1) archive

theorem WireBody.provenance_decoded {p : WireProvenance} {body : WireBody} {d : Decoded}
    (h : body.decoded p = some d) : d.provenance = p := by
  cases body with
  | skipped => exact absurd h (by simp [WireBody.decoded])
  | market | state | reference =>
      obtain rfl := Option.some.inj h
      rfl

namespace RecordedDatagram

variable (d : RecordedDatagram) {magic index : ℕ}

/-- The messages behind a position of the datagram, in its order. -/
theorem pairwise_zipIdx (index : ℕ) (ms : List WireBody) (n : ℕ) (hn : n + ms.length ≤ 256) :
    (∀ x ∈ (ms.zipIdx n).filterMap fun m ↦ m.1.decoded (d.provenance index m.2),
        x.provenance.datagramIndex = index ∧ n ≤ x.provenance.messageIndex) ∧
      ((ms.zipIdx n).filterMap fun m ↦ m.1.decoded (d.provenance index m.2)).Pairwise
        fun x y ↦ x.provenance.messageIndex < y.provenance.messageIndex := by
  induction ms generalizing n with
  | nil => simp
  | cons body ms ih =>
      rw [List.length_cons] at hn
      obtain ⟨hpos, hsorted⟩ := ih (n + 1) (by omega)
      rw [List.zipIdx_cons, List.filterMap_cons]
      cases hbody : body.decoded (d.provenance index n) with
      | none =>
          refine ⟨fun x hx ↦ ?_, hsorted⟩
          obtain ⟨hindex, hle⟩ := hpos x hx
          exact ⟨hindex, by omega⟩
      | some x =>
          have hx := WireBody.provenance_decoded hbody
          have hxindex : x.provenance.messageIndex = n := by
            rw [hx, provenance]
            exact Nat.min_eq_left (by omega)
          refine ⟨?_, List.pairwise_cons.mpr ⟨fun y hy ↦ ?_, hsorted⟩⟩
          · rintro y hy
            rcases List.mem_cons.mp hy with rfl | hy
            · exact ⟨by rw [hx, provenance], by omega⟩
            · exact ⟨(hpos y hy).1, by have := (hpos y hy).2; omega⟩
          · have := (hpos y hy).2
            omega

theorem pairwise_decoded (magic index : ℕ) : (∀ x ∈ d.decoded magic index, x.provenance.datagramIndex = index) ∧
    (d.decoded magic index).Pairwise
      fun x y ↦ x.provenance.messageIndex < y.provenance.messageIndex := by
  rw [decoded]
  split
  · simp
  · have hlength : 0 + (d.messages.getD []).length ≤ 256 := by
      have hcount := d.count_lt
      cases hms : d.messages with
      | none => simp
      | some ms => simpa using Nat.le_of_lt (hcount ms hms)
    obtain ⟨hpos, hsorted⟩ := d.pairwise_zipIdx index _ 0 hlength
    exact ⟨fun x hx ↦ (hpos x hx).1, hsorted⟩

end RecordedDatagram

namespace WireCapture

theorem position_lt {x y : Decoded}
    (h : x.provenance.datagramIndex < y.provenance.datagramIndex ∨
      x.provenance.datagramIndex = y.provenance.datagramIndex ∧
        x.provenance.messageIndex < y.provenance.messageIndex) : position x < position y :=
  Prod.Lex.toLex_lt_toLex.mpr h

/-- The positions of the archive ascend. -/
theorem pairwise_inOrder (magic : ℕ) (archive : List RecordedDatagram) (index : ℕ) :
    (∀ x ∈ inOrder magic index archive, index ≤ x.provenance.datagramIndex) ∧
      (inOrder magic index archive).Pairwise fun x y ↦ position x < position y := by
  induction archive generalizing index with
  | nil => simp [inOrder]
  | cons d archive ih =>
      obtain ⟨hle, hsorted⟩ := ih (index + 1)
      obtain ⟨hindex, hmessages⟩ := d.pairwise_decoded magic index
      rw [inOrder]
      refine ⟨fun x hx ↦ ?_, List.pairwise_append.mpr ⟨?_, hsorted, fun x hx y hy ↦ ?_⟩⟩
      · rcases List.mem_append.mp hx with hx | hx
        · exact Nat.le_of_eq (hindex x hx).symm
        · exact (Nat.le_succ index).trans (hle x hx)
      · refine hmessages.imp_of_mem fun {x y} hx hy hlt ↦ position_lt (Or.inr ⟨?_, hlt⟩)
        rw [hindex x hx, hindex y hy]
      · refine position_lt (Or.inl ?_)
        rw [hindex x hx]
        exact hle y hy

/-- Everything filed so far. -/
def all (c : WireCapture) : List Decoded := c.reference ++ c.messages ++ c.state

theorem push_all (c : WireCapture) (d : Decoded) : (c.push d).all.Perm (c.all ++ [d]) := by
  cases d with
  | state => exact List.Perm.of_eq (List.append_assoc ..).symm
  | market =>
      simp only [all, push, List.append_assoc]
      exact (List.Perm.append_left _ List.perm_append_comm).append_left _
  | reference =>
      simp only [all, push, List.append_assoc]
      refine List.Perm.append_left _ ?_
      exact List.perm_append_comm.trans (List.Perm.of_eq (List.append_assoc ..))

theorem foldl_push_all (ds : List Decoded) (c : WireCapture) :
    (ds.foldl push c).all.Perm (c.all ++ ds) := by
  induction ds generalizing c with
  | nil => simp
  | cons d ds ih =>
      refine (ih (c.push d)).trans ?_
      rw [List.append_cons]
      exact (push_all c d).append_right ds

theorem absorb_all (magic : ℕ) (archive : List RecordedDatagram) (c : WireCapture) :
    (archive.foldl (absorbDatagram magic) c).all.Perm
      (c.all ++ inOrder magic c.datagrams archive) := by
  induction archive generalizing c with
  | nil => simp [inOrder]
  | cons d archive ih =>
      refine (ih (absorbDatagram magic c d)).trans ?_
      rw [inOrder, ← List.append_assoc]
      exact (foldl_push_all _ c).append_right _

/-- **The merge restores the archive.**  Sorting the three vectors by position gives the
messages in the order they were recorded. -/
theorem ordered_absorb (magic : ℕ) (archive : List RecordedDatagram) :
    (absorb magic archive).ordered = inOrder magic 0 archive := by
  have hperm : (absorb magic archive).ordered.Perm (inOrder magic 0 archive) :=
    (List.mergeSort_perm ..).trans ((absorb_all magic archive {}).trans (by simp [all]))
  have hsorted := (pairwise_inOrder magic archive 0).2
  have hle : (inOrder magic 0 archive).Pairwise fun x y ↦ position x ≤ position y :=
    hsorted.imp fun h ↦ h.le
  -- two messages at one position are one message
  have hnodup : ((inOrder magic 0 archive).map position).Nodup :=
    List.pairwise_map.mpr (hsorted.imp fun h ↦ h.ne)
  refine hperm.eq_of_pairwise ?_ ?_ hle
  · intro x y hx hy hxy hyx
    exact List.inj_on_of_nodup_map hnodup (hperm.subset hx) hy (hxy.antisymm hyx)
  · refine (List.pairwise_mergeSort ?_ ?_ _).imp fun h ↦ of_decide_eq_true h
    · intro x y z hxy hyz
      exact decide_eq_true ((of_decide_eq_true hxy).trans (of_decide_eq_true hyz))
    · intro x y
      rcases le_total (position x) (position y) with h | h <;> simp [h]

end WireCapture

end EdgeMulticast.Recorder
