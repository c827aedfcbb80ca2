import EdgeMulticast.Codec.Depth
import EdgeMulticast.Egress.Channel
import Mathlib.Data.List.Forall2

/-!
# Each accepted message is handed on once

An `Account` of a Channel ID is what it has accepted: the chunks that made up its datagrams, and
the groups, of one message or of a pair, that wait in the datagram under construction.  `Serves`
says that a composer is in the state an account describes; a call keeps that for every Channel ID
at once and accepts exactly what its answer says (`call_served`).

The numbers of a Channel ID are those of a 64-bit counter that wraps.
-/

namespace EdgeMulticast.Egress

open EdgeMulticast.Lib
open EdgeMulticast.Codec

variable {F : Feed} {E : Type}

/-! ## Datagrams -/

/-- The flags of every message of a port role. -/
def flagsOf (portRole : PortRole) : UInt16 := if portRole = .snapshot then FLAG_SNAPSHOT else 0

/-- The datagram of a Channel ID with a given place in its series, holding these messages. -/
structure Carries (F : Feed) (portRole : PortRole) (era channelId : Byte) (place : ℕ)
    (bytes : List Byte) (messages : List AppMessage) : Prop where
  decoded : ∃ d, Datagram.decode bytes F.MAGIC = .ok d ∧ d.header.channelId = channelId ∧
    d.header.sequenceNumber = UInt64.ofNat place ∧ d.header.resetCount = era ∧
    d.iter = messages.map fun m ↦
      ⟨m.TYPE_ID, flagsOf portRole, m.frame (flagsOf portRole) channelId⟩
  nonempty : 1 ≤ messages.length
  count : messages.length ≤ U8_MAX
  size : bytes.length ≤ MAX_DATAGRAM_SIZE

/-- The datagrams of a Channel ID that the sink was handed, in order. -/
def ChannelEgress.sent (e : ChannelEgress F) (channelId : Byte) : List (List Byte) :=
  e.handed.filter (byteAt · 3 = channelId)

/-- These groups are what waits in the datagram under construction. -/
def ChannelEgress.Waits (e : ChannelEgress F) (channelId : Byte)
    (pending : List (List AppMessage)) : Prop :=
  match e.open channelId with
  | none => pending = []
  | some b => b.Packs pending.flatten

/-! ## Accounts -/

/-- What a Channel ID has accepted. -/
structure Account where
  /-- The groups of each datagram that was handed on. -/
  chunks : List (List (List AppMessage))
  /-- The groups of the datagram under construction. -/
  pending : List (List AppMessage)

namespace Account

def accepted (a : Account) : List (List AppMessage) := a.chunks.flatten ++ a.pending

/-- One more group waits. -/
def take (a : Account) (group : List AppMessage) : Account := ⟨a.chunks, a.pending ++ [group]⟩

/-- What waits becomes a datagram, if there is any. -/
def ship (a : Account) : Account :=
  match a.pending with
  | [] => a
  | _ :: _ => ⟨a.chunks ++ [a.pending], []⟩

theorem accepted_take (a : Account) (group : List AppMessage) :
    (a.take group).accepted = a.accepted ++ [group] := by
  simp [accepted, take]

theorem accepted_ship (a : Account) : a.ship.accepted = a.accepted := by
  unfold ship
  split
  next => rfl
  next => simp [accepted]

theorem ship_of_ne_nil {a : Account} (h : a.pending ≠ []) :
    a.ship = ⟨a.chunks ++ [a.pending], []⟩ := by
  unfold ship
  split
  next hnil => exact absurd hnil h
  next => rfl

theorem ship_of_nil {a : Account} (h : a.pending = []) : a.ship = a := by
  unfold ship
  split
  next => rfl
  next hcons => simp [h] at hcons

end Account

/-- A builder with the datagram that an account says is under construction. -/
structure Builds (portRole : PortRole) (era channelId : Byte) (a : Account)
    (b : DatagramBuilder F) : Prop where
  packs : b.Packs a.pending.flatten
  channelId : b.channelId = channelId
  sequenceNumber : b.sequenceNumber = UInt64.ofNat a.chunks.length
  resetCount : b.resetCount = era
  portRole : b.portRole = portRole

/-- The number of an account's next datagram. -/
def Account.next (a : Account) (era channelId : Byte) : ChannelSequence :=
  ⟨channelId, UInt64.ofNat a.chunks.length, era⟩

/-- A composer in the state that an account of a Channel ID describes. -/
structure Serves (endpoint : EgressEndpoint) (era : Byte) (e : ChannelEgress F) (channelId : Byte)
    (a : Account) : Prop where
  endpoint_eq : e.endpoint = endpoint
  era_eq : e.sequencer.era = era
  series : ∀ s, e.sequencer.current (endpoint.inst channelId) = some s → s = a.next era channelId
  unregistered : e.sequencer.current (endpoint.inst channelId) = none →
    e.open channelId = none ∧ a = ⟨[], []⟩
  closed : e.open channelId = none → a.pending = []
  builds : ∀ b, e.open channelId = some b → Builds endpoint.portRole era channelId a b
  groups : [] ∉ a.pending
  sent : List.Forall₂
    (fun bytes p ↦ Carries F endpoint.portRole era channelId p.2 bytes p.1.flatten)
    (e.sent channelId) a.chunks.zipIdx

/-- A composer serves each Channel ID by its account. -/
def Served (endpoint : EgressEndpoint) (era : Byte) (e : ChannelEgress F) (A : Byte → Account) :
    Prop :=
  ∀ channelId, Serves endpoint era e channelId (A channelId)

variable {endpoint : EgressEndpoint} {era : Byte} {e : ChannelEgress F} {A : Byte → Account}

theorem EgressEndpoint.inst_ne (endpoint : EgressEndpoint) {ch c : Byte} (h : ch ≠ c) :
    endpoint.inst ch ≠ endpoint.inst c :=
  fun heq ↦ h (congrArg ChannelInstance.channelId heq)

/-- What a state says of one Channel ID is all that `Serves` reads. -/
theorem Serves.congr {ch : Byte} {a : Account} {e' : ChannelEgress F}
    (h : Serves endpoint era e ch a) (hendpoint : e'.endpoint = e.endpoint)
    (hera : e'.sequencer.era = e.sequencer.era)
    (hcurrent : e'.sequencer.current (endpoint.inst ch) = e.sequencer.current (endpoint.inst ch))
    (hopen : e'.open ch = e.open ch) (hsent : e'.sent ch = e.sent ch) :
    Serves endpoint era e' ch a where
  endpoint_eq := hendpoint.trans h.endpoint_eq
  era_eq := hera.trans h.era_eq
  series := by rw [hcurrent]; exact h.series
  unregistered := by rw [hcurrent, hopen]; exact h.unregistered
  closed := by rw [hopen]; exact h.closed
  builds := by rw [hopen]; exact h.builds
  groups := h.groups
  sent := by rw [hsent]; exact h.sent

theorem served_new (endpoint : EgressEndpoint) (era : Byte) (mtu : UInt16) :
    Served endpoint era (.new endpoint era mtu : ChannelEgress F) fun _ ↦ ⟨[], []⟩ := by
  intro ch
  exact {
    endpoint_eq := rfl
    era_eq := rfl
    series := by intro s hs; cases hs
    unregistered := fun _ ↦ ⟨rfl, rfl⟩
    closed := fun _ ↦ rfl
    builds := by intro b hb; cases hb
    groups := List.not_mem_nil
    sent := .nil }

/-! ## Registering -/

theorem Served.register (h : Served endpoint era e A) (c : Byte) :
    Served endpoint era (e.register c) A := by
  intro ch
  have hch := h ch
  unfold ChannelEgress.register Sequencer.register
  rw [hch.endpoint_eq]
  split
  next => exact hch.congr hch.endpoint_eq.symm rfl rfl rfl rfl
  next hnone =>
    by_cases hc : ch = c
    · subst hc
      obtain ⟨hopen, ha⟩ := hch.unregistered hnone
      have hcurrent : Function.update e.sequencer.instances (endpoint.inst ch)
          (some (.new ch e.sequencer.era)) (endpoint.inst ch) =
            some (.new ch e.sequencer.era) := Function.update_self ..
      refine { hch with
        endpoint_eq := rfl
        series := fun s hs ↦ ?_
        unregistered := fun hs ↦ ?_ }
      · rw [Option.some.inj (hs.symm.trans hcurrent), ha, hch.era_eq]
        rfl
      · cases hs.symm.trans hcurrent
    · have hother := Function.update_of_ne (endpoint.inst_ne hc)
        (some (ChannelSequence.new c e.sequencer.era)) e.sequencer.instances
      exact hch.congr hch.endpoint_eq.symm rfl hother rfl rfl

/-! ## The datagram under construction -/

/-- A Channel ID that is served has a builder as its account says, once it is registered. -/
theorem Serves.openFor {ch : Byte} {a : Account} {b : DatagramBuilder F}
    (h : Serves endpoint era e ch a) (hb : e.openFor (E := E) ch = .ok b) :
    Builds endpoint.portRole era ch a b ∧
      e.sequencer.current (endpoint.inst ch) = some (a.next era ch) := by
  unfold ChannelEgress.openFor at hb
  rw [h.endpoint_eq] at hb
  split at hb
  next => cases hb
  next s hs =>
    have hseries := h.series s hs
    refine ⟨?_, by rw [hs, hseries]⟩
    obtain rfl := Except.ok.inj hb
    rcases hopen : e.open ch with _ | b
    · rw [Option.getD_none, hseries]
      exact {
        packs := by rw [h.closed hopen]; exact DatagramBuilder.packs_new ..
        channelId := rfl
        sequenceNumber := rfl
        resetCount := rfl
        portRole := rfl }
    · exact h.builds b hopen

/-- A builder in its place serves its Channel ID by the account that it builds for, and leaves
the others alone. -/
theorem Served.setOpen {c : Byte} {a : Account} {b : DatagramBuilder F}
    (h : Served endpoint era e A)
    (hcurrent : e.sequencer.current (endpoint.inst c) = some ((A c).next era c))
    (hchunks : a.chunks = (A c).chunks) (hgroups : [] ∉ a.pending)
    (hb : Builds endpoint.portRole era c a b) :
    Served endpoint era (e.setOpen c b) (Function.update A c a) := by
  intro ch
  have hch := h ch
  by_cases hc : ch = c
  · subst hc
    have hopen : (e.setOpen ch b).open ch = some b := Function.update_self ..
    rw [Function.update_self]
    exact {
      endpoint_eq := hch.endpoint_eq
      era_eq := hch.era_eq
      series := by
        intro s hs
        rw [Option.some.inj (hs.symm.trans hcurrent), Account.next, Account.next, hchunks]
      unregistered := by
        intro hs
        cases hs.symm.trans hcurrent
      closed := by
        intro hs
        cases hs.symm.trans hopen
      builds := by
        intro b' hb'
        obtain rfl := Option.some.inj (hb'.symm.trans hopen)
        exact hb
      groups := hgroups
      sent := by
        rw [hchunks]
        exact hch.sent }
  · rw [Function.update_of_ne hc]
    exact hch.congr rfl rfl rfl (Function.update_of_ne hc ..) rfl

/-! ## Flushing -/

/-- What a finished builder hands on. -/
theorem Builds.carries {ch : Byte} {a : Account} {b : DatagramBuilder F} {ts : UInt64}
    {bytes : List Byte} (h : Builds endpoint.portRole era ch a b)
    (hbytes : b.finish ts = some bytes) :
    Carries F endpoint.portRole era ch a.chunks.length bytes a.pending.flatten where
  decoded := by
    have hflags : b.flags = flagsOf endpoint.portRole := by
      rw [DatagramBuilder.flags, h.portRole, flagsOf]
    refine ⟨_, h.packs.decode_finish hbytes, h.channelId, h.sequenceNumber, h.resetCount, ?_⟩
    rw [h.packs.iter_finish, hflags, h.channelId]
  nonempty := by
    rcases hms : a.pending.flatten with _ | ⟨m, ms⟩
    · have hnone := (h.packs.finish_eq_none_iff ts).mpr hms
      cases hnone.symm.trans hbytes
    · exact Nat.succ_le_succ (Nat.zero_le _)
  count := by
    rw [← h.packs.count]
    exact Nat.le_of_lt_succ b.msgCount.toNat_lt
  size := by
    rw [(h.packs.finish_eq_some ts hbytes).1]
    exact h.packs.room.trans h.packs.cap

/-- The Channel ID stands on the wire. -/
theorem Builds.byteAt_finish {ch : Byte} {a : Account} {b : DatagramBuilder F} {ts : UInt64}
    {bytes : List Byte} (h : Builds endpoint.portRole era ch a b)
    (hbytes : b.finish ts = some bytes) : byteAt bytes 3 = ch := by
  obtain ⟨-, hreads, -⟩ := h.packs.finish_eq_some ts hbytes
  have hread := hreads ⟨3, [b.channelId]⟩ (by simp [DatagramBuilder.headerFields])
  rw [byteAt_eq hread, h.channelId]

/-- An empty builder has nothing that waits. -/
theorem Serves.pending_eq_nil {ch : Byte} {a : Account} {b : DatagramBuilder F} {ts : UInt64}
    (h : Serves endpoint era e ch a) (hopen : e.open ch = some b) (hb : b.finish ts = none) :
    a.pending = [] := by
  have hflat := ((h.builds b hopen).packs.finish_eq_none_iff ts).mp hb
  refine List.eq_nil_iff_forall_not_mem.mpr fun g hg ↦ h.groups ?_
  rwa [← List.flatten_eq_nil_iff.mp hflat g hg]

theorem current_advance {s : Sequencer} {inst : ChannelInstance} {n : ChannelSequence}
    (h : s.current inst = some n) : (s.advance inst).current inst = some n.advance := by
  unfold Sequencer.current at h
  unfold Sequencer.advance Sequencer.current
  rw [h]
  exact Function.update_self ..

theorem current_advance_of_ne {s : Sequencer} {inst inst' : ChannelInstance} (h : inst' ≠ inst) :
    (s.advance inst).current inst' = s.current inst' := by
  unfold Sequencer.advance Sequencer.current
  split
  next => exact Function.update_of_ne h ..
  next => rfl

theorem era_advance (s : Sequencer) (inst : ChannelInstance) : (s.advance inst).era = s.era := by
  unfold Sequencer.advance
  split
  next => rfl
  next => rfl

theorem next_advance {a : Account} {era ch : Byte} {chunk : List (List AppMessage)}
    {pending : List (List AppMessage)} :
    (a.next era ch).advance = (⟨a.chunks ++ [chunk], pending⟩ : Account).next era ch := by
  rw [Account.next, Account.next, ChannelSequence.advance, List.length_append,
    List.length_singleton, UInt64.ofNat_add]
  rfl

/-- A Channel ID with a datagram under construction is registered. -/
theorem Serves.current_of_open {ch : Byte} {a : Account} {b : DatagramBuilder F}
    (h : Serves endpoint era e ch a) (hopen : e.open ch = some b) :
    e.sequencer.current (endpoint.inst ch) = some (a.next era ch) := by
  rcases hs : e.sequencer.current (endpoint.inst ch) with _ | s
  · cases hopen.symm.trans (h.unregistered hs).1
  · rw [h.series s hs]

/-- The composer behind a datagram that was handed on. -/
def ChannelEgress.shipped (e : ChannelEgress F) (c : Byte) (datagram : List Byte) :
    ChannelEgress F :=
  { e with
    «open» := Function.update e.open c none
    sequencer := e.sequencer.advance (e.endpoint.inst c)
    handed := e.handed ++ [datagram] }

theorem ChannelEgress.sent_shipped {c : Byte} {datagram : List Byte}
    (hbyte : byteAt datagram 3 = c) :
    (e.shipped c datagram).sent c = e.sent c ++ [datagram] := by
  simp [sent, shipped, hbyte]

theorem ChannelEgress.sent_shipped_of_ne {ch c : Byte} {datagram : List Byte}
    (hbyte : byteAt datagram 3 = c) (hc : ch ≠ c) :
    (e.shipped c datagram).sent ch = e.sent ch := by
  simp [sent, shipped, hbyte, hc.symm]

/-- Handing on a datagram makes one chunk of what waited. -/
theorem Served.shipped (h : Served endpoint era e A) {c : Byte} {b : DatagramBuilder F}
    {ts : UInt64} {datagram : List Byte} (hopen : e.open c = some b)
    (hdatagram : b.finish ts = some datagram) :
    Served endpoint era (e.shipped c datagram)
      (Function.update A c ⟨(A c).chunks ++ [(A c).pending], []⟩) := by
  have hb := (h c).builds b hopen
  have hbyte := hb.byteAt_finish hdatagram
  intro ch
  have hch := h ch
  have hendpoint : (e.shipped c datagram).sequencer = e.sequencer.advance (endpoint.inst c) := by
    rw [ChannelEgress.shipped, hch.endpoint_eq]
  by_cases hc : ch = c
  · subst hc
    have hclosed : (e.shipped ch datagram).open ch = none := Function.update_self ..
    have hcurrent := current_advance (hch.current_of_open hopen)
    rw [Function.update_self]
    exact {
      endpoint_eq := hch.endpoint_eq
      era_eq := by rw [hendpoint, era_advance, hch.era_eq]
      series := by
        intro s hs
        rw [hendpoint, hcurrent] at hs
        rw [← Option.some.inj hs, next_advance]
      unregistered := by
        intro hs
        rw [hendpoint, hcurrent] at hs
        cases hs
      closed := fun _ ↦ rfl
      builds := by
        intro b' hb'
        cases hb'.symm.trans hclosed
      groups := List.not_mem_nil
      sent := by
        rw [ChannelEgress.sent_shipped hbyte, List.zipIdx_append]
        refine List.rel_append hch.sent (.cons ?_ .nil)
        rw [Nat.zero_add]
        exact hb.carries hdatagram }
  · rw [Function.update_of_ne hc]
    refine hch.congr rfl ?_ ?_ (Function.update_of_ne hc ..)
      (ChannelEgress.sent_shipped_of_ne hbyte hc)
    · rw [hendpoint, era_advance]
    · rw [hendpoint, current_advance_of_ne (endpoint.inst_ne hc)]

/-- A flush hands on what waits for its Channel ID, if anything does. -/
theorem Served.flush (h : Served endpoint era e A) (sink : DatagramSink E) (c : Byte)
    (ts : UInt64) :
    Served endpoint era (e.flush sink c ts).2 (Function.update A c (A c).ship) := by
  unfold ChannelEgress.flush
  split
  next hopen =>
    rw [Account.ship_of_nil ((h c).closed hopen), Function.update_eq_self]
    exact h
  next b hopen =>
    dsimp only
    split
    next hnone =>
      have hclosed : Function.update e.open c none c = none := Function.update_self ..
      have hnil := (h c).pending_eq_nil hopen hnone
      rw [Account.ship_of_nil hnil, Function.update_eq_self]
      intro ch
      by_cases hc : ch = c
      · subst hc
        exact { h ch with
          unregistered := fun hs ↦ ⟨hclosed, ((h ch).unregistered hs).2⟩
          closed := fun _ ↦ hnil
          builds := fun b' hb' ↦ by cases hb'.symm.trans hclosed }
      · exact (h ch).congr rfl rfl rfl (Function.update_of_ne hc ..) rfl
    next datagram hdatagram =>
      have hne : (A c).pending ≠ [] := by
        intro hnil
        have hflat : (A c).pending.flatten = [] := by rw [hnil, List.flatten_nil]
        have hnone := (((h c).builds b hopen).packs.finish_eq_none_iff ts).mpr hflat
        cases hnone.symm.trans hdatagram
      rw [Account.ship_of_ne_nil hne]
      exact h.shipped hopen hdatagram

/-! ## Packing -/

/-- Packing one group: it is appended whole, or the datagram under construction stays. -/
def Whole (packing : Packing F) (group : List AppMessage) : Prop :=
  ∀ b, (∃ b', packing b = (.ok (), b') ∧ (∀ ms, b.Packs ms → b'.Packs (ms ++ group)) ∧
      b'.channelId = b.channelId ∧ b'.sequenceNumber = b.sequenceNumber ∧
      b'.resetCount = b.resetCount ∧ b'.portRole = b.portRole) ∨
    ∃ refused, packing b = (.error refused, b)

theorem whole_push (m : AppMessage) : Whole (F := F) (·.push m) [m] := by
  intro b
  rcases b.push_eq m with ⟨hpush, haccepts⟩ | ⟨refused, hpush, -⟩
  · exact .inl ⟨_, hpush, fun _ h ↦ h.append haccepts, rfl, rfl, rfl, rfl⟩
  · exact .inr ⟨refused, hpush⟩

theorem whole_pushPair (first second : AppMessage) :
    Whole (F := F) (·.pushPair first second) [first, second] := by
  intro b
  rcases b.pushPair_eq first second with ⟨hpush, hfirst, hsecond⟩ | ⟨refused, hpush⟩
  · refine .inl ⟨_, hpush, fun ms h ↦ ?_, rfl, rfl, rfl, rfl⟩
    rw [← List.singleton_append, ← List.append_assoc]
    exact (h.append hfirst).append hsecond
  · exact .inr ⟨refused, hpush⟩

/-- What an answer to packing a group adds to what a Channel ID has accepted. -/
def gained {ε : Type} (c : Byte) (group : List AppMessage) (ch : Byte) :
    Except ε Unit → List (List AppMessage)
  | .ok () => if c = ch then [group] else []
  | .error _ => []

theorem gained_mapError {ε ε' : Type} (c : Byte) (group : List AppMessage) (ch : Byte)
    (f : ε → ε') (answer : Except ε Unit) :
    gained c group ch (answer.mapError f) = gained c group ch answer := by
  cases answer with
  | ok => rfl
  | error => rfl

theorem accepted_update_ship (A : Byte → Account) (c ch : Byte) :
    (Function.update A c (A c).ship ch).accepted = (A ch).accepted := by
  by_cases hc : ch = c
  · subst hc
    rw [Function.update_self, Account.accepted_ship]
  · rw [Function.update_of_ne hc]

theorem accepted_update_take (A : Byte → Account) (c ch : Byte) (group : List AppMessage) :
    (Function.update A c ((A c).take group) ch).accepted =
      (A ch).accepted ++ if c = ch then [group] else [] := by
  by_cases hc : c = ch
  · subst hc
    rw [Function.update_self, Account.accepted_take, if_pos rfl]
  · rw [Function.update_of_ne (Ne.symm hc), if_neg hc, List.append_nil]

/-- One attempt to pack a group into the datagram that is open for its Channel ID. -/
theorem Served.attempt (h : Served endpoint era e A) {c : Byte} {b : DatagramBuilder F}
    {packing : Packing F} {group : List AppMessage} (hwhole : Whole packing group)
    (hgroup : group ≠ []) (hb : e.openFor (E := E) c = .ok b) :
    ∃ A', Served endpoint era (e.setOpen c (packing b).2) A' ∧
      ∀ ch, (A' ch).accepted = (A ch).accepted ++ gained c group ch (packing b).1 := by
  obtain ⟨hbuilds, hcurrent⟩ := (h c).openFor hb
  rcases hwhole b with ⟨b', hpack, hpacks, hchannel, hnumber, hreset, hrole⟩ | ⟨refused, hpack⟩
  · rw [hpack]
    refine ⟨_, Served.setOpen (a := (A c).take group) h hcurrent rfl ?_ ?_,
      fun ch ↦ accepted_update_take A c ch group⟩
    · rw [Account.take, List.mem_append, List.mem_singleton]
      exact not_or.mpr ⟨(h c).groups, hgroup.symm⟩
    · exact {
        packs := by
          rw [Account.take, List.flatten_append, List.flatten_singleton]
          exact hpacks _ hbuilds.packs
        channelId := hchannel.trans hbuilds.channelId
        sequenceNumber := hnumber.trans hbuilds.sequenceNumber
        resetCount := hreset.trans hbuilds.resetCount
        portRole := hrole.trans hbuilds.portRole }
  · rw [hpack]
    have hstay := h.setOpen hcurrent rfl (h c).groups hbuilds
    rw [Function.update_eq_self] at hstay
    exact ⟨A, hstay, fun ch ↦ (List.append_nil _).symm⟩

/-- Packing a group accepts it exactly when the answer is Ok. -/
theorem Served.pack (h : Served endpoint era e A) (sink : DatagramSink E) (c : Byte)
    {packing : Packing F} {group : List AppMessage} (hwhole : Whole packing group)
    (hgroup : group ≠ []) (ts : UInt64) :
    ∃ A', Served endpoint era (e.pack sink c packing ts).2 A' ∧
      ∀ ch, (A' ch).accepted =
        (A ch).accepted ++ gained c group ch (e.pack sink c packing ts).1 := by
  unfold ChannelEgress.pack
  split
  next => exact ⟨A, h, fun ch ↦ (List.append_nil _).symm⟩
  next b hb =>
    have hattempt := h.attempt hwhole hgroup hb
    split
    next b' hpack => rwa [hpack] at hattempt
    next refused b' hpack =>
      rw [hpack] at hattempt
      obtain ⟨A₁, h₁, hsame⟩ := hattempt
      have hflush := h₁.flush sink c ts
      dsimp only
      split
      next => exact ⟨A₁, h₁, hsame⟩
      next =>
        -- the displaced datagram is handed on before the second attempt
        have hsame' : ∀ ch, (Function.update A₁ c (A₁ c).ship ch).accepted =
            (A ch).accepted := by
          intro ch
          rw [accepted_update_ship, hsame]
          exact List.append_nil _
        split
        next unsent e' hunsent =>
          rw [hunsent] at hflush
          exact ⟨_, hflush, fun ch ↦ by rw [hsame']; exact (List.append_nil _).symm⟩
        next e' hsent =>
          rw [hsent] at hflush
          split
          next => exact ⟨_, hflush, fun ch ↦ by rw [hsame']; exact (List.append_nil _).symm⟩
          next b'' hb'' =>
            obtain ⟨A₂, h₂, hgain⟩ := hflush.attempt hwhole hgroup hb''
            refine ⟨A₂, h₂, fun ch ↦ ?_⟩
            rw [hgain, hsame', gained_mapError]

/-! ## Calls -/

theorem Served.flushAll (sink : DatagramSink E) (ts : UInt64) (cs : List Byte)
    (h : Served endpoint era e A) :
    ∃ A', Served endpoint era (e.flushAll sink ts cs).2 A' ∧
      ∀ ch, (A' ch).accepted = (A ch).accepted := by
  induction cs generalizing e A with
  | nil => exact ⟨A, h, fun _ ↦ rfl⟩
  | cons c cs ih =>
      obtain ⟨A', h', hsame⟩ := ih (h.flush sink c ts)
      exact ⟨A', h', fun ch ↦ (hsame ch).trans (accepted_update_ship A c ch)⟩

theorem Call.gains_nil {ε : Type} {call : Call} {ch : Byte} (h : call.brings ch = [])
    (answer : Except ε Unit) : call.gains ch answer = [] := by
  cases answer with
  | ok => exact h
  | error => rfl

theorem gained_eq_gains {ε : Type} {call : Call} {c ch : Byte} {group : List AppMessage}
    (h : call.brings ch = if c = ch then [group] else []) (answer : Except ε Unit) :
    gained c group ch answer = call.gains ch answer := by
  cases answer with
  | ok => exact h.symm
  | error => rfl

/-- A call accepts exactly what its answer says. -/
theorem call_served (h : Served endpoint era e A) (sink : DatagramSink E) (call : Call) :
    ∃ A', Served endpoint era (e.call sink call).2 A' ∧
      ∀ ch, (A' ch).accepted = (A ch).accepted ++ call.gains ch (e.call sink call).1 := by
  cases call with
  | register c => exact ⟨A, h.register c, fun ch ↦ (List.append_nil _).symm⟩
  | push c m ts =>
      obtain ⟨A', h', hgain⟩ := h.pack sink c (whole_push m) (List.cons_ne_nil _ _) ts
      exact ⟨A', h', fun ch ↦ by rw [hgain]; exact congrArg _ (gained_eq_gains rfl _)⟩
  | pushPair c first second ts =>
      obtain ⟨A', h', hgain⟩ :=
        h.pack sink c (whole_pushPair first second) (List.cons_ne_nil _ _) ts
      exact ⟨A', h', fun ch ↦ by rw [hgain]; exact congrArg _ (gained_eq_gains rfl _)⟩
  | flush c ts =>
      refine ⟨_, h.flush sink c ts, fun ch ↦ ?_⟩
      rw [accepted_update_ship, Call.gains_nil rfl, List.append_nil]
  | flushAll cs ts =>
      obtain ⟨A', h', hsame⟩ := h.flushAll sink ts cs
      exact ⟨A', h', fun ch ↦ by rw [hsame, Call.gains_nil rfl, List.append_nil]⟩

/-- What a sequence of calls does, from any composer that is served by accounts. -/
theorem run_served (sink : DatagramSink E) (calls : List Call) (h : Served endpoint era e A) :
    ∃ A', Served endpoint era (e.after sink calls) A' ∧
      ∀ ch, (A' ch).accepted = (A ch).accepted ++ accepted sink ch e calls := by
  induction calls generalizing e A with
  | nil => exact ⟨A, h, fun ch ↦ (List.append_nil _).symm⟩
  | cons call calls ih =>
      obtain ⟨A₁, h₁, hcall⟩ := call_served h sink call
      obtain ⟨A₂, h₂, hcalls⟩ := ih h₁
      refine ⟨A₂, h₂, fun ch ↦ ?_⟩
      rw [hcalls, hcall, accepted, List.append_assoc]

/-- The datagrams handed on for a Channel ID are numbered from 0 by a counter of 64 bits, hold
between them exactly what was accepted and does not wait, in order and never dividing a group,
and each holds 1 to 255 messages in at most 1232 bytes. -/
theorem delivered_once (F : Feed) (endpoint : EgressEndpoint) (era : Byte) (mtu : UInt16)
    (sink : DatagramSink E) (calls : List Call) (channelId : Byte) :
    let start : ChannelEgress F := .new endpoint era mtu
    ∃ (chunks : List (List (List AppMessage))) (pending : List (List AppMessage)),
      accepted sink channelId start calls = chunks.flatten ++ pending ∧
      (start.after sink calls).Waits channelId pending ∧
      List.Forall₂
        (fun bytes p ↦ Carries F endpoint.portRole era channelId p.2 bytes p.1.flatten)
        ((start.after sink calls).sent channelId) chunks.zipIdx := by
  intro start
  obtain ⟨A, h, haccepted⟩ := run_served sink calls (served_new (F := F) endpoint era mtu)
  have hch := h channelId
  refine ⟨(A channelId).chunks, (A channelId).pending, (haccepted channelId).symm, ?_, hch.sent⟩
  unfold ChannelEgress.Waits
  split
  next hopen => exact hch.closed hopen
  next b hopen => exact (hch.builds b hopen).packs

/-! ## The counter wraps -/

/-- A composer with a registered Channel ID that nothing waits for, and how many datagrams it has
handed on for it. -/
structure Idle (endpoint : EgressEndpoint) (era : Byte) (mtu : UInt16) (c : Byte) (n : ℕ)
    (e : ChannelEgress F) : Prop where
  served : ∃ A, Served endpoint era e A
  mtu_eq : e.mtu = mtu
  registered : ∃ s, e.sequencer.current (endpoint.inst c) = some s
  closed : e.open c = none
  length_sent : (e.sent c).length = n

/-- A message that fits an empty datagram, pushed and flushed, is one more datagram. -/
theorem Idle.push_flush {mtu : UInt16} {c : Byte} {n : ℕ} {m : AppMessage}
    (h : Idle endpoint era mtu c n e)
    (hm : ∀ s, (DatagramBuilder.new s endpoint.portRole mtu : DatagramBuilder F).Accepts m)
    (sink : DatagramSink E) (ts ts' : UInt64) :
    Idle endpoint era mtu c (n + 1) (e.after sink [.push c m ts, .flush c ts']) := by
  obtain ⟨A, hserved⟩ := h.served
  obtain ⟨s, hs⟩ := h.registered
  have hendpoint := (hserved c).endpoint_eq
  let b : DatagramBuilder F := .new s endpoint.portRole mtu
  have hopen : e.openFor (E := E) c = .ok b := by
    rw [ChannelEgress.openFor, hendpoint, hs, h.closed, h.mtu_eq]
    rfl
  let b' : DatagramBuilder F := b.append m b.flags
  have hpush : e.push sink c m ts = (.ok (), e.setOpen c b') := by
    rw [ChannelEgress.push, ChannelEgress.pack, hopen]
    dsimp only
    rw [DatagramBuilder.push_ok (hm s)]
  obtain ⟨A₁, h₁, -⟩ := call_served hserved sink (.push c m ts)
  rw [ChannelEgress.call, hpush] at h₁
  have hself : (e.setOpen c b').open c = some b' := Function.update_self ..
  have hpacks : b'.Packs [m] := (DatagramBuilder.packs_new ..).append (hm s)
  rcases hdatagram : b'.finish ts' with _ | datagram
  · exact absurd ((hpacks.finish_eq_none_iff ts').mp hdatagram) (List.cons_ne_nil _ _)
  have hflush : ((e.setOpen c b').flush sink c ts').2 = (e.setOpen c b').shipped c datagram := by
    rw [ChannelEgress.flush, hself]
    dsimp only
    rw [hdatagram]
    rfl
  have hafter : e.after sink [.push c m ts, .flush c ts'] =
      (e.setOpen c b').shipped c datagram := by
    rw [← hflush]
    change ((e.push sink c m ts).2.flush sink c ts').2 = _
    rw [hpush]
  have hbyte := ((h₁ c).builds b' hself).byteAt_finish hdatagram
  rw [hafter]
  exact {
    served := ⟨_, h₁.shipped hself hdatagram⟩
    mtu_eq := h.mtu_eq
    registered := by
      refine ⟨s.advance, ?_⟩
      rw [← current_advance hs, ← hendpoint]
      rfl
    closed := Function.update_self ..
    length_sent := by
      rw [ChannelEgress.sent_shipped hbyte, List.length_append]
      exact congrArg (· + 1) h.length_sent }

/-- The run that pushes and flushes a message over and over. -/
def cycles (n : ℕ) (c : Byte) (m : AppMessage) : List Call :=
  (List.replicate n [.push c m 0, .flush c 0]).flatten

theorem Idle.cycles {mtu : UInt16} {c : Byte} {m : AppMessage}
    (hm : ∀ s, (DatagramBuilder.new s endpoint.portRole mtu : DatagramBuilder F).Accepts m)
    (sink : DatagramSink E) (n : ℕ) {k : ℕ} {e : ChannelEgress F}
    (h : Idle endpoint era mtu c k e) :
    Idle endpoint era mtu c (k + n) (e.after sink (Egress.cycles n c m)) := by
  induction n generalizing k e with
  | zero => exact h
  | succ n ih =>
      have hrest := ih (h.push_flush hm sink 0 0)
      rw [Nat.add_assoc, Nat.add_comm 1 n] at hrest
      rw [Egress.cycles, List.replicate_succ, List.flatten_cons, ChannelEgress.after,
        List.foldl_append]
      exact hrest

/-- The datagram at a place of a series carries the number of the place, wrapped. -/
theorem Idle.number_at {mtu : UInt16} {c : Byte} {n i : ℕ} (h : Idle endpoint era mtu c n e)
    (hi : i < n) :
    ∃ bytes d, (e.sent c)[i]? = some bytes ∧ Datagram.decode bytes F.MAGIC = .ok d ∧
      d.header.sequenceNumber = UInt64.ofNat i := by
  obtain ⟨A, hserved⟩ := h.served
  have hsent := (hserved c).sent
  have hlt : i < (e.sent c).length := by rwa [h.length_sent]
  have hlt' : i < (A c).chunks.zipIdx.length := by rwa [← hsent.length_eq]
  obtain ⟨d, hdecode, -, hnumber, -⟩ := (hsent.get hlt hlt').decoded
  refine ⟨_, d, List.getElem?_eq_getElem hlt, hdecode, ?_⟩
  rw [hnumber, List.get_eq_getElem, List.getElem_zipIdx, Nat.zero_add]

/-- The same from a composer that has done nothing yet. -/
theorem number_at_cycles {mtu : UInt16} {c : Byte} {m : AppMessage}
    (hm : ∀ s, (DatagramBuilder.new s endpoint.portRole mtu : DatagramBuilder F).Accepts m)
    (sink : DatagramSink E) {n i : ℕ} (hi : i < n) :
    let e : ChannelEgress F := (ChannelEgress.new endpoint era mtu).after sink
      (.register c :: cycles n c m)
    ∃ bytes d, (e.sent c)[i]? = some bytes ∧ Datagram.decode bytes F.MAGIC = .ok d ∧
      d.header.sequenceNumber = UInt64.ofNat i := by
  have hidle : Idle endpoint era mtu c 0
      ((ChannelEgress.new endpoint era mtu : ChannelEgress F).register c) := by
    exact {
      served := ⟨_, Served.register (served_new endpoint era mtu) c⟩
      mtu_eq := rfl
      registered := ⟨_, Function.update_self ..⟩
      closed := rfl
      length_sent := rfl }
  have hend := hidle.cycles hm sink n
  rw [Nat.zero_add] at hend
  exact hend.number_at hi

/-- An end of session that is pushed and flushed 2^64 + 1 times goes out twice under number 0. -/
theorem number_repeats :
    let sink : DatagramSink Unit := fun _ _ ↦ .ok ()
    let e : ChannelEgress MarketByPrice := (ChannelEgress.new ⟨.mktdata, 0, 0⟩ 0 1232).after sink
      (.register 0 :: cycles (2 ^ 64 + 1) 0 (EndOfSession.app ⟨0⟩))
    ∃ first last d d', (e.sent 0)[0]? = some first ∧ (e.sent 0)[2 ^ 64]? = some last ∧
      Datagram.decode first MarketByPrice.MAGIC = .ok d ∧
      Datagram.decode last MarketByPrice.MAGIC = .ok d' ∧
      d.header.sequenceNumber = 0 ∧ d'.header.sequenceNumber = 0 := by
  intro sink e
  have hm : ∀ s, (DatagramBuilder.new s .mktdata 1232 : DatagramBuilder MarketByPrice).Accepts
      (EndOfSession.app ⟨0⟩) := by
    intro s
    have hrole : PortRole.mktdata ∈ [PortRole.mktdata] := by decide
    have hcount : (0 : Byte) ≠ UInt8.ofNat U8_MAX := by decide
    have hroom : 12 ≤ DatagramBuilder.clamp 1232 - DATAGRAM_HEADER_SIZE := by decide
    exact ⟨by decide, rfl, hrole, hcount, hroom⟩
  have hat (i : ℕ) (hi : i < 2 ^ 64 + 1) : ∃ bytes d, (e.sent 0)[i]? = some bytes ∧
      Datagram.decode bytes MarketByPrice.MAGIC = .ok d ∧
      d.header.sequenceNumber = UInt64.ofNat i :=
    number_at_cycles hm sink hi
  obtain ⟨first, d, hfirst, hdecode, hzero⟩ := hat 0 (by decide)
  obtain ⟨last, d', hlast, hdecode', hwrap⟩ := hat (2 ^ 64) (by decide)
  exact ⟨first, last, d, d', hfirst, hlast, hdecode, hdecode', hzero, hwrap.trans rfl⟩

end EdgeMulticast.Egress
