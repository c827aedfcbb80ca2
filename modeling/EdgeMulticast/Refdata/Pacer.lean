import EdgeMulticast.Codec.Refdata
import Mathlib.Algebra.GroupWithZero.Nat

/-!
# Pacing the definition cycle

`pacer.rs` (`dz-publisher-refdata`): how many definitions a tick owes, and how many of them its
datagrams hold.  `DefinitionPacer` counts what is owed as a debt read off the clock, and `TickRoom`
packs entries into the datagrams of one tick.

Times are nanoseconds of a `u64` clock, and a `usize` has 64 bits.
-/

namespace EdgeMulticast.Refdata

open EdgeMulticast.Codec

def U64_MAX : ℕ := 2 ^ 64 - 1

def USIZE_MAX : ℕ := 2 ^ 64 - 1

/-- How much of the cycle a lap takes. -/
def LAP_PERCENT : ℕ := 80

def DATAGRAM_HEADER_SIZE : ℕ := 24

def MAX_DATAGRAM_SIZE : ℕ := 1232

/-- The size of an `InstrumentDefinition` on the wire. -/
def DEFINITION_SIZE : ℕ := 130

/-- The size of a `StrikeInterval` on the wire. -/
def STRIKE_SIZE : ℕ := 40

/-- The size of a `ManifestSummary` on the wire. -/
def MANIFEST_SIZE : ℕ := 24

/-- How many bytes of messages a datagram holds. -/
def payload (mtu : UInt16) : ℕ :=
  max DATAGRAM_HEADER_SIZE (min mtu.toNat MAX_DATAGRAM_SIZE) - DATAGRAM_HEADER_SIZE

/-- How many definitions a datagram holds, at least one. -/
def definitionsPerDatagram (mtu : UInt16) : ℕ := max (payload mtu / DEFINITION_SIZE) 1

structure CycleSchedule where
  cycleNs : ℕ
  definitionsPerDatagram : ℕ
  maxDatagramsPerTick : ℕ
  payloadPerDatagram : ℕ
  holds_definition : 0 < definitionsPerDatagram
  sends_datagram : 0 < maxDatagramsPerTick
deriving DecidableEq

/-! ## The room of a tick -/

structure TickRoom where
  payloadPerDatagram : ℕ
  datagramsLeft : ℕ
  entriesLeft : ℕ
  room : ℕ
  taken : ℕ := 0
deriving DecidableEq, Repr

namespace TickRoom

/-- Count one more entry, behind those before it, if it fits. -/
def take (r : TickRoom) (size : ℕ) : Option TickRoom :=
  if r.entriesLeft = 0 then none
  else
    let pack (r : TickRoom) : TickRoom :=
      { r with room := r.room - size, entriesLeft := r.entriesLeft - 1, taken := r.taken + 1 }
    if r.room < size then
      -- the first entry goes out whatever its size
      if r.taken = 0 then some (pack { r with room := size })
      else if r.datagramsLeft = 0 ∨ r.payloadPerDatagram < size then none
      else some (pack
        { r with datagramsLeft := r.datagramsLeft - 1, room := r.payloadPerDatagram })
    else some (pack r)

end TickRoom

namespace CycleSchedule

def new (cycleNs : ℕ) (mtu : UInt16) (maxDatagramsPerTick : ℕ) : CycleSchedule where
  cycleNs := min cycleNs U64_MAX
  definitionsPerDatagram := Refdata.definitionsPerDatagram mtu
  maxDatagramsPerTick := max maxDatagramsPerTick 1
  payloadPerDatagram := payload mtu
  holds_definition := Nat.le_max_right _ 1
  sends_datagram := Nat.le_max_right _ 1

def lapNs (s : CycleSchedule) : ℕ :=
  max (s.cycleNs / 100 * LAP_PERCENT + s.cycleNs % 100 * LAP_PERCENT / 100) 1

def maxDefinitionsPerTick (s : CycleSchedule) : ℕ :=
  min (s.definitionsPerDatagram * s.maxDatagramsPerTick) USIZE_MAX

/-- The room of a tick whose first datagram holds `reserved` bytes already. -/
def roomBehind (s : CycleSchedule) (reserved : ℕ) : TickRoom where
  payloadPerDatagram := s.payloadPerDatagram
  datagramsLeft := s.maxDatagramsPerTick - 1
  entriesLeft := s.maxDefinitionsPerTick
  room := s.payloadPerDatagram - reserved

/-- Take entries until one does not fit. -/
def takeAll : TickRoom → List ℕ → TickRoom
  | r, [] => r
  | r, size :: sizes =>
      match r.take size with
      | none => r
      | some r => takeAll r sizes

def fittingBehind (s : CycleSchedule) (reserved : ℕ) (sizes : List ℕ) : ℕ :=
  (takeAll (s.roomBehind reserved) sizes).taken

end CycleSchedule

/-! ## The pacer -/

structure DefinitionPacer where
  schedule : CycleSchedule
  lapStartedNs : Option ℕ := none
  emittedThisLap : ℕ := 0
  laps : ℕ := 0
deriving DecidableEq

namespace DefinitionPacer

variable (p : DefinitionPacer)

/-- How much of the lap is due, of a published set. -/
def dueBy (lapStartedNs nowNs published : ℕ) : ℕ :=
  let lapNs := p.schedule.lapNs
  let elapsedNs := min (nowNs - lapStartedNs) lapNs
  min ((elapsedNs * published + lapNs - 1) / lapNs) published

/-- What is due and was not emitted, at most what one tick may carry. -/
def debt (lapStartedNs nowNs published : ℕ) : ℕ :=
  min (p.dueBy lapStartedNs nowNs published - p.emittedThisLap) p.schedule.maxDefinitionsPerTick

/-- What a call now would be owed, without taking it. -/
def owed (nowNs published : ℕ) : ℕ :=
  match p.lapStartedNs with
  | some lapStartedNs => if 0 < published then p.debt lapStartedNs nowNs published else 0
  | none => 0

/-- Take what is owed, up to a ceiling. -/
def dueAtMost (nowNs published ceiling : ℕ) : ℕ × DefinitionPacer :=
  if published = 0 then (0, { p with lapStartedNs := none, emittedThisLap := 0 })
  else
    let lapStartedNs := p.lapStartedNs.getD nowNs
    let due := min (p.debt lapStartedNs nowNs published) ceiling
    if published ≤ p.emittedThisLap + due then
      -- the next lap starts where this one was due to end, or now
      let scheduled := min (lapStartedNs + p.schedule.lapNs) U64_MAX
      (due, { p with
        lapStartedNs := some (if nowNs < scheduled then scheduled else nowNs)
        emittedThisLap := 0
        laps := p.laps + 1 })
    else
      (due, { p with
        lapStartedNs := some lapStartedNs
        emittedThisLap := p.emittedThisLap + due })

end DefinitionPacer

/-! ## What a tick's datagrams hold -/

/-- Entries of these sizes go out in at most `datagrams` datagrams, in this order.  The first entry
may be larger than a datagram's payload, and has a datagram to itself then. -/
def PacksInto (payload datagrams : ℕ) (sizes : List ℕ) : Prop :=
  ∃ groups : List (List ℕ), groups.flatten = sizes ∧ groups.length ≤ datagrams ∧
    ∀ i group, groups[i]? = some group → group.sum ≤ payload ∨ i = 0 ∧ group.length = 1

/-- A room after the entries of these sizes: the datagrams that are full, and the one that is being
filled. -/
structure TickRoom.Packed (r : TickRoom) (payload datagrams entries : ℕ) (sizes : List ℕ)
    (full : List (List ℕ)) (current : List ℕ) : Prop where
  sizes_eq : full.flatten ++ current = sizes
  count : full.length + r.datagramsLeft + 1 = datagrams
  fit : ∀ i group, full[i]? = some group → group.sum ≤ payload ∨ i = 0 ∧ group.length = 1
  payload_eq : r.payloadPerDatagram = payload
  taken : r.taken = sizes.length
  left : r.entriesLeft + sizes.length = entries
  fresh : sizes = [] → full = []
  room : current.sum + r.room = payload ∨ full = [] ∧ current.length = 1 ∧ r.room = 0

namespace TickRoom.Packed

variable {r r' : TickRoom} {payload datagrams entries size : ℕ} {sizes : List ℕ}
  {full : List (List ℕ)} {current : List ℕ}

theorem fit_snoc (h : r.Packed payload datagrams entries sizes full current) (i : ℕ)
    (group : List ℕ) (hgroup : (full ++ [current])[i]? = some group) :
    group.sum ≤ payload ∨ i = 0 ∧ group.length = 1 := by
  rcases Nat.lt_or_ge i full.length with hlt | hge
  · rw [List.getElem?_append_left hlt] at hgroup
    exact h.fit i group hgroup
  · rw [List.getElem?_append_right hge] at hgroup
    obtain ⟨hzero, hcurrent⟩ : i - full.length = 0 ∧ current = group := by
      rwa [List.getElem?_singleton, Option.ite_none_right_eq_some, Option.some.injEq] at hgroup
    rcases h.room with hsum | ⟨hfull, hone, -⟩
    · exact .inl (by rw [← hcurrent]; omega)
    · rw [hfull, List.length_nil] at hzero
      exact .inr ⟨by omega, hcurrent ▸ hone⟩

theorem fits (h : r.Packed payload datagrams entries sizes full current) :
    PacksInto payload datagrams sizes := by
  refine ⟨full ++ [current], ?_, ?_, h.fit_snoc⟩
  · rw [List.flatten_append, List.flatten_singleton, h.sizes_eq]
  · rw [List.length_append, List.length_singleton, ← h.count]
    omega

/-- One more entry goes into the datagram that is being filled, or into the next one. -/
theorem take (h : r.Packed payload datagrams entries sizes full current) (hsize : 0 < size)
    (htake : r.take size = some r') :
    ∃ full' current', r'.Packed payload datagrams entries (sizes ++ [size]) full' current' := by
  have hlength : (sizes ++ [size]).length = sizes.length + 1 := by
    rw [List.length_append, List.length_singleton]
  have hsizes := h.sizes_eq
  have hcount := h.count
  have htaken := h.taken
  have hleft := h.left
  have hroom := h.room
  have hne : sizes ++ [size] ≠ [] := List.append_ne_nil_of_right_ne_nil _ (List.cons_ne_nil _ _)
  rw [TickRoom.take] at htake
  split at htake
  next => cases htake
  next hentries =>
      dsimp only at htake
      split at htake
      next hlarge =>
          split at htake
          next hfirst =>
              -- the first entry is larger than the datagram
              obtain rfl := Option.some.inj htake
              obtain rfl : sizes = [] := List.eq_nil_of_length_eq_zero (htaken.symm.trans hfirst)
              obtain rfl := h.fresh rfl
              refine ⟨[], [size], rfl, hcount, h.fit, h.payload_eq, ?_, ?_, fun h ↦ absurd h hne, ?_⟩
              · rw [hlength, ← htaken]
              · rw [hlength]
                dsimp only
                omega
              · exact .inr ⟨rfl, rfl, Nat.sub_self size⟩
          next hlater =>
              split at htake
              next => cases htake
              next hnext =>
                  obtain rfl := Option.some.inj htake
                  rw [not_or, Nat.not_lt, h.payload_eq] at hnext
                  refine ⟨full ++ [current], [size], ?_, ?_, h.fit_snoc, h.payload_eq, ?_, ?_,
                    fun h ↦ absurd h hne, ?_⟩
                  · rw [List.flatten_append, List.flatten_singleton, hsizes]
                  · rw [List.length_append, List.length_singleton]
                    dsimp only
                    omega
                  · rw [hlength, ← htaken]
                  · rw [hlength]
                    dsimp only
                    omega
                  · rw [List.sum_singleton, h.payload_eq]
                    exact .inl (Nat.add_sub_cancel' hnext.2)
      next hsmall =>
          obtain rfl := Option.some.inj htake
          refine ⟨full, current ++ [size], ?_, hcount, h.fit, h.payload_eq, ?_, ?_,
            fun h ↦ absurd h hne, ?_⟩
          · rw [← List.append_assoc, hsizes]
          · rw [hlength, ← htaken]
          · rw [hlength]
            dsimp only
            omega
          · rcases hroom with hsum | ⟨-, -, hzero⟩
            · rw [List.sum_append, List.sum_singleton]
              exact .inl (by dsimp only; omega)
            · omega

end TickRoom.Packed

namespace CycleSchedule

variable (s : CycleSchedule)

theorem maxDefinitionsPerTick_pos : 0 < s.maxDefinitionsPerTick :=
  Nat.lt_min.mpr ⟨Nat.mul_pos s.holds_definition s.sends_datagram, by decide⟩

theorem packed_roomBehind : (s.roomBehind 0).Packed s.payloadPerDatagram s.maxDatagramsPerTick
    s.maxDefinitionsPerTick [] [] [] where
  sizes_eq := rfl
  count := by
    have := s.sends_datagram
    rw [roomBehind, List.length_nil]
    dsimp only
    omega
  fit i group h := by cases h
  payload_eq := rfl
  taken := rfl
  left := rfl
  fresh := fun _ ↦ rfl
  room := .inl (by rw [roomBehind, List.sum_nil, Nat.zero_add]; rfl)

/-- The first entry of a tick is taken, whatever its size. -/
theorem take_roomBehind (reserved size : ℕ) : ((s.roomBehind reserved).take size).isSome := by
  rw [TickRoom.take, if_neg]
  · split
    · rfl
    · rfl
  · exact Nat.ne_of_gt s.maxDefinitionsPerTick_pos

end CycleSchedule

/-! ## What a pacer owes -/

namespace DefinitionPacer

variable {p : DefinitionPacer} {s now now' n k : ℕ}

theorem dueBy_le : p.dueBy s now n ≤ n := Nat.min_le_right _ _

/-- What is due grows with the clock. -/
theorem dueBy_mono (h : now ≤ now') : p.dueBy s now n ≤ p.dueBy s now' n := by
  have helapsed : min (now - s) p.schedule.lapNs ≤ min (now' - s) p.schedule.lapNs := by omega
  have hmul := Nat.mul_le_mul_right n helapsed
  have hdiv : (min (now - s) p.schedule.lapNs * n + p.schedule.lapNs - 1) / p.schedule.lapNs ≤
      (min (now' - s) p.schedule.lapNs * n + p.schedule.lapNs - 1) / p.schedule.lapNs :=
    Nat.div_le_div_right (by omega)
  simp only [dueBy]
  omega

/-- What a pacer is behind with, the cap of a tick apart. -/
def behind (p : DefinitionPacer) (now n : ℕ) : ℕ :=
  match p.lapStartedNs with
  | some s => p.dueBy s now n - p.emittedThisLap
  | none => 0

theorem behind_mono (h : now ≤ now') : p.behind now n ≤ p.behind now' n := by
  rw [behind, behind]
  cases p.lapStartedNs with
  | none => exact Nat.le_refl 0
  | some s => exact Nat.sub_le_sub_right (dueBy_mono h) _

theorem owed_eq (hn : 0 < n) :
    p.owed now n = min (p.behind now n) p.schedule.maxDefinitionsPerTick := by
  rw [owed, behind]
  cases p.lapStartedNs with
  | none => exact (Nat.zero_min _).symm
  | some s => exact if_pos hn

/-- Taking what is owed moves the count of a lap on, and the count of laps where one is complete. -/
theorem dueAtMost_owed (hn : 0 < n) (hk : k ≤ p.owed now n) :
    (p.dueAtMost now n k).2.laps * n + (p.dueAtMost now n k).2.emittedThisLap =
        p.laps * n + (min p.emittedThisLap n + k) ∧
      (p.dueAtMost now n k).2.emittedThisLap < n ∧
      (p.dueAtMost now n k).2.schedule = p.schedule := by
  rw [owed_eq hn] at hk
  have hbehind : k ≤ n - p.emittedThisLap := by
    refine (hk.trans (Nat.min_le_left _ _)).trans ?_
    rw [behind]
    cases p.lapStartedNs with
    | none => exact Nat.zero_le _
    | some s => exact Nat.sub_le_sub_right dueBy_le _
  have hdue : min (p.debt (p.lapStartedNs.getD now) now n) k = k := by
    refine Nat.min_eq_right ?_
    rw [behind] at hk
    rw [debt]
    cases hs : p.lapStartedNs with
    | none =>
        rw [hs] at hk
        exact (hk.trans (Nat.min_le_left _ _)).trans (Nat.zero_le _)
    | some s =>
        rw [hs] at hk
        exact hk
  rw [dueAtMost, if_neg (Nat.ne_of_gt hn)]
  simp only [hdue]
  split
  next hcomplete =>
      refine ⟨?_, hn, rfl⟩
      rw [Nat.succ_mul]
      dsimp only
      omega
  next hopen => exact ⟨by dsimp only; omega, Nat.lt_of_not_le hopen, rfl⟩

/-- A lap that goes on keeps its start. -/
theorem dueAtMost_open (hn : 0 < n) (hs : p.lapStartedNs = some s) (hk : k ≤ p.owed now n)
    (hopen : p.emittedThisLap + k < n) :
    (p.dueAtMost now n k).2.lapStartedNs = some s ∧
      (p.dueAtMost now n k).2.emittedThisLap = p.emittedThisLap + k := by
  have hdue : min (p.debt s now n) k = k := by
    rw [owed, hs] at hk
    exact Nat.min_eq_right (hk.trans_eq (if_pos hn))
  rw [dueAtMost, if_neg (Nat.ne_of_gt hn)]
  simp only [hs, Option.getD_some, hdue]
  rw [if_neg (Nat.not_le.mpr hopen)]
  exact ⟨rfl, rfl⟩

end DefinitionPacer

end EdgeMulticast.Refdata
