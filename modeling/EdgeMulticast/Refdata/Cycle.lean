import EdgeMulticast.Lib.Cursor
import EdgeMulticast.Lib.Run
import EdgeMulticast.Refdata.Published
import Mathlib.Data.List.Forall2
import Mathlib.Data.List.Rotate

/-!
# The definition cycle

What ticks hand out over a published set that does not change.  `Walked` is what a walk over the
slots keeps: it meets the instruments of its shard in the order of their slots, and packs them into
the datagrams of one tick.  `tick_spec` is what one tick does, and `definition_cycle` what a run
of ticks does.
-/

namespace EdgeMulticast.Refdata

open EdgeMulticast.Lib
open EdgeMulticast.Codec

/-- The instruments of a shard are in the slots `S`. -/
def InSlots (shard : ℕ) (S : List ℕ) (slots : List (Option Published)) : Prop :=
  ∀ i, (∃ entry, slotAt slots i = some entry ∧ entry.shard = shard) ↔ i ∈ S

/-- What is handed out from these slots at the places `first`, `first + 1`, … of a cycle. -/
def InOrder (S : List ℕ) (first : ℕ) (slots : List (Option Published)) (manifestSeq : UInt16)
    (out : List PublishedDefinition) : Prop :=
  ∀ i d, out[i]? = some d → ∃ slot entry, S[(first + i) % S.length]? = some slot ∧
    slotAt slots slot = some entry ∧ d = entry.handedOut manifestSeq

variable {shard owed : ℕ} {S : List ℕ} {slots : List (Option Published)} {manifestSeq : UInt16}
  {schedule : CycleSchedule} {c₀ : ℕ} {w : Walk}

/-- What a slot holds, as far as a tick reads it. -/
def view (manifestSeq : UInt16) (slots : List (Option Published)) (i : ℕ) :
    Option (ℕ × PublishedDefinition) :=
  (slotAt slots i).map fun entry ↦ (entry.shard, entry.handedOut manifestSeq)

/-- A walk from the cursor `c₀` over these slots. -/
structure Walked (shard owed : ℕ) (S : List ℕ) (slots : List (Option Published))
    (manifestSeq : UInt16) (schedule : CycleSchedule) (c₀ : ℕ) (w : Walk) : Prop where
  length_eq : w.slots.length = slots.length
  inside : w.cursor < slots.length
  same : ∀ i, view manifestSeq w.slots i = view manifestSeq slots i
  turn_eq : turn S w.cursor = (turn S c₀ + w.out.length) % S.length
  order : InOrder S (turn S c₀) slots manifestSeq w.out
  packed : ∃ full current, w.room.Packed schedule.payloadPerDatagram schedule.maxDatagramsPerTick
    schedule.maxDefinitionsPerTick (w.out.map PublishedDefinition.wireSize) full current
  atMost : w.out.length ≤ owed

theorem wireSize_pos (b : Bool) : 0 < wireSize b := by
  cases b <;> decide

namespace Walked

theorem start (hc : c₀ < slots.length) : Walked shard owed S slots manifestSeq schedule c₀
    { cursor := c₀, room := schedule.roomBehind 0, slots } where
  length_eq := rfl
  inside := hc
  same _ := rfl
  turn_eq := (Nat.mod_mod _ _).symm
  order i d h := by cases h
  packed := ⟨[], [], schedule.packed_roomBehind⟩
  atMost := Nat.zero_le _

theorem inSlots (h : Walked shard owed S slots manifestSeq schedule c₀ w)
    (hslots : InSlots shard S slots) : InSlots shard S w.slots := by
  intro i
  rw [← hslots i]
  have hview := h.same i
  rw [view, view] at hview
  constructor
  · rintro ⟨entry, hentry, rfl⟩
    rw [hentry, Option.map_some] at hview
    obtain ⟨entry', hentry', heq⟩ := Option.map_eq_some_iff.mp hview.symm
    exact ⟨entry', hentry', (Prod.mk.inj heq).1⟩
  · rintro ⟨entry, hentry, rfl⟩
    rw [hentry, Option.map_some] at hview
    obtain ⟨entry', hentry', heq⟩ := Option.map_eq_some_iff.mp hview
    exact ⟨entry', hentry', (Prod.mk.inj heq).1⟩

theorem marked_lt (hslots : InSlots shard S slots) {i : ℕ} (hi : i ∈ S) : i < slots.length := by
  obtain ⟨entry, hentry, -⟩ := (hslots i).mpr hi
  exact lt_of_slotAt hentry

/-- A slot that holds nothing of the shard is passed. -/
theorem skip (h : Walked shard owed S slots manifestSeq schedule c₀ w)
    (hslots : InSlots shard S slots)
    (hnone : ∀ entry, slotAt w.slots w.cursor = some entry → entry.shard ≠ shard) :
    Walked shard owed S slots manifestSeq schedule c₀ w.pass where
  length_eq := h.length_eq
  inside := by
    rw [Walk.pass, h.length_eq]
    exact Nat.mod_lt _ (Nat.zero_lt_of_lt h.inside)
  same := h.same
  turn_eq := by
    have hnotMem : w.cursor ∉ S := by
      intro hmem
      obtain ⟨entry, hentry, hshard⟩ := (h.inSlots hslots w.cursor).mpr hmem
      exact hnone entry hentry hshard
    rw [Walk.pass, h.length_eq, turn_skip (fun i hi ↦ marked_lt hslots hi) h.inside hnotMem]
    exact h.turn_eq
  order := h.order
  packed := h.packed
  atMost := h.atMost

/-- An instrument of the shard is handed out, in its turn. -/
theorem take (h : Walked shard owed S slots manifestSeq schedule c₀ w)
    (hS : S.Pairwise (· < ·)) (hslots : InSlots shard S slots) (howed : w.out.length ≠ owed)
    {entry : Published} (hentry : slotAt w.slots w.cursor = some entry)
    (hshard : entry.shard = shard) {room : TickRoom}
    (hroom : w.room.take (wireSize entry.strike.isSome) = some room) :
    Walked shard owed S slots manifestSeq schedule c₀ (w.give entry room manifestSeq) := by
  have hmem : w.cursor ∈ S := (h.inSlots hslots w.cursor).mp ⟨entry, hentry, hshard⟩
  obtain ⟨hplace, hnext⟩ := turn_meet hS (fun i hi ↦ marked_lt hslots hi) h.inside hmem
  have hview := h.same w.cursor
  rw [view, view, hentry, Option.map_some] at hview
  obtain ⟨entry', hentry', heq⟩ := Option.map_eq_some_iff.mp hview.symm
  constructor
  · exact List.length_set.trans h.length_eq
  · rw [Walk.give, h.length_eq]
    exact Nat.mod_lt _ (Nat.zero_lt_of_lt h.inside)
  · intro i
    rw [← h.same i, view, view, Walk.give, slotAt_set _ _ _ _ (lt_of_slotAt hentry)]
    split
    next hi => rw [hi, hentry]; rfl
    next => rfl
  · rw [Walk.give, h.length_eq, hnext, h.turn_eq, List.length_append, List.length_singleton, Nat.mod_add_mod,
      Nat.add_assoc]
  · intro i d hd
    rw [Walk.give] at hd
    rcases Nat.lt_or_ge i w.out.length with hlt | hge
    · rw [List.getElem?_append_left hlt] at hd
      exact h.order i d hd
    · rw [List.getElem?_append_right hge, List.getElem?_singleton, Option.ite_none_right_eq_some,
        Option.some.injEq] at hd
      obtain ⟨hi, rfl⟩ := hd
      obtain rfl : i = w.out.length := by omega
      refine ⟨w.cursor, entry', ?_, hentry', (Prod.mk.inj heq).2.symm⟩
      rw [← h.turn_eq]
      exact hplace
  · obtain ⟨full, current, hpacked⟩ := h.packed
    obtain ⟨full', current', hpacked'⟩ := hpacked.take (wireSize_pos _) hroom
    rw [Walk.give, List.map_append]
    exact ⟨full', current', hpacked'⟩
  · rw [Walk.give, List.length_append, List.length_singleton]
    exact Nat.lt_of_le_of_ne h.atMost howed

end Walked

/-! ## Laps of a walk -/

theorem lap_walked (hS : S.Pairwise (· < ·)) (hslots : InSlots shard S slots) (places : ℕ)
    (h : Walked shard owed S slots manifestSeq schedule c₀ w) :
    Walked shard owed S slots manifestSeq schedule c₀ (w.lap shard owed manifestSeq places) := by
  induction places generalizing w with
  | zero => exact h
  | succ places ih =>
      rw [Walk.lap]
      split
      · exact h
      next howed =>
          split
          next hnone => exact ih (h.skip hslots fun entry hentry ↦ by cases hnone.symm.trans hentry)
          next entry hentry =>
              split
              next hshard =>
                  split
                  next hfull => exact { h with }
                  next room hroom => exact ih (h.take hS hslots howed hentry hshard hroom)
              next hshard =>
                  refine ih (h.skip hslots fun entry' hentry' ↦ ?_)
                  obtain rfl := Option.some.inj (hentry.symm.trans hentry')
                  exact hshard

/-- A lap only adds to what is handed out. -/
theorem lap_isPrefix (shard owed : ℕ) (manifestSeq : UInt16) (places : ℕ) (w : Walk) :
    w.out <+: (w.lap shard owed manifestSeq places).out := by
  induction places generalizing w with
  | zero => exact List.prefix_refl _
  | succ places ih =>
      rw [Walk.lap]
      split
      · exact List.prefix_refl _
      · split
        · exact ih w.pass
        · split
          · split
            · exact List.prefix_refl _
            · exact (List.prefix_append _ _).trans (ih (w.give _ _ manifestSeq))
          · exact ih w.pass

/-- A walk that has handed out nothing, and is owed something, hands out the first instrument of
its shard that it comes to. -/
theorem lap_ne_nil (hslots : InSlots shard S slots) (howed : owed ≠ 0) (places : ℕ)
    (h : Walked shard owed S slots manifestSeq schedule c₀ w) (hout : w.out = [])
    (hroom : w.room = schedule.roomBehind 0)
    (hmarked : ∃ k < places, (w.cursor + k) % slots.length ∈ S) :
    (w.lap shard owed manifestSeq places).out ≠ [] := by
  induction places generalizing w with
  | zero =>
      obtain ⟨k, hk, -⟩ := hmarked
      exact absurd hk (Nat.not_lt_zero k)
  | succ places ih =>
      have hlater (hnot : w.cursor ∉ S) : ∃ k < places,
          ((w.cursor + 1) % slots.length + k) % slots.length ∈ S := by
        obtain ⟨k, hk, hmem⟩ := hmarked
        cases k with
        | zero =>
            rw [Nat.add_zero, Nat.mod_eq_of_lt h.inside] at hmem
            exact absurd hmem hnot
        | succ k =>
            refine ⟨k, Nat.lt_of_succ_lt_succ hk, ?_⟩
            rwa [Nat.mod_add_mod, Nat.add_assoc, Nat.add_comm 1 k]
      have hskip (hnone : ∀ entry, slotAt w.slots w.cursor = some entry → entry.shard ≠ shard) :
          (w.pass.lap shard owed manifestSeq places).out ≠ [] := by
        refine ih (h.skip hslots hnone) hout hroom ?_
        rw [Walk.pass, h.length_eq]
        refine hlater fun hmem ↦ ?_
        obtain ⟨entry, hentry, hshard⟩ := (h.inSlots hslots w.cursor).mpr hmem
        exact hnone entry hentry hshard
      rw [Walk.lap, if_neg (by rw [hout]; exact howed.symm)]
      split
      next hnone => exact hskip fun entry hentry ↦ by cases hnone.symm.trans hentry
      next entry hentry =>
          split
          next hshard =>
              split
              next hfull =>
                  have htake := schedule.take_roomBehind 0 (wireSize entry.strike.isSome)
                  rw [← hroom, hfull] at htake
                  cases htake
              next room _ =>
                  intro hnil
                  have hprefix := lap_isPrefix shard owed manifestSeq places
                    (w.give entry room manifestSeq)
                  rw [hnil, List.prefix_nil] at hprefix
                  exact absurd hprefix (List.append_ne_nil_of_right_ne_nil _ (List.cons_ne_nil _ _))
          next hshard =>
              refine hskip fun entry' hentry' ↦ ?_
              obtain rfl := Option.some.inj (hentry.symm.trans hentry')
              exact hshard

theorem laps_walked (hS : S.Pairwise (· < ·)) (hslots : InSlots shard S slots) (fuel : ℕ)
    (h : Walked shard owed S slots manifestSeq schedule c₀ w) :
    Walked shard owed S slots manifestSeq schedule c₀ (w.laps shard owed manifestSeq fuel) := by
  induction fuel generalizing w with
  | zero => exact h
  | succ fuel ih =>
      have hlap := lap_walked hS hslots w.slots.length h
      rw [Walk.laps]
      split
      · dsimp only
        split
        · exact hlap
        · exact ih hlap
      · exact h

theorem laps_prefix (shard owed : ℕ) (manifestSeq : UInt16) (fuel : ℕ) (w : Walk) :
    w.out <+: (w.laps shard owed manifestSeq fuel).out := by
  induction fuel generalizing w with
  | zero => exact List.prefix_refl _
  | succ fuel ih =>
      rw [Walk.laps]
      split
      · dsimp only
        split
        · exact lap_isPrefix shard owed manifestSeq _ w
        · exact (lap_isPrefix shard owed manifestSeq _ w).trans (ih _)
      · exact List.prefix_refl _

/-! ## One tick -/

variable {set : PublishedSet} {nowNs : ℕ}

/-- What a tick of a shard does, when its instruments are in the slots `S`. -/
structure TickSpec (S : List ℕ) (set : PublishedSet) (nowNs : ℕ) (slots : List (Option Published))
    (out : List PublishedDefinition) (set' : PublishedSet) : Prop where
  atMost : out.length ≤ set.pacer.owed nowNs set.published
  progress : set.pacer.owed nowNs set.published ≠ 0 → out ≠ []
  order : InOrder S (turn S set.cursor) slots set.manifestSeq out
  fits : PacksInto set.pacer.schedule.payloadPerDatagram set.pacer.schedule.maxDatagramsPerTick
    (out.map PublishedDefinition.wireSize)
  turn_eq : turn S set'.cursor = (turn S set.cursor + out.length) % S.length
  inside : set'.cursor < slots.length
  pacer : set'.pacer = (set.pacer.dueAtMost nowNs set.published out.length).2
  published : set'.published = set.published

theorem tick_spec (hS : S.Pairwise (· < ·)) (hne : S ≠ []) (hslots : InSlots shard S slots)
    (hcursor : set.cursor < slots.length) :
    TickSpec S set nowNs slots (set.tick shard nowNs slots).1 (set.tick shard nowNs slots).2.1 := by
  rw [PublishedSet.tick]
  dsimp only
  split
  next hnothing =>
      exact {
        atMost := Nat.zero_le _
        progress := fun h ↦ absurd hnothing h
        order := fun i d h ↦ by cases h
        fits := ⟨[], rfl, Nat.zero_le _, fun i group h ↦ by cases h⟩
        turn_eq := (Nat.mod_mod _ _).symm
        inside := hcursor
        pacer := rfl
        published := rfl }
  next howed =>
      have hstart : Walked shard (set.pacer.owed nowNs set.published) S slots set.manifestSeq
          set.pacer.schedule set.cursor
          { cursor := set.cursor, room := set.pacer.schedule.roomBehind 0, slots } :=
        .start hcursor
      have hwalked := laps_walked hS hslots (set.pacer.owed nowNs set.published + 1) hstart
      obtain ⟨full, current, hpacked⟩ := hwalked.packed
      have hprogress : (Walk.laps shard (set.pacer.owed nowNs set.published) set.manifestSeq
          (set.pacer.owed nowNs set.published + 1)
          { cursor := set.cursor, room := set.pacer.schedule.roomBehind 0, slots }).out ≠ [] := by
        obtain ⟨slot, hslot⟩ := List.exists_mem_of_ne_nil S hne
        obtain ⟨k, hk, hplace⟩ := exists_step hcursor (Walked.marked_lt hslots hslot)
        have hfirst := lap_ne_nil hslots howed slots.length hstart rfl rfl ⟨k, hk, hplace ▸ hslot⟩
        rw [Walk.laps, if_pos ⟨Nat.pos_of_ne_zero howed, rfl⟩]
        dsimp only
        rw [List.length_nil, if_neg (mt List.eq_nil_of_length_eq_zero hfirst)]
        intro hnil
        have hprefix := laps_prefix shard (set.pacer.owed nowNs set.published) set.manifestSeq
          (set.pacer.owed nowNs set.published) (Walk.lap shard (set.pacer.owed nowNs set.published)
            set.manifestSeq slots.length
            { cursor := set.cursor, room := set.pacer.schedule.roomBehind 0, slots })
        rw [hnil, List.prefix_nil] at hprefix
        exact hfirst hprefix
      exact {
        atMost := hwalked.atMost
        progress := fun _ ↦ hprogress
        order := hwalked.order
        fits := hpacked.fits
        turn_eq := hwalked.turn_eq
        inside := hwalked.inside
        pacer := rfl
        published := rfl }

/-! ## A run of ticks -/

/-- A tick of a shard: the clock, its Manifest Seq and the slots of the process then. -/
structure TickCall where
  nowNs : ℕ
  manifestSeq : UInt16
  slots : List (Option Published)

namespace PublishedSet

/-- What a tick finds. -/
def found (set : PublishedSet) (t : TickCall) : PublishedSet :=
  { set with manifestSeq := t.manifestSeq }

/-- What a tick hands out. -/
def out (set : PublishedSet) (shard : ℕ) (t : TickCall) : List PublishedDefinition :=
  ((set.found t).tick shard t.nowNs t.slots).1

def next (set : PublishedSet) (shard : ℕ) (t : TickCall) : PublishedSet :=
  ((set.found t).tick shard t.nowNs t.slots).2.1

def afterTicks (set : PublishedSet) (shard : ℕ) (ticks : List TickCall) : PublishedSet :=
  run (fun set t ↦ set.next shard t) set ticks

theorem afterTicks_cons (set : PublishedSet) (shard : ℕ) (t : TickCall) (ticks : List TickCall) :
    set.afterTicks shard (t :: ticks) = (set.next shard t).afterTicks shard ticks := rfl

theorem afterTicks_snoc (set : PublishedSet) (shard : ℕ) (ticks : List TickCall) (t : TickCall) :
    set.afterTicks shard (ticks ++ [t]) = (set.afterTicks shard ticks).next shard t :=
  run_snoc _ _ _ _

/-- What the ticks of a run hand out, each entry with the tick that does. -/
def handed (shard : ℕ) : PublishedSet → List TickCall → List (TickCall × PublishedDefinition)
  | _, [] => []
  | set, t :: ticks => ((set.out shard t).map fun d ↦ (t, d)) ++ handed shard (set.next shard t) ticks

end PublishedSet

/-- Ticks at times that do not go back, while the instruments of the shard are those in the slots
`S`.  What else the slots hold may change, and slots may be added. -/
structure Constant (shard : ℕ) (S : List ℕ) (set : PublishedSet) (ticks : List TickCall) : Prop where
  ordered : S.Pairwise (· < ·)
  nonempty : S ≠ []
  published : set.published = S.length
  inside : ∀ t ∈ ticks, set.cursor < t.slots.length
  steady : ∀ t ∈ ticks, InSlots shard S t.slots
  growing : ticks.Pairwise (·.slots.length ≤ ·.slots.length)
  times : ticks.Pairwise (·.nowNs ≤ ·.nowNs)

/-- An entry that a tick hands out is what the slot holds then. -/
def HandedFrom (slot : ℕ) (entry : TickCall × PublishedDefinition) : Prop :=
  ∃ published, slotAt entry.1.slots slot = some published ∧
    entry.2 = published.handedOut entry.1.manifestSeq

namespace Constant

variable {t : TickCall} {ticks : List TickCall}

theorem length_pos (h : Constant shard S set ticks) : 0 < S.length :=
  List.length_pos_iff.mpr h.nonempty

theorem spec (h : Constant shard S set (t :: ticks)) :
    TickSpec S (set.found t) t.nowNs t.slots (set.out shard t) (set.next shard t) :=
  tick_spec h.ordered h.nonempty (h.steady t List.mem_cons_self) (h.inside t List.mem_cons_self)

theorem atMost (h : Constant shard S set (t :: ticks)) :
    (set.out shard t).length ≤ set.pacer.owed t.nowNs S.length := by
  rw [← h.published]
  exact h.spec.atMost

theorem pacer_eq (h : Constant shard S set (t :: ticks)) : (set.next shard t).pacer =
    (set.pacer.dueAtMost t.nowNs S.length (set.out shard t).length).2 := by
  rw [← h.published]
  exact h.spec.pacer

theorem pacer_next (h : Constant shard S set (t :: ticks)) :
    (set.next shard t).pacer.laps * S.length + (set.next shard t).pacer.emittedThisLap =
        set.pacer.laps * S.length +
          (min set.pacer.emittedThisLap S.length + (set.out shard t).length) ∧
      (set.next shard t).pacer.emittedThisLap < S.length ∧
      (set.next shard t).pacer.schedule = set.pacer.schedule := by
  rw [h.pacer_eq]
  exact DefinitionPacer.dueAtMost_owed h.length_pos h.atMost

theorem tail (h : Constant shard S set (t :: ticks)) :
    Constant shard S (set.next shard t) ticks where
  ordered := h.ordered
  nonempty := h.nonempty
  published := h.spec.published.trans h.published
  inside b hb := h.spec.inside.trans_le ((List.pairwise_cons.mp h.growing).1 b hb)
  steady b hb := h.steady b (List.mem_cons_of_mem t hb)
  growing := (List.pairwise_cons.mp h.growing).2
  times := (List.pairwise_cons.mp h.times).2

theorem after {pre : List TickCall} (h : Constant shard S set (pre ++ ticks)) :
    Constant shard S (set.afterTicks shard pre) ticks := by
  induction pre generalizing set with
  | nil => exact h
  | cons t pre ih => exact ih h.tail

theorem schedule_after (h : Constant shard S set ticks) :
    (set.afterTicks shard ticks).pacer.schedule = set.pacer.schedule := by
  induction ticks generalizing set with
  | nil => rfl
  | cons t ticks ih => exact (ih h.tail).trans h.pacer_next.2.2

/-- The part of a run that has been taken. -/
theorem taken {pre : List TickCall} (h : Constant shard S set ticks) (hpre : pre <+: ticks) :
    Constant shard S set pre where
  ordered := h.ordered
  nonempty := h.nonempty
  published := h.published
  inside b hb := h.inside b (hpre.subset hb)
  steady b hb := h.steady b (hpre.subset hb)
  growing := h.growing.sublist hpre.sublist
  times := h.times.sublist hpre.sublist

/-- The instruments of a run come round in the order of their slots. -/
theorem handed_in_order (h : Constant shard S set ticks) (i : ℕ)
    (entry : TickCall × PublishedDefinition) (hi : (set.handed shard ticks)[i]? = some entry) :
    ∃ slot, S[(turn S set.cursor + i) % S.length]? = some slot ∧ HandedFrom slot entry := by
  induction ticks generalizing set i with
  | nil => cases hi
  | cons t ticks ih =>
      have hspec := h.spec
      rw [PublishedSet.handed] at hi
      rcases Nat.lt_or_ge i ((set.out shard t).map fun d ↦ (t, d)).length with hlt | hge
      · rw [List.getElem?_append_left hlt, List.getElem?_map, Option.map_eq_some_iff] at hi
        obtain ⟨d, hd, rfl⟩ := hi
        obtain ⟨slot, published, hslot, hheld, heq⟩ := hspec.order i d hd
        exact ⟨slot, hslot, published, hheld, heq⟩
      · rw [List.getElem?_append_right hge] at hi
        obtain ⟨slot, hslot, hfrom⟩ := ih h.tail _ hi
        rw [hspec.turn_eq, Nat.mod_add_mod, Nat.add_assoc] at hslot
        rw [List.length_map] at hge hslot
        rw [Nat.add_sub_cancel' hge] at hslot
        exact ⟨slot, hslot, hfrom⟩

/-- Every complete block of a run hands out each instrument of the shard once, in the order of
their slots from the one the run starts at. -/
theorem block (h : Constant shard S set ticks) (b : ℕ)
    (hb : (b + 1) * S.length ≤ (set.handed shard ticks).length) :
    List.Forall₂ HandedFrom (S.rotate (turn S set.cursor))
      (((set.handed shard ticks).drop (b * S.length)).take S.length) := by
  rw [Nat.succ_mul] at hb
  have hlength : (((set.handed shard ticks).drop (b * S.length)).take S.length).length =
      S.length := by
    rw [List.length_take, List.length_drop]
    omega
  rw [List.forall₂_iff_get]
  refine ⟨(List.length_rotate _ _).trans hlength.symm, fun i hi hi' ↦ ?_⟩
  rw [List.length_rotate] at hi
  obtain ⟨slot, hslot, hfrom⟩ := h.handed_in_order (b * S.length + i) _
    (List.getElem?_eq_getElem (by omega))
  have hplace : (turn S set.cursor + (b * S.length + i)) % S.length =
      (i + turn S set.cursor) % S.length := by
    rw [← Nat.add_assoc, Nat.add_right_comm, Nat.add_mul_mod_self_right, Nat.add_comm]
  rw [hplace, List.getElem?_eq_some_iff] at hslot
  obtain ⟨hinside, rfl⟩ := hslot
  rw [List.get_eq_getElem, List.getElem_rotate, List.get_eq_getElem, List.getElem_take,
    List.getElem_drop]
  exact hfrom

theorem count_eq (h : Constant shard S set ticks) (hopen : set.pacer.emittedThisLap < S.length) :
    (set.afterTicks shard ticks).pacer.laps * S.length +
        (set.afterTicks shard ticks).pacer.emittedThisLap =
      set.pacer.laps * S.length +
        (set.pacer.emittedThisLap + (set.handed shard ticks).length) ∧
      (set.afterTicks shard ticks).pacer.emittedThisLap < S.length := by
  induction ticks generalizing set with
  | nil => exact ⟨rfl, hopen⟩
  | cons t ticks ih =>
      obtain ⟨hnext, hlt, -⟩ := h.pacer_next
      obtain ⟨hcount, hend⟩ := ih h.tail hlt
      refine ⟨hcount.trans ?_, hend⟩
      rw [PublishedSet.handed, List.length_append, List.length_map]
      omega

/-- The pacer counts the complete blocks.  A lap that is longer than the set is complete at the
first tick. -/
theorem laps_eq (h : Constant shard S set ticks) (hticks : ticks ≠ []) :
    (set.afterTicks shard ticks).pacer.laps = set.pacer.laps +
      (min set.pacer.emittedThisLap S.length + (set.handed shard ticks).length) / S.length := by
  cases ticks with
  | nil => exact absurd rfl hticks
  | cons t ticks =>
      obtain ⟨hnext, hlt, -⟩ := h.pacer_next
      obtain ⟨hcount, hend⟩ := h.tail.count_eq hlt
      rw [PublishedSet.afterTicks_cons]
      have htotal : ((set.next shard t).afterTicks shard ticks).pacer.emittedThisLap +
          ((set.next shard t).afterTicks shard ticks).pacer.laps * S.length =
          (min set.pacer.emittedThisLap S.length + (set.handed shard (t :: ticks)).length) +
            set.pacer.laps * S.length := by
        rw [PublishedSet.handed, List.length_append, List.length_map]
        omega
      have hdiv := congrArg (· / S.length) htotal
      rwa [Nat.add_mul_div_right _ _ h.length_pos, Nat.add_mul_div_right _ _ h.length_pos,
        Nat.div_eq_of_lt hend, Nat.zero_add, Nat.add_comm] at hdiv

/-- A lap that a tick leaves open goes on behind what the tick handed out. -/
theorem behind_next (h : Constant shard S set (t :: ticks)) {behind : ℕ}
    (hbehind : behind ≤ set.pacer.behind t.nowNs S.length)
    (hmore : (set.out shard t).length < behind) :
    behind - (set.out shard t).length ≤ (set.next shard t).pacer.behind t.nowNs S.length := by
  rw [DefinitionPacer.behind] at hbehind
  cases hlap : set.pacer.lapStartedNs with
  | none =>
      rw [hlap] at hbehind
      exact absurd (hmore.trans_le hbehind) (Nat.not_lt_zero _)
  | some s =>
      rw [hlap] at hbehind
      dsimp only at hbehind
      have hdue : set.pacer.dueBy s t.nowNs S.length ≤ S.length := DefinitionPacer.dueBy_le
      have hsame : (set.next shard t).pacer.dueBy s t.nowNs S.length =
          set.pacer.dueBy s t.nowNs S.length := by
        rw [DefinitionPacer.dueBy, DefinitionPacer.dueBy, h.pacer_next.2.2]
      obtain ⟨hstart, hemitted⟩ := DefinitionPacer.dueAtMost_open h.length_pos hlap h.atMost
        (by omega)
      rw [← h.pacer_eq] at hstart hemitted
      rw [DefinitionPacer.behind, hstart, hemitted]
      dsimp only
      rw [hsame]
      omega

/-- A tick that finds the pacer behind hands out something. -/
theorem out_pos (h : Constant shard S set (t :: ticks))
    (hbehind : 0 < set.pacer.behind t.nowNs S.length) : 0 < (set.out shard t).length := by
  have hprogress := h.spec.progress
  rw [show (set.found t).published = S.length from h.published,
    DefinitionPacer.owed_eq h.length_pos] at hprogress
  refine List.length_pos_iff.mpr (hprogress (Nat.ne_of_gt ?_))
  exact Nat.lt_min.mpr ⟨hbehind, set.pacer.schedule.maxDefinitionsPerTick_pos⟩

/-- What a lap is behind with is handed out, at least one entry a tick. -/
theorem handed_behind (h : Constant shard S set ticks) {n b : ℕ}
    (hnow : ∀ t ∈ ticks, n ≤ t.nowNs) (hbehind : b ≤ set.pacer.behind n S.length) :
    min ticks.length b ≤ (set.handed shard ticks).length := by
  induction ticks generalizing set n b with
  | nil => exact Nat.min_le_left _ _
  | cons t ticks ih =>
      have hgrown := hbehind.trans (DefinitionPacer.behind_mono (hnow t List.mem_cons_self))
      rw [PublishedSet.handed, List.length_append, List.length_map, List.length_cons]
      rcases Nat.lt_or_ge (set.out shard t).length b with hmore | hdone
      · have hone := h.out_pos (Nat.zero_lt_of_lt (hmore.trans_le hgrown))
        have hrest := ih h.tail (List.pairwise_cons.mp h.times).1 (h.behind_next hgrown hmore)
        omega
      · omega

end Constant

/-! ## The cycle -/

/-- Over a set of instruments that stays, every complete block of what the ticks of a shard hand
out is each of them once, in the order of their slots, and an incomplete one begins so.  A tick
hands out no more than its caps allow, later ticks hand out what they held back, and the pacer
counts the complete blocks. -/
theorem definition_cycle {ticks : List TickCall} (h : Constant shard S set ticks) :
    (∀ b, (b + 1) * S.length ≤ (set.handed shard ticks).length →
      List.Forall₂ HandedFrom (S.rotate (turn S set.cursor))
        (((set.handed shard ticks).drop (b * S.length)).take S.length)) ∧
    (∀ i entry, (set.handed shard ticks)[i]? = some entry →
      ∃ slot, S[(turn S set.cursor + i) % S.length]? = some slot ∧ HandedFrom slot entry) ∧
    (∀ pre t, pre ++ [t] <+: ticks →
      ((set.afterTicks shard pre).out shard t).length ≤
          set.pacer.schedule.maxDefinitionsPerTick ∧
        PacksInto set.pacer.schedule.payloadPerDatagram set.pacer.schedule.maxDatagramsPerTick
          (((set.afterTicks shard pre).out shard t).map PublishedDefinition.wireSize)) ∧
    (∀ pre t later, pre ++ t :: later <+: ticks →
      min later.length ((set.afterTicks shard pre).pacer.behind t.nowNs S.length -
          ((set.afterTicks shard pre).out shard t).length) ≤
        ((set.afterTicks shard (pre ++ [t])).handed shard later).length) ∧
    (ticks ≠ [] → (set.afterTicks shard ticks).pacer.laps = set.pacer.laps +
      (min set.pacer.emittedThisLap S.length + (set.handed shard ticks).length) / S.length) := by
  refine ⟨h.block, h.handed_in_order, ?_, ?_, h.laps_eq⟩
  · intro pre t hpre
    have hschedule := (h.taken ((List.prefix_append pre [t]).trans hpre)).schedule_after
    have hthere := (h.taken hpre).after
    rw [← hschedule]
    refine ⟨hthere.atMost.trans ?_, hthere.spec.fits⟩
    rw [DefinitionPacer.owed_eq hthere.length_pos]
    exact Nat.min_le_right _ _
  · intro pre t later hpre
    have hthere := (h.taken hpre).after
    rw [PublishedSet.afterTicks_snoc]
    rcases Nat.lt_or_ge ((set.afterTicks shard pre).out shard t).length
      ((set.afterTicks shard pre).pacer.behind t.nowNs S.length) with hmore | hdone
    · exact hthere.tail.handed_behind (List.pairwise_cons.mp hthere.times).1
        (hthere.behind_next (Nat.le_refl _) hmore)
    · rw [Nat.sub_eq_zero_of_le hdone, Nat.min_zero]
      exact Nat.zero_le _

/-- Two instruments of one shard, and one of another between them. -/
def exampleSlots : List (Option Published) :=
  let definition : InstrumentDefinition :=
    ⟨1, 1, .replicate 64 0, .replicate 8 0, .replicate 8 0, 0, 0, 0, 0, 1, 1, 1, 0, 0, 0, 1⟩
  [some { shard := 0, definition }, some { shard := 1, definition }, none,
    some { shard := 0, definition }]

def exampleSet : PublishedSet where
  published := 2
  pacer := { schedule := .new 1000 1232 1 }

def exampleTicks : List TickCall := [0, 400, 800].map fun nowNs ↦ ⟨nowNs, 1, exampleSlots⟩

theorem definition_cycle_example :
    List.Forall₂ HandedFrom [0, 3] (exampleSet.handed 0 exampleTicks) ∧
      (exampleSet.afterTicks 0 exampleTicks).pacer.laps = 1 := by
  have hslots : InSlots 0 [0, 3] exampleSlots := by
    intro i
    constructor
    · rintro ⟨entry, hentry, hshard⟩
      have hi := lt_of_slotAt hentry
      have hall : ∀ i < exampleSlots.length,
          (slotAt exampleSlots i).map Published.shard = some 0 → i ∈ [0, 3] := by decide
      exact hall i hi (by rw [hentry, Option.map_some, hshard])
    · intro hi
      have hall : ∀ i ∈ [0, 3], (slotAt exampleSlots i).map Published.shard = some 0 := by decide
      obtain ⟨entry, hentry, hshard⟩ := Option.map_eq_some_iff.mp (hall i hi)
      exact ⟨entry, hentry, hshard⟩
  have hsteady : ∀ t ∈ exampleTicks, t.slots = exampleSlots := by
    intro t ht
    obtain ⟨nowNs, -, rfl⟩ := List.mem_map.mp ht
    rfl
  have h : Constant 0 [0, 3] exampleSet exampleTicks := {
    ordered := by decide
    nonempty := List.cons_ne_nil _ _
    published := rfl
    inside := fun t ht ↦ by rw [hsteady t ht]; decide
    steady := fun t ht ↦ by rw [hsteady t ht]; exact hslots
    growing := by decide
    times := by decide }
  have hlength : (exampleSet.handed 0 exampleTicks).length = 2 := by decide +kernel
  obtain ⟨hblocks, -, -, -, hlaps⟩ := definition_cycle h
  constructor
  · have hblock : List.Forall₂ HandedFrom [0, 3] ((exampleSet.handed 0 exampleTicks).take 2) :=
      hblocks 0 (by rw [hlength]; decide)
    rwa [List.take_of_length_le hlength.le] at hblock
  · rw [hlaps (List.cons_ne_nil _ _), hlength]
    rfl

end EdgeMulticast.Refdata
