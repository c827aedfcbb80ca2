import EdgeMulticast.Lowering.Table
import EdgeMulticast.Refdata.Pacer

/-!
# The published set of a shard

Slots of published instruments, shared by every shard of a process, and what a shard keeps beside
them (`registry.rs`, `dz-publisher-refdata`).  `PublishedSet.tick` is `Registry::definition_tick`:
it walks the slots from where the last tick stopped and hands out the definitions of its shard, as
many as the pacer owes and the datagrams of a tick hold.
-/

namespace EdgeMulticast.Refdata

open EdgeMulticast.Lib
open EdgeMulticast.Codec
open EdgeMulticast.Lowering (InstrumentRef)

structure Published where
  shard : ℕ
  definition : InstrumentDefinition
  strike : Option StrikeInterval := none
  defined : Bool := false
deriving DecidableEq

/-- A definition as it is handed out, and the strike beside it. -/
structure PublishedDefinition where
  definition : InstrumentDefinition
  strike : Option StrikeInterval
deriving DecidableEq

def wireSize (hasStrike : Bool) : ℕ :=
  if hasStrike then DEFINITION_SIZE + STRIKE_SIZE else DEFINITION_SIZE

def PublishedDefinition.wireSize (d : PublishedDefinition) : ℕ := Refdata.wireSize d.strike.isSome

/-- The definition under a Manifest Seq. -/
def stamped (definition : InstrumentDefinition) (manifestSeq : UInt16) : InstrumentDefinition :=
  { definition with manifestSeq }

/-- What an entry is handed out as. -/
def Published.handedOut (entry : Published) (manifestSeq : UInt16) : PublishedDefinition :=
  ⟨stamped entry.definition manifestSeq, entry.strike⟩

structure PublishedSet where
  published : ℕ := 0
  manifestSeq : UInt16 := 0
  changed : Bool := false
  pacer : DefinitionPacer
  cursor : ℕ := 0
  strikesPending : ℕ := 0
  strikesChanged : List InstrumentRef := []
deriving DecidableEq

/-! ## A tick -/

/-- A tick that is under way. -/
structure Walk where
  cursor : ℕ
  room : TickRoom
  slots : List (Option Published)
  out : List PublishedDefinition := []
  full : Bool := false

namespace Walk

/-- Move to the next slot. -/
def pass (w : Walk) : Walk := { w with cursor := (w.cursor + 1) % w.slots.length }

/-- Hand out the entry at the cursor, and move to the next slot. -/
def give (w : Walk) (entry : Published) (room : TickRoom) (manifestSeq : UInt16) : Walk where
  cursor := (w.cursor + 1) % w.slots.length
  room := room
  slots := w.slots.set w.cursor (some { entry with defined := true })
  out := w.out ++ [entry.handedOut manifestSeq]
  full := w.full

/-- One lap over the slots at most, from the cursor, until what is owed is handed out or the room
is spent. -/
def lap (shard owed : ℕ) (manifestSeq : UInt16) : ℕ → Walk → Walk
  | 0, w => w
  | places + 1, w =>
      if w.out.length = owed then w
      else match slotAt w.slots w.cursor with
        | none => lap shard owed manifestSeq places w.pass
        | some entry =>
            if entry.shard = shard then
              match w.room.take (wireSize entry.strike.isSome) with
              | none => { w with full := true }
              | some room => lap shard owed manifestSeq places (w.give entry room manifestSeq)
            else lap shard owed manifestSeq places w.pass

/-- Laps until what is owed is handed out, the room is spent, or a lap finds nothing. -/
def laps (shard owed : ℕ) (manifestSeq : UInt16) : ℕ → Walk → Walk
  | 0, w => w
  | fuel + 1, w =>
      if w.out.length < owed ∧ w.full = false then
        let next := lap shard owed manifestSeq w.slots.length w
        if next.out.length = w.out.length then next else laps shard owed manifestSeq fuel next
      else w

end Walk

/-- What a tick of a shard hands out, and the set and the slots after it. -/
def PublishedSet.tick (set : PublishedSet) (shard nowNs : ℕ) (slots : List (Option Published)) :
    List PublishedDefinition × PublishedSet × List (Option Published) :=
  let owed := set.pacer.owed nowNs set.published
  if owed = 0 then ([], { set with pacer := (set.pacer.dueAtMost nowNs set.published 0).2 }, slots)
  else
    let w := Walk.laps shard owed set.manifestSeq (owed + 1)
      { cursor := set.cursor, room := set.pacer.schedule.roomBehind 0, slots }
    (w.out, { set with
      cursor := w.cursor
      pacer := (set.pacer.dueAtMost nowNs set.published w.out.length).2 }, w.slots)

/-! ## What a tick changes -/

/-- What a walk has handed out of the slots that it found, and that it changes nothing of them but
whether they are defined. -/
structure Walk.Handed (shard : ℕ) (manifestSeq : UInt16) (slots : List (Option Published))
    (out : List PublishedDefinition) (slots' : List (Option Published)) : Prop where
  length_eq : slots'.length = slots.length
  slot : ∀ i, slotAt slots' i = slotAt slots i ∨ ∃ entry, slotAt slots i = some entry ∧
    slotAt slots' i = some { entry with defined := true } ∧ entry.shard = shard ∧
    entry.handedOut manifestSeq ∈ out
  out : ∀ d ∈ out, ∃ i entry, slotAt slots i = some entry ∧ entry.shard = shard ∧
    d = entry.handedOut manifestSeq ∧ slotAt slots' i = some { entry with defined := true }

namespace Walk.Handed

variable {shard owed : ℕ} {manifestSeq : UInt16} {slots slots' : List (Option Published)}
  {out : List PublishedDefinition} {w : Walk} {entry : Published}

theorem refl : Handed shard manifestSeq slots [] slots where
  length_eq := rfl
  slot _ := .inl rfl
  out d h := by cases h

theorem give (h : Handed shard manifestSeq slots w.out w.slots)
    (hentry : slotAt w.slots w.cursor = some entry) (hshard : entry.shard = shard)
    (room : TickRoom) : Handed shard manifestSeq slots (w.give entry room manifestSeq).out
      (w.give entry room manifestSeq).slots := by
  have hlt := lt_of_slotAt hentry
  -- what the slot held when the walk began
  obtain ⟨found, hfound, hsame, hgiven, hfoundShard⟩ : ∃ found, slotAt slots w.cursor = some found ∧
      { entry with defined := true } = { found with defined := true } ∧
      entry.handedOut manifestSeq = found.handedOut manifestSeq ∧ found.shard = shard := by
    rcases h.slot w.cursor with heq | ⟨found, hfound, heq, hfoundShard, -⟩
    · exact ⟨entry, heq.symm.trans hentry, rfl, rfl, hshard⟩
    · obtain rfl := Option.some.inj (hentry.symm.trans heq)
      exact ⟨found, hfound, rfl, rfl, hfoundShard⟩
  constructor
  · exact List.length_set.trans h.length_eq
  · intro i
    rw [Walk.give, slotAt_set _ _ _ _ hlt]
    split
    next hi =>
        refine .inr ⟨found, hi ▸ hfound, congrArg some hsame, hfoundShard, ?_⟩
        rw [← hgiven]
        exact List.mem_append_right _ List.mem_cons_self
    next =>
        rcases h.slot i with heq | ⟨other, hother, heq, hotherShard, hmem⟩
        · exact .inl heq
        · exact .inr ⟨other, hother, heq, hotherShard, List.mem_append_left _ hmem⟩
  · intro d hd
    rcases List.mem_append.mp hd with hd | hd
    · obtain ⟨i, other, hother, hotherShard, rfl, heq⟩ := h.out d hd
      refine ⟨i, other, hother, hotherShard, rfl, ?_⟩
      rw [Walk.give, slotAt_set _ _ _ _ hlt]
      split
      next hi =>
          subst hi
          obtain rfl := Option.some.inj (hfound.symm.trans hother)
          exact congrArg some hsame
      next => exact heq
    · obtain rfl := List.mem_singleton.mp hd
      refine ⟨w.cursor, found, hfound, hfoundShard, hgiven, ?_⟩
      rw [Walk.give, slotAt_set _ _ _ _ hlt, if_pos rfl]
      exact congrArg some hsame

theorem lap (places : ℕ) (h : Handed shard manifestSeq slots w.out w.slots) :
    Handed shard manifestSeq slots (w.lap shard owed manifestSeq places).out
      (w.lap shard owed manifestSeq places).slots := by
  induction places generalizing w with
  | zero => exact h
  | succ places ih =>
      rw [Walk.lap]
      split
      · exact h
      · split
        · exact ih h
        next entry hentry =>
            split
            next hshard =>
                split
                · exact h
                next room _ => exact ih (h.give hentry hshard room)
            · exact ih h

theorem laps (fuel : ℕ) (h : Handed shard manifestSeq slots w.out w.slots) :
    Handed shard manifestSeq slots (w.laps shard owed manifestSeq fuel).out
      (w.laps shard owed manifestSeq fuel).slots := by
  induction fuel generalizing w with
  | zero => exact h
  | succ fuel ih =>
      rw [Walk.laps]
      split
      · dsimp only
        split
        · exact h.lap _
        · exact ih (h.lap _)
      · exact h

end Walk.Handed

variable {set : PublishedSet} {shard nowNs : ℕ} {slots : List (Option Published)}

/-- A tick hands out what its shard publishes, and marks it as defined. -/
theorem PublishedSet.tick_handed : Walk.Handed shard set.manifestSeq slots
    (set.tick shard nowNs slots).1 (set.tick shard nowNs slots).2.2 := by
  rw [PublishedSet.tick]
  dsimp only
  split
  · exact .refl
  · exact Walk.Handed.laps _ (w := { cursor := _, room := _, slots }) .refl

/-- A tick moves the cursor and the pacer of its set, and nothing else. -/
theorem PublishedSet.tick_set : ∃ cursor pacer,
    (set.tick shard nowNs slots).2.1 = { set with cursor, pacer } := by
  rw [PublishedSet.tick]
  dsimp only
  split
  · exact ⟨_, _, rfl⟩
  · exact ⟨_, _, rfl⟩

end EdgeMulticast.Refdata
