import EdgeMulticast.Lib.Slots
import EdgeMulticast.Lowering.Scale

/-!
# The admitted set, as the lowering reads it

`instrument.rs` (`dz-publisher-lowering`): handles and the slots they index.  A slot is never
reused and never shifts: a withdrawal leaves a hole.
-/

namespace EdgeMulticast.Lowering

open EdgeMulticast.Lib

/-- The handle an adapter carries for an instrument. -/
structure InstrumentRef where
  index : UInt32
deriving DecidableEq, Repr

/-- The handle of a slot.  A table of more than `2 ^ 32` slots is past what a handle can name. -/
def InstrumentRef.fromAdmission (slot : ℕ) : InstrumentRef := ⟨UInt32.ofNat slot⟩

theorem InstrumentRef.index_fromAdmission {slot : ℕ} (h : slot < 2 ^ 32) :
    (fromAdmission slot).index.toNat = slot :=
  UInt32.toNat_ofNat_of_lt' h

/-- Slots by handle, and how many of them are held. -/
structure InstrumentTable where
  slots : List (Option Instrument) := []
  held : ℕ := 0
  held_eq : held = Lib.held slots := by rfl

namespace InstrumentTable

theorem new_held : 0 = Lib.held ([] : List (Option Instrument)) := rfl

/-- A table that nothing has been admitted to. -/
def new : InstrumentTable := ⟨[], 0, new_held⟩

variable {t : InstrumentTable} {h : InstrumentRef} {inst : Instrument}

/-- Admit an instrument, and mint the handle of the slot it owns. -/
def admitInstrument (t : InstrumentTable) (inst : Instrument) : InstrumentRef × InstrumentTable :=
  (.fromAdmission t.slots.length, {
    slots := t.slots ++ [some inst]
    held := t.held + 1
    held_eq := by rw [held_append, t.held_eq] })

/-- The instrument a handle resolves to. -/
def get (t : InstrumentTable) (h : InstrumentRef) : Except LoweringError Instrument :=
  match slotAt t.slots h.index.toNat with
  | some inst => .ok inst
  | none => .error .unknownInstrument

/-- Withdraw an instrument: its handle resolves to nothing from here on. -/
def withdraw (t : InstrumentTable) (h : InstrumentRef) : InstrumentTable :=
  match hslot : slotAt t.slots h.index.toNat with
  | some _ => {
      slots := t.slots.set h.index.toNat none
      held := t.held - 1
      held_eq := by rw [t.held_eq, ← held_set_none hslot, Nat.add_sub_cancel] }
  | none => t

/-- Restate an admitted instrument in place, and say whether the handle was held. -/
def replace (t : InstrumentTable) (h : InstrumentRef) (inst : Instrument) :
    Bool × InstrumentTable :=
  match hslot : slotAt t.slots h.index.toNat with
  | some _ => (true, {
      slots := t.slots.set h.index.toNat (some inst)
      held := t.held
      held_eq := by rw [held_set_some hslot, t.held_eq] })
  | none => (false, t)

/-- How many instruments the table holds. -/
def len (t : InstrumentTable) : ℕ := t.held

def holds (t : InstrumentTable) (h : InstrumentRef) : Bool :=
  (slotAt t.slots h.index.toNat).isSome

theorem get_eq_ok_iff : t.get h = .ok inst ↔ slotAt t.slots h.index.toNat = some inst := by
  rw [get]
  cases slotAt t.slots h.index.toNat with
  | none => exact iff_of_false (fun h ↦ by cases h) (fun h ↦ by cases h)
  | some found =>
      constructor
      · intro h
        rw [Except.ok.inj h]
      · intro h
        rw [Option.some.inj h]

theorem withdraw_slots (hslot : slotAt t.slots h.index.toNat = some inst) :
    (t.withdraw h).slots = t.slots.set h.index.toNat none := by
  rw [withdraw]
  split
  next => rfl
  next hnone => cases hnone.symm.trans hslot

theorem slots_withdraw (t : InstrumentTable) (h : InstrumentRef) (i : ℕ) :
    slotAt (t.withdraw h).slots i = if i = h.index.toNat then none else slotAt t.slots i := by
  rw [withdraw]
  split
  next _ hslot => exact slotAt_set _ _ _ _ (lt_of_slotAt hslot)
  next hslot =>
      split
      next hi => rw [hi, hslot]
      next => rfl

theorem length_withdraw (t : InstrumentTable) (h : InstrumentRef) :
    (t.withdraw h).slots.length = t.slots.length := by
  rw [withdraw]
  split
  · exact List.length_set
  · rfl

/-- The slot behind the last resolves to what was admitted, and every other as before. -/
theorem get_admitInstrument (t : InstrumentTable) (inst : Instrument) (h : InstrumentRef) :
    (t.admitInstrument inst).2.get h =
      if h.index.toNat = t.slots.length then .ok inst else t.get h := by
  have hslot := slotAt_append t.slots inst h.index.toNat
  by_cases hlast : h.index.toNat = t.slots.length
  · rw [if_pos hlast] at hslot ⊢
    exact get_eq_ok_iff.mpr hslot
  · rw [if_neg hlast] at hslot ⊢
    rw [get, get, admitInstrument, hslot]

theorem get_withdraw (t : InstrumentTable) (h h' : InstrumentRef) :
    (t.withdraw h).get h' = if h' = h then .error .unknownInstrument else t.get h' := by
  have hslot := slots_withdraw t h h'.index.toNat
  by_cases hsame : h' = h
  · subst hsame
    rw [if_pos rfl] at hslot ⊢
    rw [get, hslot]
  · have hindex : h'.index.toNat ≠ h.index.toNat := fun heq ↦
      hsame (congrArg InstrumentRef.mk (UInt32.toNat_inj.mp heq))
    rw [if_neg hindex] at hslot
    rw [if_neg hsame, get, get, hslot]

/-- Withdrawing what is not held changes nothing. -/
theorem withdraw_of_slot (hslot : slotAt t.slots h.index.toNat = none) : t.withdraw h = t := by
  rw [withdraw]
  split
  next hsome => cases hsome.symm.trans hslot
  next => rfl

end InstrumentTable

end EdgeMulticast.Lowering
