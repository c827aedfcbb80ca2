import EdgeMulticast.Lib.Bytes
import Mathlib.Logic.Function.Basic

/-!
# Files that a power loss may take back

A process writes files, syncs them, renames them and syncs the directory that names them.  It
reads what was done last (`Disk.read`).  A power loss takes back what has not settled: a file that
is not synced may hold anything, and a rename may not have happened unless the directory was synced
behind it.

`Disk.Held` is a property of everything that a name holds, or would hold after a power loss.  Each
operation has a rule for the names that it does not touch, and the rename and the sync of the
directory have one for the name that they settle.
-/

namespace EdgeMulticast.Lib

/-- The content of a file, and whether it was synced. -/
structure File where
  bytes : List Byte
  synced : Bool
deriving DecidableEq, Repr

/-- What a name may hold after a power loss. -/
inductive Outcomes where
  | anything
  | among (contents : List (Option (List Byte)))

def Outcomes.Admits : Outcomes → Option (List Byte) → Prop
  | .anything, _ => True
  | .among contents, content => content ∈ contents

/-- One more outcome. -/
def Outcomes.insert (content : Option (List Byte)) : Outcomes → Outcomes
  | .anything => .anything
  | .among contents => .among (content :: contents)

/-- What a name may hold that a file is renamed to. -/
def Outcomes.renamed (before : Outcomes) : Option File → Outcomes
  | some ⟨bytes, true⟩ => before.insert (some bytes)
  | some ⟨_, false⟩ => .anything
  | none => before

/-- What a name may hold whose directory was synced. -/
def Outcomes.settled : Option File → Outcomes
  | some ⟨bytes, true⟩ => .among [some bytes]
  | some ⟨_, false⟩ => .anything
  | none => .among [none]

/-- The files of a directory: what they hold, and what they may hold after a power loss. -/
structure Disk (κ : Type*) where
  live : κ → Option File
  after : κ → Outcomes

namespace Disk

variable {κ : Type*} [DecidableEq κ]

/-- What a process reads. -/
def read (d : Disk κ) (name : κ) : Option (List Byte) := (d.live name).map File.bytes

/-- Create a file, or truncate it, and write to it. -/
def create (d : Disk κ) (name : κ) (bytes : List Byte) : Disk κ where
  live := Function.update d.live name (some ⟨bytes, false⟩)
  after := Function.update d.after name .anything

/-- Sync the content of a file.  Its name is not synced. -/
def sync (d : Disk κ) (name : κ) : Disk κ :=
  { d with
    live := Function.update d.live name ((d.live name).map fun f ↦ { f with synced := true }) }

/-- Rename a file.  The name it had may hold anything then; the name it gets holds the file, or
still what it held. -/
def rename (d : Disk κ) (source target : κ) : Disk κ where
  live := Function.update (Function.update d.live target (d.live source)) source none
  after := Function.update
    (Function.update d.after target ((d.after target).renamed (d.live source))) source .anything

/-- Sync the directory. -/
def syncDir (d : Disk κ) : Disk κ :=
  { d with after := fun name ↦ .settled (d.live name) }

/-- What the names hold after a power loss is possible. -/
def Survives (d : Disk κ) (outcome : κ → Option (List Byte)) : Prop :=
  ∀ name, (d.after name).Admits (outcome name)

/-- The files after a power loss. -/
def lose (outcome : κ → Option (List Byte)) : Disk κ where
  live name := (outcome name).map fun bytes ↦ ⟨bytes, true⟩
  after name := .among [outcome name]

/-- Whatever a name holds, or would hold after a power loss, is of a kind. -/
structure Held (d : Disk κ) (name : κ) (P : Option (List Byte) → Prop) : Prop where
  read : P (d.read name)
  synced : ∀ f ∈ d.live name, f.synced
  after : ∀ content, (d.after name).Admits content → P content

variable {d : Disk κ} {name other source target : κ} {P Q : Option (List Byte) → Prop}
  {bytes : List Byte}

omit [DecidableEq κ] in
theorem Held.mono (h : d.Held name P) (hPQ : ∀ content, P content → Q content) : d.Held name Q :=
  ⟨hPQ _ h.read, h.synced, fun content hcontent ↦ hPQ _ (h.after content hcontent)⟩

omit [DecidableEq κ] in
/-- A name about which two disks agree. -/
theorem Held.congr {d' : Disk κ} (h : d.Held name P) (hlive : d'.live name = d.live name)
    (hafter : d'.after name = d.after name) : d'.Held name P where
  read := by
    rw [Disk.read, hlive]
    exact h.read
  synced := hlive ▸ h.synced
  after := hafter ▸ h.after

theorem Held.create (h : d.Held name P) (hne : name ≠ other) (bytes : List Byte) :
    (d.create other bytes).Held name P :=
  h.congr (Function.update_of_ne hne _ _) (Function.update_of_ne hne _ _)

theorem Held.sync (h : d.Held name P) (hne : name ≠ other) : (d.sync other).Held name P :=
  h.congr (Function.update_of_ne hne _ _) rfl

theorem Held.rename_of_ne (h : d.Held name P) (hsource : name ≠ source) (htarget : name ≠ target) :
    (d.rename source target).Held name P :=
  h.congr ((Function.update_of_ne hsource _ _).trans (Function.update_of_ne htarget _ _))
    ((Function.update_of_ne hsource _ _).trans (Function.update_of_ne htarget _ _))

@[simp] theorem live_create (d : Disk κ) (name : κ) (bytes : List Byte) :
    (d.create name bytes).live name = some ⟨bytes, false⟩ := Function.update_self ..

theorem live_sync (h : d.live name = some ⟨bytes, false⟩) :
    (d.sync name).live name = some ⟨bytes, true⟩ :=
  (Function.update_self ..).trans (congrArg (Option.map _) h)

theorem live_rename (hne : target ≠ source) :
    (d.rename source target).live target = d.live source :=
  (Function.update_of_ne hne _ _).trans (Function.update_self ..)

theorem after_rename (hne : target ≠ source) :
    (d.rename source target).after target = (d.after target).renamed (d.live source) :=
  (Function.update_of_ne hne _ _).trans (Function.update_self ..)

theorem Outcomes.admits_insert {outcomes : Outcomes} {content content' : Option (List Byte)}
    (h : (outcomes.insert content).Admits content') : content' = content ∨ outcomes.Admits content' := by
  cases outcomes with
  | anything => exact .inr trivial
  | among contents => exact List.mem_cons.mp h

/-- A name that a synced file is renamed to. -/
theorem Held.rename (h : d.Held target P) (hne : target ≠ source)
    (hlive : d.live source = some ⟨bytes, true⟩) (hbytes : P (some bytes)) :
    (d.rename source target).Held target P where
  read := by
    rw [Disk.read, live_rename hne, hlive]
    exact hbytes
  synced := by
    rw [live_rename hne, hlive]
    intro f hf
    rw [← Option.some.inj hf]
  after := by
    intro content hcontent
    rw [after_rename hne, hlive] at hcontent
    rcases Outcomes.admits_insert hcontent with rfl | hcontent
    · exact hbytes
    · exact h.after content hcontent

omit [DecidableEq κ] in
/-- Syncing the directory settles what a name holds, if that was synced. -/
theorem held_syncDir (hread : P (d.read name)) (hsynced : ∀ f ∈ d.live name, f.synced) :
    d.syncDir.Held name P where
  read := hread
  synced := hsynced
  after := by
    intro content hcontent
    rw [Disk.read] at hread
    dsimp only [syncDir] at hcontent
    cases hlive : d.live name with
    | none =>
        rw [hlive] at hcontent hread
        rw [List.mem_singleton.mp hcontent]
        exact hread
    | some f =>
        obtain ⟨bytes, synced⟩ := f
        obtain rfl : synced = true := hsynced _ hlive
        rw [hlive] at hcontent hread
        rw [List.mem_singleton.mp hcontent]
        exact hread

omit [DecidableEq κ] in
theorem Held.syncDir (h : d.Held name P) : d.syncDir.Held name P := held_syncDir h.read h.synced

omit [DecidableEq κ] in
/-- What is held survives a power loss. -/
theorem Held.lose {outcome : κ → Option (List Byte)} (h : d.Held name P) (hsurvives : d.Survives outcome) :
    (lose outcome).Held name P := by
  have hP : P (outcome name) := h.after _ (hsurvives name)
  refine ⟨?_, ?_, ?_⟩
  · have hread : (Disk.lose outcome).read name = outcome name := by
      rw [Disk.read, Disk.lose, Option.map_map]
      exact congrFun Option.map_id (outcome name)
    exact hread.symm ▸ hP
  · intro f hf
    obtain ⟨bytes, -, rfl⟩ := Option.map_eq_some_iff.mp hf
    rfl
  · intro content hcontent
    rw [List.mem_singleton.mp hcontent]
    exact hP

end Disk

end EdgeMulticast.Lib

/-!
## Files that a process writes, moves and removes

What the files of some names hold, and the operations on them, each with what comes of it: a file is
not created, is left with some other bytes, or is written whole; a move or a removal happens or does
not.  Each operation has a lemma for the names that it does not touch.
-/

namespace EdgeMulticast.Lib

/-- What the files hold. -/
abbrev Directory (κ : Type*) := κ → Option (List Byte)

/-- What comes of writing a file: it is not created, or left with other bytes, or written. -/
inductive Writing where
  | refused
  | cut (left : List Byte)
  | done
deriving DecidableEq

namespace Directory

variable {κ : Type*} [DecidableEq κ]

/-- Create a file, or truncate it, and write some bytes. -/
def write (d : Directory κ) (name : κ) (bytes : List Byte) : Writing → Bool × Directory κ
  | .refused => (false, d)
  | .cut left => (false, Function.update d name (some left))
  | .done => (true, Function.update d name (some bytes))

/-- Move a file over another. -/
def rename (d : Directory κ) (source target : κ) (happens : Bool) : Bool × Directory κ :=
  if happens && (d source).isSome then
    (true, Function.update (Function.update d target (d source)) source none)
  else (false, d)

/-- Remove a file. -/
def remove (d : Directory κ) (name : κ) (happens : Bool) : Directory κ :=
  if happens then Function.update d name none else d

variable {d : Directory κ} {name source target x : κ} {bytes : List Byte} {happens : Bool}

theorem write_of_ne (h : x ≠ name) (outcome : Writing) : (d.write name bytes outcome).2 x = d x := by
  cases outcome with
  | refused => rfl
  | cut left => exact Function.update_of_ne h _ _
  | done => exact Function.update_of_ne h _ _

@[simp] theorem write_done : (d.write name bytes .done).2 name = some bytes :=
  Function.update_self _ _ _

theorem rename_of_ne (hsource : x ≠ source) (htarget : x ≠ target) :
    (d.rename source target happens).2 x = d x := by
  rw [rename]
  split
  · exact (Function.update_of_ne hsource _ _).trans (Function.update_of_ne htarget _ _)
  · rfl

theorem rename_ok (h : (d source).isSome = true) : (d.rename source target happens).1 = happens := by
  rw [rename, h, Bool.and_true]
  split
  next hhappens => exact hhappens.symm
  next hhappens => exact (Bool.not_eq_true _ ▸ hhappens).symm

/-- A move puts the file under its new name. -/
theorem rename_target (h : d source = some bytes) (hne : target ≠ source) :
    (d.rename source target true).2 target = some bytes := by
  rw [rename, h]
  exact (Function.update_of_ne hne _ _).trans (Function.update_self _ _ _)

theorem remove_of_ne (h : x ≠ name) : d.remove name happens x = d x := by
  rw [remove]
  split
  · exact Function.update_of_ne h _ _
  · rfl

@[simp] theorem remove_true : d.remove name true name = none := Function.update_self _ _ _

end Directory

end EdgeMulticast.Lib
