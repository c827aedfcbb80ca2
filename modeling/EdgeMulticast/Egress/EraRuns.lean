import EdgeMulticast.Egress.Era

/-!
# Eras across restarts

The calls that processes make one after the other on one state directory, each as far as it comes,
with a power loss between any two of them.

What `Egress.Era` persists is never behind what it returned: the file of an instance says the era
that was last returned, or one of those that calls behind it have written (`kept`).  So the next
era that is returned lies as many places behind the last as there were such calls
(`eras_never_repeat`).  There are 256 eras: 255 such calls in a row bring back the last one.
-/

namespace EdgeMulticast.Egress.Era

open EdgeMulticast.Lib
open EdgeMulticast.Lib.Disk (Held)

/-! ## Runs -/

/-- A call, how far it came and what it came to. -/
structure Call where
  key : Key
  stop : Stop
  answer : Answer
deriving DecidableEq, Repr

/-- What the calls make of a state directory, with power losses between them. -/
inductive Run (start : Disk FileName) : List Call → Disk FileName → Prop where
  | start : Run start [] start
  | call {calls : List Call} {d : Disk FileName} (k : Key) (stop : Stop) (before : Run start calls d) :
      Run start (calls ++ [⟨k, stop, (beginEra d k stop).2⟩]) (beginEra d k stop).1
  | lose {calls : List Call} {d : Disk FileName} {outcome : FileName → Option (List Byte)}
      (before : Run start calls d) (survives : d.Survives outcome) :
      Run start calls (Disk.lose outcome)

/-- The era that was last returned for an instance, and how many calls came as far as the rename
behind it, without returning. -/
def note (k : Key) (noted : Option (Byte × ℕ)) (c : Call) : Option (Byte × ℕ) :=
  if c.key ≠ k then noted
  else match c.answer with
    | .returned era => some (era, 0)
    | .stopped => if c.stop.replaces then noted.map fun p ↦ (p.1, p.2 + 1) else noted
    | .refused _ => noted

def lastReturned (k : Key) (calls : List Call) : Option (Byte × ℕ) := calls.foldl (note k) none

theorem lastReturned_snoc (k : Key) (calls : List Call) (c : Call) :
    lastReturned k (calls ++ [c]) = note k (lastReturned k calls) c := by
  rw [lastReturned, List.foldl_append]
  rfl

variable {d start : Disk FileName} {k k' : Key} {path path' : FileName} {era e : Byte} {m : ℕ}
  {stop : Stop} {calls : List Call} {P : Option (List Byte) → Prop}

/-! ## What one call does to the files -/

theorem live_prepare (d : Disk FileName) (path : FileName) (era : Byte) :
    (prepare d path era).live (tmpOf path) = some ⟨contents era, true⟩ :=
  Disk.live_sync (Disk.live_create ..)

theorem held_prepare (h : d.Held path P) (hne : path ≠ tmpOf path') (era : Byte) :
    (prepare d path' era).Held path P := (h.create hne _).sync hne

/-- The file of another instance is not touched. -/
theorem held_writeEra_of_ne (h : d.Held path P) (htmp : path ≠ tmpOf path') (hne : path ≠ path')
    (era : Byte) (stop : Stop) : (writeEra d path' era stop).Held path P := by
  have hprepare := held_prepare h htmp era
  have hrename := hprepare.rename_of_ne htmp hne
  cases stop with
  | reading => exact h
  | writing torn => exact h.create htmp torn
  | written => exact h.create htmp _
  | synced => exact hprepare
  | renamed => exact hrename
  | recorded | returned => exact hrename.syncDir

/-- A call that stops before the rename leaves the file as it is. -/
theorem held_writeEra_early (h : d.Held path P) (htmp : path ≠ tmpOf path) (era : Byte)
    (hstop : stop.replaces = false) : (writeEra d path era stop).Held path P := by
  cases stop with
  | reading => exact h
  | writing torn => exact h.create htmp torn
  | written => exact h.create htmp _
  | synced => exact held_prepare h htmp era
  | renamed | recorded | returned => cases hstop

/-- One that comes as far leaves what was there or the new era. -/
theorem held_writeEra_late (h : d.Held path P) (htmp : path ≠ tmpOf path)
    (hera : P (some (contents era))) (hstop : stop.replaces) :
    (writeEra d path era stop).Held path P := by
  have hrename := (held_prepare h htmp era).rename htmp (live_prepare d path era) hera
  cases stop with
  | reading | writing _ | written | synced => cases hstop
  | renamed => exact hrename
  | recorded | returned => exact hrename.syncDir

theorem live_writeEra (htmp : path ≠ tmpOf path) (d : Disk FileName) (era : Byte)
    (hstop : stop.replaces) : (writeEra d path era stop).live path = some ⟨contents era, true⟩ := by
  have hrename := (Disk.live_rename (d := prepare d path era) htmp).trans (live_prepare d path era)
  cases stop with
  | reading | writing _ | written | synced => cases hstop
  | renamed | recorded | returned => exact hrename

theorem read_writeEra (htmp : path ≠ tmpOf path) (d : Disk FileName) (era : Byte)
    (hstop : stop.replaces) : (writeEra d path era stop).read path = some (contents era) := by
  rw [Disk.read, live_writeEra htmp d era hstop]
  rfl

/-- One that returns leaves the new era only, whatever was there. -/
theorem held_writeEra_returned (htmp : path ≠ tmpOf path) (d : Disk FileName)
    (hera : P (some (contents era))) : (writeEra d path era .returned).Held path P := by
  refine Disk.held_syncDir (d := writeEra d path era .renamed) ?_ ?_
  · rw [read_writeEra htmp d era rfl]
    exact hera
  · rw [live_writeEra htmp d era rfl]
    intro f hf
    rw [← Option.some.inj hf]

theorem beginEra_of_record (hpath : pathFor k = .ok path) (hread : d.read path = some (contents e))
    (stop : Stop) : beginEra d k stop = (writeEra d path (e + 1) stop,
      if stop = .returned then .returned (e + 1) else .stopped) := by
  rw [beginEra, hpath]
  dsimp only
  rw [hread, readEra_contents]
  rfl

/-! ## What is kept -/

/-- One of the eras from `e` on, up to `m` places behind it. -/
def OneOf (e : Byte) (m : ℕ) (content : Option (List Byte)) : Prop :=
  ∃ j ≤ m, content = some (contents (e + UInt8.ofNat j))

theorem succ_ofNat (e : Byte) (j : ℕ) : e + UInt8.ofNat j + 1 = e + UInt8.ofNat (j + 1) := by
  rw [UInt8.ofNat_add, UInt8.add_assoc]
  rfl

theorem oneOf_self (e : Byte) (m : ℕ) : OneOf e m (some (contents e)) :=
  ⟨0, Nat.zero_le m, congrArg (some ∘ contents) (UInt8.add_zero e).symm⟩

/-- The step: a call of an instance from a file that is kept. -/
theorem held_call (hpath : pathFor k = .ok path) (h : d.Held path (OneOf e m)) (stop : Stop)
    (hnote : note k (some (e, m)) ⟨k, stop, (beginEra d k stop).2⟩ = some (era, n)) :
    (beginEra d k stop).1.Held path (OneOf era n) := by
  have htmp := path_ne_tmpOf hpath hpath
  obtain ⟨j, hj, hread⟩ := h.read
  have hcall := beginEra_of_record hpath hread stop
  rw [hcall] at hnote ⊢
  rw [note, if_neg (not_not.mpr rfl)] at hnote
  by_cases hreturned : stop = .returned
  · subst hreturned
    rw [if_pos rfl] at hnote
    obtain ⟨rfl, rfl⟩ := Prod.mk.inj (Option.some.inj hnote)
    exact held_writeEra_returned htmp d (oneOf_self _ _)
  · rw [if_neg hreturned] at hnote
    dsimp only at hnote
    split at hnote
    next hreplaces =>
        obtain ⟨rfl, rfl⟩ := Prod.mk.inj (Option.some.inj hnote)
        refine held_writeEra_late (h.mono ?_) htmp ⟨j + 1, Nat.succ_le_succ hj, ?_⟩ hreplaces
        · rintro content ⟨i, hi, hcontent⟩
          exact ⟨i, Nat.le_succ_of_le hi, hcontent⟩
        · rw [succ_ofNat]
    next hearly =>
        obtain ⟨rfl, rfl⟩ := Prod.mk.inj (Option.some.inj hnote)
        exact held_writeEra_early h htmp _ (eq_false_of_ne_true hearly)

/-- The first era that a call returns is kept too. -/
theorem held_first (hpath : pathFor k = .ok path) (d : Disk FileName) (stop : Stop)
    (hnote : note k none ⟨k, stop, (beginEra d k stop).2⟩ = some (era, m)) :
    (beginEra d k stop).1.Held path (OneOf era m) := by
  have htmp := path_ne_tmpOf hpath hpath
  rw [note, if_neg (not_not.mpr rfl)] at hnote
  rw [beginEra, hpath] at hnote ⊢
  dsimp only at hnote ⊢
  cases hera : readEra path (d.read path) with
  | error e =>
      rw [hera] at hnote
      cases hnote
  | ok previous =>
      rw [hera] at hnote
      dsimp only at hnote ⊢
      by_cases hreturned : stop = .returned
      · subst hreturned
        rw [if_pos rfl] at hnote
        obtain ⟨rfl, rfl⟩ := Prod.mk.inj (Option.some.inj hnote)
        exact held_writeEra_returned htmp d (oneOf_self _ _)
      · rw [if_neg hreturned] at hnote
        dsimp only at hnote
        split at hnote <;> cases hnote

/-- A call of another instance. -/
theorem held_other (hpath : pathFor k = .ok path) (hne : k' ≠ k) (h : d.Held path P)
    (stop : Stop) : (beginEra d k' stop).1.Held path P := by
  rw [beginEra]
  split
  next => exact h
  next path' hpath' =>
  split
  next => exact h
  next previous _ =>
      refine held_writeEra_of_ne h (path_ne_tmpOf hpath hpath') ?_ _ stop
      rintro rfl
      exact hne (pathFor_inj hpath' hpath)

/-- **What is kept.**  The file of an instance says the era that was last returned for it, or one
that a call behind it has written; a power loss does not change that. -/
theorem kept (h : Run start calls d) (hpath : pathFor k = .ok path)
    (hlast : lastReturned k calls = some (e, m)) : d.Held path (OneOf e m) := by
  induction h generalizing e m with
  | start => cases hlast
  | lose _ hsurvives ih => exact (ih hlast).lose hsurvives
  | @call calls d k' stop before ih =>
      rw [lastReturned_snoc] at hlast
      by_cases hkey : k' = k
      · subst hkey
        cases hbefore : lastReturned k' calls with
        | none =>
            rw [hbefore] at hlast
            exact held_first hpath d stop hlast
        | some p =>
            rw [hbefore] at hlast
            exact held_call hpath (ih hbefore) stop hlast
      · rw [note, if_pos hkey] at hlast
        exact held_other hpath hkey (ih hlast) stop

/-! ## The eras that are returned -/

theorem pathFor_of_returned (h : (beginEra d k stop).2 = .returned era) :
    ∃ path, pathFor k = .ok path := by
  rw [beginEra] at h
  split at h
  next => cases h
  next path hpath => exact ⟨path, hpath⟩

/-- The era that is returned lies behind the last one, by one place and one more for each call
that came as far as the rename in between. -/
theorem returned_eq (h : Run start calls d) (hlast : lastReturned k calls = some (e, m))
    (hcall : (beginEra d k stop).2 = .returned era) : ∃ j ≤ m, era = e + UInt8.ofNat (j + 1) := by
  obtain ⟨path, hpath⟩ := pathFor_of_returned hcall
  obtain ⟨j, hj, hread⟩ := (kept h hpath hlast).read
  rw [beginEra_of_record hpath hread stop] at hcall
  dsimp only at hcall
  split at hcall
  next => exact ⟨j, hj, (Answer.returned.inj hcall).symm.trans (succ_ofNat e j)⟩
  next => cases hcall

/-- Fewer than 256 places behind an era there is another one. -/
theorem add_ne_self {j : ℕ} (hj : j < 255) (e : Byte) : e + UInt8.ofNat (j + 1) ≠ e := by
  intro h
  have hnat := congrArg UInt8.toNat h
  rw [UInt8.toNat_add, UInt8.toNat_ofNat'] at hnat
  have hlt := UInt8.toNat_lt e
  omega

/-- A file that does not say an era is refused, and stays as it is. -/
theorem refused_of_not_says {bytes : List Byte} (hpath : pathFor k = .ok path)
    (hread : d.read path = some bytes) (hstates : ¬∃ era, Says bytes era) (stop : Stop) :
    ∃ what, beginEra d k stop = (d, .refused (.corrupt path what)) := by
  rcases readEra_some path bytes with ⟨what, hrefused⟩ | ⟨era, hera⟩
  · refine ⟨what, ?_⟩
    rw [beginEra, hpath]
    dsimp only
    rw [hread, hrefused]
  · exact absurd ⟨era, readEra_eq_ok_iff.mp hera⟩ hstates

/-- **Eras across restarts.**  An era that is returned is the successor of the last one, or lies
one place further for each call in between that had renamed its file and did not return; fewer than
255 of these do not bring the last one back.  What is written is read; a file that does not say
an era is refused and stays; and no two instances share a file. -/
theorem eras_never_repeat (start : Disk FileName) {calls : List Call} {d : Disk FileName}
    (h : Run start calls d) :
    (∀ k stop e m era, lastReturned k calls = some (e, m) →
      (beginEra d k stop).2 = .returned era →
        (∃ j ≤ m, era = e + UInt8.ofNat (j + 1)) ∧ (m < 255 → era ≠ e)) ∧
    (∀ k path era, pathFor k = .ok path →
      readEra path ((writeEra d path era .returned).read path) = .ok (some era)) ∧
    (∀ k path bytes stop, pathFor k = .ok path → d.read path = some bytes →
      (¬∃ era, Says bytes era) → ∃ what, beginEra d k stop = (d, .refused (.corrupt path what))) ∧
    ∀ k k' path, pathFor k = .ok path → pathFor k' = .ok path → k = k' := by
  refine ⟨fun k stop e m era hlast hcall ↦ ?_, fun k path era hpath ↦ ?_,
    fun k path bytes stop hpath hread hstates ↦ refused_of_not_says hpath hread hstates stop,
    fun k k' path ↦ pathFor_inj⟩
  · obtain ⟨j, hj, rfl⟩ := returned_eq h hlast hcall
    exact ⟨⟨j, hj, rfl⟩, fun hm ↦ add_ne_self (hj.trans_lt hm) e⟩
  · rw [read_writeEra (path_ne_tmpOf hpath hpath) d era rfl, readEra_contents]

/-- A state directory without a file. -/
def emptyDisk : Disk FileName where
  live _ := none
  after _ := .among [none]

/-- A feed, and the file of its era. -/
def market : Key := ⟨ascii "market-by-price", some (ascii "perps")⟩

def marketFile : FileName := ascii "market-by-price.perps.era"

theorem pathFor_market : pathFor market = .ok marketFile := by decide

/-- What the first start of a feed leaves, and what the second does that stops behind its rename. -/
def firstDisk : Disk FileName := (beginEra emptyDisk market .returned).1

def secondDisk : Disk FileName := (beginEra firstDisk market .renamed).1

/-- The rename is taken back. -/
def renameLost (name : FileName) : Option (List Byte) :=
  if name = marketFile then some (contents 1) else none

theorem renameLost_survives : secondDisk.Survives renameLost := by
  have hfirst : firstDisk = writeEra emptyDisk marketFile 1 .returned := by
    rw [firstDisk, beginEra, pathFor_market]
    rfl
  have htmp := path_ne_tmpOf pathFor_market pathFor_market
  have hread : firstDisk.read marketFile = some (contents 1) :=
    hfirst ▸ read_writeEra htmp emptyDisk 1 rfl
  have hsecond : secondDisk = writeEra firstDisk marketFile 2 .renamed := by
    rw [secondDisk, beginEra_of_record pathFor_market hread]
    rfl
  intro name
  rw [hsecond, hfirst, renameLost]
  by_cases hname : name = tmpOf marketFile
  · rw [hname]
    exact trivial
  by_cases hpath : name = marketFile
  · subst hpath
    rw [if_pos rfl]
    exact List.mem_cons_of_mem _ List.mem_cons_self
  · rw [if_neg hpath]
    simp only [writeEra, prepare, Disk.rename, Disk.sync, Disk.create, Disk.syncDir, ne_eq, hname,
      hpath, not_false_eq_true, Function.update_of_ne]
    exact List.mem_cons_self

/-- A power loss takes back the rename of a second start.  The third one returns the era behind the
first. -/
theorem era_after_power_loss :
    ∃ d, Run emptyDisk [⟨market, .returned, .returned 1⟩, ⟨market, .renamed, .stopped⟩] d ∧
      (beginEra d market .returned).2 = .returned 2 ∧
      (∃ j ≤ 1, (2 : Byte) = 1 + UInt8.ofNat (j + 1)) ∧ (2 : Byte) ≠ 1 := by
  have hrun : Run emptyDisk [⟨market, .returned, .returned 1⟩, ⟨market, .renamed, .stopped⟩]
      (Disk.lose renameLost) :=
    ((Run.start.call market .returned).call market .renamed).lose renameLost_survives
  have hcall : (beginEra (Disk.lose renameLost) market .returned).2 = .returned 2 := by
    decide +kernel
  obtain ⟨hplace, hne⟩ := (eras_never_repeat emptyDisk hrun).1 market .returned 1 1 2 rfl hcall
  exact ⟨_, hrun, hcall, hplace, hne (by decide)⟩

/-- Starts that are stopped behind the rename, one after the other. -/
theorem exists_stopped (n : ℕ) :
    ∃ calls d, Run emptyDisk calls d ∧ lastReturned market calls = some (1, n) ∧
      d.read marketFile = some (contents (1 + UInt8.ofNat n)) := by
  have htmp := path_ne_tmpOf pathFor_market pathFor_market
  induction n with
  | zero =>
      refine ⟨_, _, Run.start.call market .returned, rfl, ?_⟩
      rw [beginEra, pathFor_market]
      exact read_writeEra htmp emptyDisk 1 (show Stop.returned.replaces from rfl)
  | succ n ih =>
      obtain ⟨calls, d, hrun, hlast, hread⟩ := ih
      have hcall := beginEra_of_record pathFor_market hread .renamed
      refine ⟨_, _, hrun.call market .renamed, ?_, ?_⟩
      · rw [lastReturned_snoc, hlast, hcall]
        rfl
      · rw [hcall, ← succ_ofNat]
        exact read_writeEra htmp d _ (show Stop.renamed.replaces from rfl)

/-- After 255 of them the first era is returned again. -/
theorem eras_repeat :
    ¬∀ (start : Disk FileName) (calls : List Call) (d : Disk FileName), Run start calls d →
      ∀ k stop e m era, lastReturned k calls = some (e, m) →
        (beginEra d k stop).2 = .returned era → era ≠ e := by
  intro h
  obtain ⟨calls, d, hrun, hlast, hread⟩ := exists_stopped 255
  refine h emptyDisk calls d hrun market .returned 1 255 1 hlast ?_ rfl
  rw [beginEra_of_record pathFor_market hread .returned]
  rfl

end EdgeMulticast.Egress.Era
