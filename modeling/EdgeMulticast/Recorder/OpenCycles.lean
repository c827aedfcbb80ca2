import EdgeMulticast.Lib.Run
import EdgeMulticast.Recorder.Book

/-!
# The count of open cycles

A book counts the snapshot cycles that are open for its instrument, and the cycles themselves are
filed under their Snapshot IDs.  A begin may displace the cycle of another instrument, and an end
closes whatever cycle is filed under the ID it names; whichever calls a book takes in, the count
of every instrument is the number of its cycles in the map (`Book.openCycles_eq`).

The state of a book follows: `BuildingSnapshot` says that such a cycle exists, and an established
book is certain or has lost its certainty to a gap (`Vouched`).
-/

namespace EdgeMulticast.Recorder

open Std (ExtTreeMap)
open EdgeMulticast.Lib

/-! ## One instrument's book -/

namespace InstrumentBook

variable {book : InstrumentBook}

/-- An established book is certain, or a gap took its certainty. -/
def Vouched (book : InstrumentBook) : Prop :=
  book.established = true → ∀ c ∈ book.certainty, c.certain = true ∨ c.reason = .gap

theorem Vouched.of_known (h : book.certainty = some Certainty.known) : book.Vouched := by
  intro _ c hc
  rw [h, Option.mem_some_iff] at hc
  exact Or.inl (by rw [← hc]; rfl)

theorem Vouched.of_unestablished (h : book.established = false) : book.Vouched :=
  fun hestablished ↦ absurd (h.symm.trans hestablished) Bool.noConfusion

theorem Vouched.of_same {was : InstrumentBook} (h : was.Vouched)
    (hestablished : book.established = was.established)
    (hcertainty : book.certainty = was.certainty) : book.Vouched := by
  rw [Vouched, hestablished, hcertainty]
  exact h

theorem Vouched.lose (m : ℕ) : (book.lose m).Vouched := by
  intro _ c hc
  obtain rfl := Option.mem_some_iff.mp hc
  exact Or.inr rfl

/-- The arm of an established book that states nothing is never taken. -/
theorem Vouched.status (h : book.Vouched) (hestablished : book.established = true) :
    book.status = .ready ∨ book.status = .gap := by
  rw [InstrumentBook.status, hestablished]
  cases hc : book.certainty with
  | none => exact Or.inl rfl
  | some c =>
      rcases h hestablished c hc with hcertain | hgap
      · exact Or.inl (by simp [hcertain])
      · cases hcertain : c.certain <;> simp [hcertain, hgap]

theorem status_eq_buildingSnapshot (h : book.Vouched) :
    book.status = .buildingSnapshot ↔
      book.established = false ∧ book.awaitingAnchor = none ∧ 0 < book.openCycles := by
  cases hestablished : book.established with
  | true => rcases h.status hestablished with hs | hs <;> simp [hs]
  | false =>
      rw [InstrumentBook.status, hestablished]
      cases book.awaitingAnchor with
      | some a => simp
      | none =>
          by_cases hopen : 0 < book.openCycles
          · simp [hopen]
          · simp [hopen]

/-- An operation that neither opens nor closes a cycle, and takes no certainty but for a gap. -/
structure Quiet (was book : InstrumentBook) : Prop where
  openCycles : book.openCycles = was.openCycles
  vouched : was.Vouched → book.Vouched

theorem Quiet.quote (book : InstrumentBook) (q : Quote) : book.Quiet (book.quote q).1 :=
  ⟨rfl, fun _ ↦ Vouched.of_known rfl⟩

theorem Quiet.reset (book : InstrumentBook) (r : InstrumentReset) : book.Quiet (book.reset r).1 :=
  ⟨rfl, fun _ ↦ Vouched.of_unestablished rfl⟩

theorem Quiet.anchor (book : InstrumentBook) (c : BookCycle) : book.Quiet (book.anchor c).1 :=
  ⟨rfl, fun _ ↦ Vouched.of_known rfl⟩

theorem Quiet.level (book : InstrumentBook) (l : LevelUpdate) :
    book.Quiet (book.level l).1 := by
  rw [InstrumentBook.level]
  split
  next hnot =>
      split
      · exact ⟨rfl, id⟩
      · exact ⟨rfl, fun _ ↦ Vouched.of_unestablished (by simpa using hnot)⟩
  next =>
      have happly : (book.applyLevel l).openCycles = book.openCycles ∧
          (book.applyLevel l).established = book.established ∧
            (book.applyLevel l).certainty = book.certainty := by
        rw [applyLevel]
        split <;> exact ⟨rfl, rfl, rfl⟩
      exact ⟨happly.1, fun h ↦ h.of_same happly.2.1 happly.2.2⟩

theorem Quiet.clear (book : InstrumentBook) (c : BookClear) : book.Quiet (book.clear c).1 := by
  rw [InstrumentBook.clear]
  split
  next => exact ⟨rfl, id⟩
  next =>
      have happly : (book.applyClear c).openCycles = book.openCycles ∧
          (book.applyClear c).established = book.established ∧
            (book.applyClear c).certainty = book.certainty := by
        simp only [applyClear]
        split <;> split <;> exact ⟨rfl, rfl, rfl⟩
      exact ⟨happly.1, fun h ↦ h.of_same happly.2.1 happly.2.2⟩

theorem Vouched.openCycles (h : book.Vouched) (n : ℕ) : { book with openCycles := n }.Vouched := h

end InstrumentBook

/-! ## The calls of a book -/

/-- A call of the derived book. -/
inductive BookCall where
  | observeSequence (inst : ChannelInstance) (role : PortRole) (sequenceNumber : ℕ)
  | quote (channel : Channel) (q : Quote)
  | level (channel : Channel) (l : LevelUpdate)
  | clear (channel : Channel) (c : BookClear)
  | reset (channel : Channel) (r : InstrumentReset)
  | snapshotBegin (channel : Channel) (begin : SnapshotBegin)
  | snapshotLevel (channel : Channel) (l : SnapshotLevel)
  | snapshotEnd (channel : Channel) (finish : SnapshotEnd)
  | closeObject

def BookCall.isBegin : BookCall → Bool
  | .snapshotBegin .. => true
  | _ => false

namespace Book

/-- What a call leaves of the book. -/
def call (b : Book) : BookCall → Book
  | .observeSequence inst role n => (b.observeSequence inst role n).1
  | .quote channel q => (b.quote channel q).1
  | .level channel l => (b.level channel l).1
  | .clear channel c => (b.clear channel c).1
  | .reset channel r => (b.reset channel r).1
  | .snapshotBegin channel begin => b.snapshotBegin channel begin
  | .snapshotLevel channel l => b.snapshotLevel channel l
  | .snapshotEnd channel finish => (b.snapshotEnd channel finish).1
  | .closeObject => b.closeObject

/-- Whether a cycle is one of an instrument. -/
def isCycleOf (k : Scoped Channel) (x : Scoped Channel) (cycle : BookCycle) : Bool :=
  decide (x.scope = k.scope ∧ cycle.instrumentId = k.id)

/-- How many cycles of an instrument are in the map. -/
def cyclesOf (b : Book) (k : Scoped Channel) : ℕ := countOf (isCycleOf k) b.cycles

/-- The count of every instrument is the number of its cycles, and no established book lost its
certainty to anything but a gap. -/
structure Counted (b : Book) : Prop where
  openCycles : ∀ k, (b.book k).openCycles = b.cyclesOf k
  vouched : ∀ k, (b.book k).Vouched

theorem Counted.empty : ({} : Book).Counted := by
  have hbook (k : Scoped Channel) : ({} : Book).book k = {} := by
    rw [book, ExtTreeMap.getElem?_empty]
    rfl
  refine ⟨fun k ↦ ?_, fun k ↦ ?_⟩
  · rw [hbook, cyclesOf, countOf_empty]
  · rw [hbook]
    exact InstrumentBook.Vouched.of_unestablished rfl

variable {b : Book} {channel : Channel}

/-- A call that leaves the cycles alone and is quiet about every book. -/
theorem Counted.quiet {b' : Book} (h : b.Counted) (hcycles : b'.cycles = b.cycles)
    (hquiet : ∀ k, (b.book k).Quiet (b'.book k)) : b'.Counted where
  openCycles k := by rw [(hquiet k).openCycles, h.openCycles, cyclesOf, cyclesOf, hcycles]
  vouched k := (hquiet k).vouched (h.vouched k)

theorem quiet_update {k : Scoped Channel} {f : InstrumentBook → InstrumentBook × Option Change}
    (hf : ∀ x, InstrumentBook.Quiet x (f x).1) (k' : Scoped Channel) :
    (b.book k').Quiet ((b.update k f).1.book k') := by
  rw [book_update]
  split
  next hk => exact hk ▸ hf (b.book k)
  next => exact ⟨rfl, id⟩

theorem Counted.update {k : Scoped Channel}
    {f : InstrumentBook → InstrumentBook × Option Change} (h : b.Counted)
    (hf : ∀ x, InstrumentBook.Quiet x (f x).1) : (b.update k f).1.Counted :=
  h.quiet rfl (quiet_update hf)

theorem Counted.observeSequence (h : b.Counted) (inst : ChannelInstance) (role : PortRole)
    (n : ℕ) : (b.observeSequence inst role n).1.Counted := by
  refine h.quiet (b.observeSequence_cycles inst role n) fun k ↦ ?_
  rw [book_observeSequence]
  split
  next => exact ⟨rfl, id⟩
  next m _ =>
      split
      · exact ⟨rfl, fun _ ↦ InstrumentBook.Vouched.lose m⟩
      · exact ⟨rfl, id⟩

/-! ## Cycles that open and close -/

/-- A cycle that closes is counted off the book of its instrument. -/
theorem openCycles_cycleClosed (id : ℕ) (k : Scoped Channel) :
    ((b.cycleClosed channel id).book k).openCycles =
      (b.book k).openCycles - (decide (channel = k.scope ∧ id = k.id)).toNat := by
  have hk : decide (channel = k.scope ∧ id = k.id) = decide (⟨channel, id⟩ = k) := by
    simp only [Scoped.ext_iff]
  rw [hk, cycleClosed]
  split
  next hnone =>
      by_cases hsame : (⟨channel, id⟩ : Scoped Channel) = k
      · have hzero : (b.book k).openCycles = 0 := by rw [book, ← hsame, hnone]; rfl
        rw [hzero, Nat.zero_sub]
      · rw [decide_eq_false hsame]
        rfl
  next x hx =>
      rw [book_setBook]
      by_cases hsame : (⟨channel, id⟩ : Scoped Channel) = k
      · rw [if_pos hsame, decide_eq_true hsame, book, ← hsame, hx]
        rfl
      · rw [if_neg hsame, decide_eq_false hsame]
        rfl

@[simp] theorem cyclesOf_cycleClosed (id : ℕ) (k : Scoped Channel) :
    (b.cycleClosed channel id).cyclesOf k = b.cyclesOf k := by
  rw [cyclesOf, cycleClosed_cycles, cyclesOf]

theorem vouched_cycleClosed (h : ∀ k, (b.book k).Vouched) (id : ℕ) (k : Scoped Channel) :
    ((b.cycleClosed channel id).book k).Vouched := by
  obtain ⟨n, hn⟩ := b.book_cycleClosed channel id k
  rw [hn]
  exact (h k).openCycles n

/-- A cycle taken out of the map is counted off. -/
theorem cyclesOf_dropCycle {x : Scoped Channel} {cycle : BookCycle}
    (hx : b.cycles[x]? = some cycle) (k : Scoped Channel) :
    (b.dropCycle x).cyclesOf k + (decide (x.scope = k.scope ∧ cycle.instrumentId = k.id)).toNat =
      b.cyclesOf k := by
  have h := countOf_erase (isCycleOf k) b.cycles x
  rw [hx, Option.elim_some] at h
  exact h

/-- Closing a cycle keeps the counts: it leaves the map and the count together. -/
theorem Counted.closed (h : b.Counted) {id : ℕ} {cycle : BookCycle}
    (hx : b.cycles[(⟨channel, id⟩ : Scoped Channel)]? = some cycle) :
    ((b.dropCycle ⟨channel, id⟩).cycleClosed channel cycle.instrumentId).Counted where
  openCycles k := by
    have hdrop := cyclesOf_dropCycle hx k
    have hbook : (b.dropCycle ⟨channel, id⟩).book k = b.book k := rfl
    rw [openCycles_cycleClosed, hbook, h.openCycles, cyclesOf_cycleClosed]
    exact Nat.sub_eq_of_eq_add hdrop.symm
  vouched := vouched_cycleClosed (b := b.dropCycle ⟨channel, id⟩) h.vouched _

theorem Counted.applyCycle (h : b.Counted) (cycle : BookCycle) :
    (b.applyCycle channel cycle).1.Counted := by
  obtain ⟨hbooks, hcycles, -⟩ := b.applyCycle_cases channel cycle
  rcases hbooks with ⟨-, -, hsame⟩ | ⟨-, heq⟩
  · refine h.quiet hcycles fun k ↦ ?_
    have hbook : (b.applyCycle channel cycle).1.book k = b.book k := by rw [book, hsame, book]
    rw [hbook]
    exact ⟨rfl, id⟩
  · rw [heq]
    exact h.update fun x ↦ InstrumentBook.Quiet.anchor x cycle

theorem Counted.snapshotEnd (h : b.Counted) (finish : SnapshotEnd) :
    (b.snapshotEnd channel finish).1.Counted := by
  rw [Book.snapshotEnd]
  split
  next => exact h
  next cycle hcycle => exact (h.closed hcycle).applyCycle cycle

theorem Counted.snapshotLevel (h : b.Counted) (l : SnapshotLevel) :
    (b.snapshotLevel channel l).Counted := by
  have hid (c : BookCycle) : (c.push l).instrumentId = c.instrumentId := by
    simp only [BookCycle.push]
    split <;> rfl
  refine ⟨fun k ↦ ?_, fun k ↦ ?_⟩
  · rw [book_snapshotLevel, h.openCycles, Book.snapshotLevel]
    split
    next => rfl
    next cycle hcycle =>
        have hsame : isCycleOf k ⟨channel, l.snapshotId⟩ (cycle.push l) =
            isCycleOf k ⟨channel, l.snapshotId⟩ cycle := by
          rw [isCycleOf, isCycleOf, hid]
        exact (countOf_insert_of_eq _ hcycle hsame).symm
  · rw [book_snapshotLevel]
    exact h.vouched k

/-- The count while a begin is under way: the cycle it displaces is counted off, and its own is
not yet counted. -/
theorem Counted.closeDisplaced (h : b.Counted) (x : Scoped Channel) (c : BookCycle)
    (k : Scoped Channel) :
    (((b.setCycle x c).closeDisplaced x.scope b.cycles[x]?).book k).openCycles =
      countOf (isCycleOf k) (b.cycles.erase x) := by
  have herase := countOf_erase (isCycleOf k) b.cycles x
  have hcount : ((b.setCycle x c).book k).openCycles = countOf (isCycleOf k) b.cycles :=
    h.openCycles k
  cases hx : b.cycles[x]? with
  | none =>
      rw [hx] at herase
      exact hcount.trans herase.symm
  | some cycle =>
      rw [hx, Option.elim_some] at herase
      rw [Book.closeDisplaced, openCycles_cycleClosed, hcount]
      exact Nat.sub_eq_of_eq_add herase.symm

/-- A begin counts its cycle.  The count does not wrap while fewer than `2 ^ 32` cycles are
open. -/
theorem Counted.snapshotBegin (h : b.Counted) (begin : SnapshotBegin)
    (hsize : (b.snapshotBegin channel begin).cycles.size < 2 ^ 32) :
    (b.snapshotBegin channel begin).Counted := by
  have hrest := h.closeDisplaced ⟨channel, begin.snapshotId⟩ (BookCycle.opened begin)
  refine ⟨fun k ↦ ?_, fun k ↦ ?_⟩
  · have hle : (b.snapshotBegin channel begin).cyclesOf k < 2 ^ 32 :=
      lt_of_le_of_lt (countOf_le_size _) hsize
    have hafter : (b.snapshotBegin channel begin).cyclesOf k =
        countOf (isCycleOf k) (b.cycles.erase ⟨channel, begin.snapshotId⟩) +
          (decide (channel = k.scope ∧ begin.instrumentId = k.id)).toNat := by
      rw [cyclesOf, snapshotBegin_cycles, countOf_insert]
      rfl
    rw [hafter] at hle ⊢
    simp only [Book.snapshotBegin, book_update]
    split
    next hk =>
        subst hk
        dsimp only
        rw [hrest]
        simp only [and_self, decide_true, Bool.toNat_true] at hle ⊢
        exact Nat.mod_eq_of_lt hle
    next hk =>
        have hnot : ¬(channel = k.scope ∧ begin.instrumentId = k.id) :=
          fun hsame ↦ hk (Scoped.ext hsame.1 hsame.2)
        rw [hrest, decide_eq_false hnot]
        rfl
  · obtain ⟨n, hn⟩ := b.book_snapshotBegin channel begin k
    rw [hn]
    exact (h.vouched k).openCycles n

/-- The cycles an object leaves open are counted off, each from its own instrument. -/
theorem openCycles_foldl_cycleClosed (l : List (Channel × ℕ)) (b : Book) (k : Scoped Channel) :
    ((l.foldl (fun b x ↦ b.cycleClosed x.1 x.2) b).book k).openCycles =
      (b.book k).openCycles - l.count (k.scope, k.id) := by
  induction l generalizing b with
  | nil => rfl
  | cons x l ih =>
      rw [List.foldl_cons, ih, openCycles_cycleClosed, List.count_cons, Nat.sub_sub, Nat.add_comm]
      congr 2
      simp only [beq_eq_decide, Prod.ext_iff]
      cases decide (x.1 = k.scope ∧ x.2 = k.id) <;> rfl

theorem vouched_foldl_cycleClosed (l : List (Channel × ℕ)) {b : Book}
    (h : ∀ k, (b.book k).Vouched) (k : Scoped Channel) :
    ((l.foldl (fun b x ↦ b.cycleClosed x.1 x.2) b).book k).Vouched := by
  induction l generalizing b with
  | nil => exact h k
  | cons x l ih => exact ih (vouched_cycleClosed h x.2)

theorem cycles_foldl_cycleClosed (l : List (Channel × ℕ)) (b : Book) :
    (l.foldl (fun b x ↦ b.cycleClosed x.1 x.2) b).cycles = b.cycles := by
  induction l generalizing b with
  | nil => rfl
  | cons x l ih => rw [List.foldl_cons, ih, cycleClosed_cycles]

theorem count_stranded (b : Book) (k : Scoped Channel) :
    (b.cycles.toList.map fun (x, cycle) ↦ (x.scope, cycle.instrumentId)).count (k.scope, k.id) =
      b.cyclesOf k := by
  rw [List.count, List.countP_map, cyclesOf, countOf]
  congr 1
  funext x
  simp only [Function.comp, isCycleOf, beq_eq_decide, Prod.ext_iff]

theorem Counted.closeObject (h : b.Counted) : b.closeObject.Counted := by
  refine ⟨fun k ↦ ?_, vouched_foldl_cycleClosed _ (by exact h.vouched)⟩
  have hcycles : b.closeObject.cycles = ∅ := cycles_foldl_cycleClosed _ _
  rw [cyclesOf, hcycles, countOf_empty, Book.closeObject, openCycles_foldl_cycleClosed,
    count_stranded, ← h.openCycles]
  exact Nat.sub_self _

/-! ## Every run of calls -/

theorem Counted.call (h : b.Counted) (c : BookCall) (hsize : (b.call c).cycles.size < 2 ^ 32) :
    (b.call c).Counted := by
  cases c with
  | observeSequence inst role n => exact h.observeSequence inst role n
  | quote channel q => exact h.update fun x ↦ InstrumentBook.Quiet.quote x q
  | level channel l => exact h.update fun x ↦ InstrumentBook.Quiet.level x l
  | clear channel c => exact h.update fun x ↦ InstrumentBook.Quiet.clear x c
  | reset channel r => exact h.update fun x ↦ InstrumentBook.Quiet.reset x r
  | snapshotBegin channel begin => exact h.snapshotBegin begin hsize
  | snapshotLevel channel l => exact h.snapshotLevel l
  | snapshotEnd channel finish => exact h.snapshotEnd finish
  | closeObject => exact h.closeObject

/-- Only a begin makes the map of cycles larger. -/
theorem size_cycles_call (b : Book) (c : BookCall) :
    (b.call c).cycles.size ≤ b.cycles.size + c.isBegin.toNat := by
  cases c with
  | observeSequence inst role n =>
      rw [call, observeSequence_cycles]
      exact Nat.le_add_right _ _
  | quote | level | clear | reset => exact Nat.le_add_right _ _
  | snapshotBegin channel begin =>
      rw [call, snapshotBegin_cycles]
      exact ExtTreeMap.size_insert_le
  | snapshotLevel channel l =>
      rw [call, Book.snapshotLevel]
      split
      next => exact Nat.le_add_right _ _
      next cycle hcycle =>
          have hmem : b.cycles.contains (⟨channel, l.snapshotId⟩ : Scoped Channel) = true := by
            rw [ExtTreeMap.contains_eq_isSome_getElem?, hcycle]
            rfl
          rw [setCycle, ExtTreeMap.size_insert]
          simp only [hmem, if_true]
          exact Nat.le_add_right _ _
  | snapshotEnd channel finish =>
      rw [call, Book.snapshotEnd]
      split
      next => exact Nat.le_add_right _ _
      next cycle _ =>
          rw [(applyCycle_cases ..).2.1, cycleClosed_cycles, dropCycle]
          exact ExtTreeMap.size_erase_le
  | closeObject =>
      have hcycles : b.closeObject.cycles = ∅ := cycles_foldl_cycleClosed _ _
      rw [call, hcycles]
      exact Nat.zero_le _

/-- What holds of the book after any calls among which are fewer than `2 ^ 32` begins. -/
theorem counted_run (calls : List BookCall) (h : calls.countP BookCall.isBegin < 2 ^ 32) :
    (run call {} calls).Counted := by
  suffices hbounded : (run call {} calls).Counted ∧
      (run call {} calls).cycles.size ≤ calls.countP BookCall.isBegin from hbounded.1
  refine run_history (P := fun pre (b : Book) ↦ b.Counted ∧
    b.cycles.size ≤ pre.countP BookCall.isBegin) calls ⟨Counted.empty, Nat.zero_le _⟩ ?_
  intro pre c hpre hinv
  have hsize : ((run call {} pre).call c).cycles.size ≤
      (pre ++ [c]).countP BookCall.isBegin := by
    rw [List.countP_append, List.countP_singleton]
    refine ((run call {} pre).size_cycles_call c).trans (Nat.add_le_add hinv.2 ?_)
    cases c.isBegin <;> simp
  have hle := hpre.sublist.countP_le (p := BookCall.isBegin)
  exact ⟨hinv.1.call c (Nat.lt_of_le_of_lt (hsize.trans hle) h), hsize⟩

/-- Whichever calls a book takes in, with fewer than `2 ^ 32` begins among them, the count of every
instrument is the number of its cycles; a book is being built from a snapshot exactly when it is
not established, awaits no reset's anchor and such a cycle is open; and an established book is
ready or in a gap. -/
theorem openCycles_eq_cycles (calls : List BookCall)
    (h : calls.countP BookCall.isBegin < 2 ^ 32) (channel : Channel) (id : ℕ) :
    ((run call {} calls).book ⟨channel, id⟩).openCycles =
        (run call {} calls).cyclesOf ⟨channel, id⟩ ∧
      (((run call {} calls).book ⟨channel, id⟩).status = .buildingSnapshot ↔
        ((run call {} calls).book ⟨channel, id⟩).established = false ∧
          ((run call {} calls).book ⟨channel, id⟩).awaitingAnchor = none ∧
          ∃ snapshotId cycle, (run call {} calls).cycles[(⟨channel, snapshotId⟩ : Scoped Channel)]? =
            some cycle ∧ cycle.instrumentId = id) ∧
      (((run call {} calls).book ⟨channel, id⟩).established = true →
        ((run call {} calls).book ⟨channel, id⟩).status = .ready ∨
          ((run call {} calls).book ⟨channel, id⟩).status = .gap) := by
  have hinv := counted_run calls h
  generalize run call {} calls = b at hinv ⊢
  have hcount := hinv.openCycles ⟨channel, id⟩
  have hopen : 0 < b.cyclesOf ⟨channel, id⟩ ↔ ∃ snapshotId cycle,
      b.cycles[(⟨channel, snapshotId⟩ : Scoped Channel)]? = some cycle ∧
        cycle.instrumentId = id := by
    rw [cyclesOf, countOf_pos]
    constructor
    · rintro ⟨⟨scope, snapshotId⟩, cycle, hcycle, hof⟩
      obtain ⟨rfl, hid⟩ := of_decide_eq_true hof
      exact ⟨snapshotId, cycle, hcycle, hid⟩
    · rintro ⟨snapshotId, cycle, hcycle, hid⟩
      exact ⟨⟨channel, snapshotId⟩, cycle, hcycle, decide_eq_true ⟨rfl, hid⟩⟩
  refine ⟨hcount, ?_, (hinv.vouched _).status⟩
  rw [InstrumentBook.status_eq_buildingSnapshot (hinv.vouched _), hcount, hopen]

/-- A begin that displaces the cycle of another instrument. -/
theorem openCycles_eq_cycles_displaced :
    let calls : List BookCall := [.snapshotBegin ⟨5, 1⟩ ⟨1, 10, 2, 7, 0⟩,
      .snapshotBegin ⟨5, 1⟩ ⟨2, 11, 2, 7, 0⟩]
    ((run call {} calls).book ⟨⟨5, 1⟩, 1⟩).openCycles = (run call {} calls).cyclesOf ⟨⟨5, 1⟩, 1⟩ ∧
      (run call {} calls).cyclesOf ⟨⟨5, 1⟩, 1⟩ = 0 ∧
      (run call {} calls).cyclesOf ⟨⟨5, 1⟩, 2⟩ = 1 :=
  ⟨(openCycles_eq_cycles _ (by decide) ⟨5, 1⟩ 1).1, by decide +kernel, by decide +kernel⟩

end Book

end EdgeMulticast.Recorder
