import EdgeMulticast.Lib.FirstMissing
import EdgeMulticast.MarketByPrice.Invariant
import EdgeMulticast.MarketByPrice.Publisher
import Mathlib.Order.Interval.Finset.Nat

/-!
# What the replay of a buffer applies

A commit replays the deltas buffered before it.  The replay walks the buffer in datagram order
and skips an entry whose datagram is not past the last applied one, but it moves that tracker
itself.  The second of two deltas in one datagram is therefore skipped, and everything behind
it waits for a number that never comes (`Shard.replay_skips_same_datagram`).

`Shard.commit_replays_iff` is the exact extent of this.  A buffer that holds the run of deltas
behind the snapshot is replayed whole exactly when it is `Clear`: every entry is within the
reorder window of the first number still missing at its turn, and its datagram is past that of
the delta before that number.

In one direction the loop keeps an instrument that has applied everything before the first
missing number and holds the rest (`Replayed`).  In the other, an entry that is skipped leaves
a number that nothing will fill (`Works.blocked`), and an entry beyond the window demotes the
instrument for the rest of the loop (`Works.not_ready`).
-/

namespace EdgeMulticast.MarketByPrice

open Std (ExtTreeMap)
open EdgeMulticast.Lib

/-! ## A run of deltas and its buffer -/

/-- The buffer entry of one delta. -/
def entryOf (delta : ℕ → Record) (q : ℕ) : BufferedDelta := ⟨(delta q).sequenceNumber, delta q⟩

/-- The deltas numbered `n + 1` to `n + m`, as a buffer holds them: each once, in some order,
filed under its own datagram. -/
structure BuffersRun (n m : ℕ) (delta : ℕ → Record) (buf : List BufferedDelta) : Prop where
  perm : buf.Perm ((List.range' (n + 1) m).map (entryOf delta))
  isDelta : ∀ q, n < q → q ≤ n + m → (delta q).isDelta = true
  wellFormed : ∀ q, n < q → q ≤ n + m → malformedRecord (delta q) = none
  seq : ∀ q, n < q → q ≤ n + m → (delta q).perInstrumentSeq = q

/-- The deltas of the run, in the order of their numbers. -/
def deltasFrom (n m : ℕ) (delta : ℕ → Record) : List Record :=
  (List.range' (n + 1) m).map delta

/-- The datagram of the last delta before number `e`, the snapshot's anchor if there is none. -/
def datagramBefore (n anchor : ℕ) (delta : ℕ → Record) (e : ℕ) : ℕ :=
  if e = n + 1 then anchor else (delta (e - 1)).sequenceNumber

/-- An entry whose turn comes when the numbers `seen` have gone before it: it is within the
reorder window of the first missing number, and past the datagram before that number. -/
def ClearAt (n anchor : ℕ) (delta : ℕ → Record) (seen : List ℕ) (b : BufferedDelta) : Prop :=
  ∀ e, FirstMissing n seen e → b.record.perInstrumentSeq ≤ e + reorderWindow ∧
    datagramBefore n anchor delta e < b.mktdataSeq

/-- Every entry is clear at its turn. -/
def Clear (n anchor : ℕ) (delta : ℕ → Record) : List ℕ → List BufferedDelta → Prop
  | _, [] => True
  | seen, b :: bs => ClearAt n anchor delta seen b ∧
      Clear n anchor delta (seen ++ [b.record.perInstrumentSeq]) bs

/-! ## Nothing fills a number that was skipped -/

section

variable {Q : Record → Prop} {k : InstKey} {s s' : Shard}

/-- A ready instrument is still before number `q`. -/
def Blocked (q : ℕ) (k : InstKey) (s : Shard) : Prop :=
  ∀ i, s.instruments[k]? = some i → i.status = .ready →
    i.lastAppliedInstrumentSeq < q ∧ i.lostInstrumentSeq = ∅

/-- The instrument is not ready. -/
def Idle (k : InstKey) (s : Shard) : Prop :=
  ∀ i, s.instruments[k]? = some i → i.status ≠ .ready

/-- Applying other numbers does not reach `q`. -/
theorem Instrument.catchUp_blocked {i : Instrument} {rec : Record} {q : ℕ} (hq : q < 2 ^ 32)
    (hi : i.Holds fun r ↦ r.perInstrumentSeq ≠ q) (hlast : i.lastAppliedInstrumentSeq < q)
    (hlost : i.lostInstrumentSeq = ∅) (hne : rec.perInstrumentSeq ≠ q)
    (next : rec.perInstrumentSeq = i.nextExpectedInstrumentSeq) :
    (i.catchUp rec).lastAppliedInstrumentSeq < q ∧ (i.catchUp rec).lostInstrumentSeq = ∅ := by
  refine (Instrument.drainPending_induction (P := fun j ↦
    j.Holds (fun r ↦ r.perInstrumentSeq ≠ q) ∧ j.lastAppliedInstrumentSeq < q ∧
      j.lostInstrumentSeq = ∅) ?_ _ (hi.advance_mutate rec).wellFormed
    ⟨hi.advance_mutate rec, ?_, by simp [hlost]⟩).2
  · rintro j held pr ⟨hj, hjlast, hjlost⟩ hheld hpr -
    obtain ⟨hpr_ne, -, hseq⟩ := hj held hheld _ pr hpr
    rw [Instrument.nextExpected_of_lost_empty hjlost] at hseq
    refine ⟨hj.drainStep hheld pr, ?_, by simp [hjlost]⟩
    rw [Instrument.drainStep_lastAppliedInstrumentSeq]
    omega
  · rw [Instrument.nextExpected_of_lost_empty hlost] at next
    rw [Instrument.advance_lastAppliedInstrumentSeq]
    omega

theorem Idle.blocked (h : Idle k s) (q : ℕ) : Blocked q k s :=
  fun i hi ready ↦ absurd ready (h i hi)

theorem Work.not_ready (h : Work Q k s s') (hs : Idle k s) : Idle k s' := by
  cases h with
  | turn here transition =>
      cases transition <;> exact absurd ‹_› (hs _ here)
  | buffer σ => exact Shard.bufferDelta_idle σ hs

/-- An instrument that is not ready stays so while deltas are classified. -/
theorem Works.not_ready (h : Works Q k s s') (hs : Idle k s) : Idle k s' := by
  induction h with
  | refl => exact hs
  | tail _ hwork ih => exact hwork.not_ready ih

theorem Work.blocked {q : ℕ} (hq : q < 2 ^ 32)
    (h : Work (fun r ↦ r.perInstrumentSeq ≠ q) k s s')
    (hheld : s.Holds (fun r ↦ r.perInstrumentSeq ≠ q) k) (hs : Blocked q k s) :
    Blocked q k s' := by
  cases h with
  | @turn i i' here transition =>
      rintro j hj ready'
      rw [Shard.setInst_self] at hj
      obtain rfl := Option.some.inj hj
      cases transition with
      | hold ready => exact hs i here ready
      | gap => simp at ready'
      | demote => simp at ready'
      | contiguous ready own wf next =>
          obtain ⟨hlast, hlost⟩ := hs i here ready
          exact Instrument.catchUp_blocked hq (hheld.pending i here) hlast hlost own next
  | buffer σ own idle => exact Idle.blocked (Shard.bufferDelta_idle σ idle) q

/-- While the number `q` is neither held nor delivered, a ready instrument stays before it. -/
theorem Works.blocked {q : ℕ} (hq : q < 2 ^ 32)
    (h : Works (fun r ↦ r.perInstrumentSeq ≠ q) k s s')
    (hheld : s.Holds (fun r ↦ r.perInstrumentSeq ≠ q) k) (hs : Blocked q k s) :
    Blocked q k s' := by
  suffices hboth : s'.Holds (fun r ↦ r.perInstrumentSeq ≠ q) k ∧ Blocked q k s' from hboth.2
  induction h with
  | refl => exact ⟨hheld, hs⟩
  | tail _ hwork ih => exact ⟨hwork.holds ih.1, hwork.blocked hq ih.1 ih.2⟩

end

/-! ## The instrument inside the loop -/

section

variable {n m anchor : ℕ} {delta : ℕ → Record} {c : Instrument}

/-- One more delta of the run. -/
theorem deltasFrom_succ (n m : ℕ) (delta : ℕ → Record) :
    deltasFrom n (m + 1) delta = deltasFrom n m delta ++ [delta (n + 1 + m)] := by
  rw [deltasFrom, deltasFrom, List.range'_1_concat, List.map_append, List.map_singleton]

variable (n m anchor delta c) in
/-- The instrument after the numbers `seen` were taken from the buffer: it has applied the run
up to its last number on top of `c`, and holds the rest. -/
structure Replaying (seen : List ℕ) (j : Instrument) (evs : List ChannelEvent) : Prop where
  status : j.status = .ready
  lost : j.lostInstrumentSeq = ∅
  id : j.id = c.id
  symbol : j.symbol = c.symbol
  le : n ≤ j.lastAppliedInstrumentSeq
  bound : n + m < 2 ^ 32
  run : ∀ q, n < q → q ≤ n + m → malformedRecord (delta q) = none ∧
    (delta q).isDelta = true ∧ (delta q).perInstrumentSeq = q
  range : ∀ q ∈ seen, n < q ∧ q ≤ n + m
  reached : ∀ q, n < q → q ≤ j.lastAppliedInstrumentSeq → q ∈ seen
  near : ∀ q ∈ seen, q ≤ j.lastAppliedInstrumentSeq + 1 + reorderWindow
  datagram : j.lastAppliedMktdataSeq =
    datagramBefore n anchor delta (j.lastAppliedInstrumentSeq + 1)
  window : ∀ (q : ℕ) (r : Record), (j.pending.getD ∅)[q]? = some r ↔
    r = delta q ∧ q ∈ seen ∧ j.lastAppliedInstrumentSeq < q
  book : j.sides =
    (deltasFrom n (j.lastAppliedInstrumentSeq - n) delta).foldl Sides.after c.sides
  events : evs = (deltasFrom n (j.lastAppliedInstrumentSeq - n) delta).map
    fun rec ↦ ⟨.appliedDelta, c.id, c.symbol, rec⟩

namespace Replaying

variable {seen seen' : List ℕ} {j j' : Instrument} {evs : List ChannelEvent}

/-- Whatever is held is held under its own number. -/
theorem holds (h : Replaying n m anchor delta c seen j evs) {q : ℕ} (hq : q ∉ seen) :
    j.Holds fun r ↦ r.perInstrumentSeq ≠ q := by
  intro held hheld x r hr
  obtain ⟨rfl, hx, -⟩ := (h.window x r).mp (by rw [hheld]; exact hr)
  obtain ⟨hwf, -, hseq⟩ := h.run x (h.range x hx).1 (h.range x hx).2
  refine ⟨?_, hwf, hseq⟩
  change (delta x).perInstrumentSeq ≠ q
  rw [hseq]
  rintro rfl
  exact hq hx

theorem wellFormed (h : Replaying n m anchor delta c seen j evs) : j.HeldWellFormed := by
  intro held hheld x r hr
  obtain ⟨rfl, hx, -⟩ := (h.window x r).mp (by rw [hheld]; exact hr)
  exact (h.run x (h.range x hx).1 (h.range x hx).2).1

/-- The next number of the run is applied. -/
theorem apply (h : Replaying n m anchor delta c seen j evs)
    (hle : j.lastAppliedInstrumentSeq + 1 ≤ n + m)
    (hseen : ∀ q, q ∈ seen' ↔ q ∈ seen ∨ q = j.lastAppliedInstrumentSeq + 1)
    (hstatus : j'.status = j.status) (hid : j'.id = j.id) (hsymbol : j'.symbol = j.symbol)
    (hlost : j'.lostInstrumentSeq =
      j.lostInstrumentSeq.filter (j.lastAppliedInstrumentSeq + 1 < ·))
    (hlast : j'.lastAppliedInstrumentSeq = j.lastAppliedInstrumentSeq + 1)
    (hmktdata : j'.lastAppliedMktdataSeq =
      (delta (j.lastAppliedInstrumentSeq + 1)).sequenceNumber)
    (hsides : j'.sides = j.sides.after (delta (j.lastAppliedInstrumentSeq + 1)))
    (hwindow : ∀ (q : ℕ) (r : Record), (j'.pending.getD ∅)[q]? = some r ↔
      (j.pending.getD ∅)[q]? = some r ∧ q ≠ j.lastAppliedInstrumentSeq + 1) :
    Replaying n m anchor delta c seen' j' (evs ++
      [⟨.appliedDelta, j.id, j.symbol, delta (j.lastAppliedInstrumentSeq + 1)⟩]) := by
  have hn := h.le
  have hsucc : deltasFrom n (j'.lastAppliedInstrumentSeq - n) delta =
      deltasFrom n (j.lastAppliedInstrumentSeq - n) delta ++
        [delta (j.lastAppliedInstrumentSeq + 1)] := by
    have hsub : j'.lastAppliedInstrumentSeq - n = j.lastAppliedInstrumentSeq - n + 1 := by omega
    have hadd : n + 1 + (j.lastAppliedInstrumentSeq - n) = j.lastAppliedInstrumentSeq + 1 := by
      omega
    rw [hsub, deltasFrom_succ, hadd]
  refine
    { status := hstatus.trans h.status
      lost := by rw [hlost, h.lost, Finset.filter_empty]
      id := hid.trans h.id
      symbol := hsymbol.trans h.symbol
      le := by omega
      bound := h.bound
      run := h.run
      range := fun q hq ↦ ?_
      reached := fun q hlo hhi ↦ ?_
      near := fun q hq ↦ ?_
      datagram := ?_
      window := fun q r ↦ ?_
      book := by rw [hsides, hsucc, List.foldl_append, h.book]; rfl
      events := by rw [hsucc, List.map_append, ← h.events, h.id, h.symbol]; rfl }
  · rcases (hseen q).mp hq with hq | rfl
    · exact h.range q hq
    · exact ⟨by omega, hle⟩
  · rw [hlast] at hhi
    rcases Nat.lt_or_ge j.lastAppliedInstrumentSeq q with hlt | hge
    · exact (hseen q).mpr (Or.inr (by omega))
    · exact (hseen q).mpr (Or.inl (h.reached q hlo hge))
  · rw [hlast]
    rcases (hseen q).mp hq with hq | rfl
    · have := h.near q hq
      omega
    · omega
  · rw [hlast, hmktdata, datagramBefore, if_neg (by omega), Nat.add_sub_cancel]
  · rw [hwindow, h.window, hlast, hseen]
    constructor
    · rintro ⟨⟨rfl, hq, hlt⟩, hne⟩
      exact ⟨rfl, Or.inl hq, by omega⟩
    · rintro ⟨rfl, hq, hlt⟩
      exact ⟨⟨rfl, hq.resolve_right (by omega), by omega⟩, by omega⟩

/-- A drain applies the contiguous rest of what is held. -/
theorem drainPending (h : Replaying n m anchor delta c seen j evs) :
    Replaying n m anchor delta c seen (j.drainPending j.pendingSize).1
      (evs ++ (j.drainPending j.pendingSize).2.1) := by
  refine Instrument.drainPending_trace (P := Replaying n m anchor delta c seen) ?_ _
    h.wellFormed evs h
  rintro j held pr evs h hheld hpr -
  have hnext := Instrument.nextExpected_of_lost_empty h.lost
  obtain ⟨rfl, hseen, hlt⟩ := (h.window _ pr).mp (by rw [hheld]; exact hpr)
  have hrange := h.range _ hseen
  have hbound := h.bound
  have hn : j.nextExpectedInstrumentSeq = j.lastAppliedInstrumentSeq + 1 := by omega
  rw [hn] at hseen hrange hpr ⊢
  obtain ⟨hwf, hdelta, hseq⟩ := h.run _ hrange.1 hrange.2
  refine h.apply hrange.2 (fun q ↦ ?_) (by simp) (by simp) (by simp) (by simp [hseq])
    (by simp [hseq]) (by simp) (j.drainStep_sides held hdelta hwf) fun q r ↦ ?_
  · refine ⟨Or.inl, ?_⟩
    rintro (hq | rfl)
    · exact hq
    · exact hseen
  · rw [Instrument.drainStep_window, hn, hheld, Option.getD_some, getElem?_erase_eq]
    split
    next heq => simp [← heq]
    next hne => simp [Ne.symm hne]

/-- The expected number arrives. -/
theorem catchUp (h : Replaying n m anchor delta c seen j evs)
    (hnot : j.lastAppliedInstrumentSeq + 1 ∉ seen) (hle : j.lastAppliedInstrumentSeq + 1 ≤ n + m)
    {d : Record} (hd : d = delta (j.lastAppliedInstrumentSeq + 1)) :
    Replaying n m anchor delta c (seen ++ [j.lastAppliedInstrumentSeq + 1]) (j.catchUp d)
      (evs ++ ⟨.appliedDelta, j.id, j.symbol, d⟩ ::
        (((j.mutate d).advance d).drainPending
          ((j.mutate d).advance d).pendingSize).2.1) := by
  have hn := h.le
  obtain ⟨hwf, hdelta, hseq⟩ := h.run (j.lastAppliedInstrumentSeq + 1) (by omega) hle
  subst hd
  have happly : Replaying n m anchor delta c (seen ++ [j.lastAppliedInstrumentSeq + 1])
      ((j.mutate (delta (j.lastAppliedInstrumentSeq + 1))).advance
        (delta (j.lastAppliedInstrumentSeq + 1))) (evs ++
      [⟨.appliedDelta, j.id, j.symbol, delta (j.lastAppliedInstrumentSeq + 1)⟩]) := by
    refine h.apply hle (fun q ↦ ?_) (by simp) (by simp) (by simp) (by simp [hseq]) (by simp [hseq])
      (by simp) (j.mutate_sides hdelta hwf) fun q r ↦ ?_
    · rw [List.mem_append, List.mem_singleton]
    · rw [Instrument.advance_pending, Instrument.mutate_pending, h.window]
      constructor
      · rintro ⟨rfl, hq, hlt⟩
        refine ⟨⟨rfl, hq, hlt⟩, ?_⟩
        rintro rfl
        exact hnot hq
      · exact And.left
  have hdrain := happly.drainPending
  rwa [List.append_assoc] at hdrain

/-- A number within the window arrives ahead of the expected one. -/
theorem hold (h : Replaying n m anchor delta c seen j evs) {q : ℕ}
    (hahead : j.lastAppliedInstrumentSeq + 1 < q) (hle : q ≤ n + m)
    (hnear : q ≤ j.lastAppliedInstrumentSeq + 1 + reorderWindow) :
    Replaying n m anchor delta c (seen ++ [q]) (j.hold (delta q)) evs := by
  have hn := h.le
  obtain ⟨hwf, hdelta, hseq⟩ := h.run q (by omega) hle
  have hmem (x : ℕ) : x ∈ seen ++ [q] ↔ x ∈ seen ∨ x = q := by
    rw [List.mem_append, List.mem_singleton]
  refine
    { h with
      range := fun x hx ↦ ?_
      reached := fun x hlo hhi ↦ (hmem x).mpr (Or.inl (h.reached x hlo hhi))
      near := fun x hx ↦ ?_
      window := fun x r ↦ ?_ }
  · rcases (hmem x).mp hx with hx | rfl
    · exact h.range x hx
    · exact ⟨by omega, hle⟩
  · rcases (hmem x).mp hx with hx | rfl
    · exact h.near x hx
    · exact hnear
  · change (((j.pending.getD ∅).insert (delta q).perInstrumentSeq (delta q))[x]?) = some r ↔
      r = delta x ∧ x ∈ seen ++ [q] ∧ j.lastAppliedInstrumentSeq < x
    rw [hseq, getElem?_insert_eq, hmem]
    split
    next hx =>
        subst hx
        rw [Option.some_inj, eq_comm]
        exact ⟨fun hr ↦ ⟨hr, Or.inr rfl, by omega⟩, And.left⟩
    next hne =>
        rw [h.window, or_iff_left (Ne.symm hne)]

/-- The window never overflows: it holds numbers after the expected one and near it. -/
theorem pendingSize_le (h : Replaying n m anchor delta c seen j evs)
    (hnot : j.lastAppliedInstrumentSeq + 1 ∉ seen) : j.pendingSize ≤ reorderWindow := by
  have hsub : keySet (j.pending.getD ∅) ⊆ Finset.Ioc (j.lastAppliedInstrumentSeq + 1)
      (j.lastAppliedInstrumentSeq + 1 + reorderWindow) := by
    intro q hq
    obtain ⟨r, hr⟩ := mem_keySet.mp hq
    obtain ⟨-, hseen, hlt⟩ := (h.window q r).mp hr
    rw [Finset.mem_Ioc]
    refine ⟨lt_of_le_of_ne hlt ?_, h.near q hseen⟩
    rintro rfl
    exact hnot hseen
  have hcard := Finset.card_le_card hsub
  rwa [card_keySet, Nat.card_Ioc, Nat.add_sub_cancel_left] at hcard

end Replaying

variable (n m anchor delta c) in
/-- Between two entries the expected number is the first one missing. -/
structure Replayed (seen : List ℕ) (j : Instrument) (evs : List ChannelEvent) : Prop extends
    Replaying n m anchor delta c seen j evs where
  stopped : j.lastAppliedInstrumentSeq + 1 ∉ seen

namespace Replayed

variable {seen : List ℕ} {j : Instrument} {evs : List ChannelEvent}

theorem firstMissing (h : Replayed n m anchor delta c seen j evs) :
    FirstMissing n seen (j.lastAppliedInstrumentSeq + 1) where
  after := Nat.lt_succ_of_le h.le
  missing := h.stopped
  before := fun q hlo hhi ↦ h.reached q hlo (Nat.le_of_lt_succ hhi)

theorem clearAt_iff (h : Replayed n m anchor delta c seen j evs) (b : BufferedDelta) :
    ClearAt n anchor delta seen b ↔
      b.record.perInstrumentSeq ≤ j.lastAppliedInstrumentSeq + 1 + reorderWindow ∧
        j.lastAppliedMktdataSeq < b.mktdataSeq := by
  rw [h.datagram]
  constructor
  · intro hclear
    exact hclear _ h.firstMissing
  · intro hclear e he
    rwa [he.unique h.firstMissing]

/-- Every number between two entries is expected or ahead. -/
theorem nextExpected (h : Replayed n m anchor delta c seen j evs) {q : ℕ} (hlo : n < q)
    (hhi : q ≤ n + m) (hq : q ∉ seen) :
    j.nextExpectedInstrumentSeq = j.lastAppliedInstrumentSeq + 1 ∧
      j.lastAppliedInstrumentSeq + 1 ≤ q := by
  have hle := h.firstMissing.le_of_notMem hlo hq
  have hbound := h.bound
  rw [Instrument.nextExpected_of_lost_empty h.lost]
  omega

/-- A drain leaves the expected number missing. -/
theorem of_catchUp (h : Replayed n m anchor delta c seen j evs)
    (hle : j.lastAppliedInstrumentSeq + 1 ≤ n + m) {d : Record}
    (hd : d = delta (j.lastAppliedInstrumentSeq + 1)) :
    Replayed n m anchor delta c (seen ++ [j.lastAppliedInstrumentSeq + 1]) (j.catchUp d)
      (evs ++ ⟨.appliedDelta, j.id, j.symbol, d⟩ ::
        (((j.mutate d).advance d).drainPending
          ((j.mutate d).advance d).pendingSize).2.1) := by
  have hcatch := h.toReplaying.catchUp h.stopped hle hd
  refine ⟨hcatch, fun hmem ↦ ?_⟩
  have hrange := hcatch.range _ hmem
  have hbound := h.bound
  have hheld : ((j.mutate d).advance d).HeldWellFormed := by
    intro held hheld
    exact h.wellFormed held (by simpa using hheld)
  have hstop := Instrument.drainPending_stops _ hheld (le_refl _)
  have hnext : (j.catchUp d).nextExpectedInstrumentSeq =
      (j.catchUp d).lastAppliedInstrumentSeq + 1 := by
    rw [Instrument.nextExpected_of_lost_empty hcatch.lost]
    omega
  have hsome := (hcatch.window _ _).mpr ⟨rfl, hmem, Nat.lt_succ_self _⟩
  cases hpending : (j.catchUp d).pending with
  | none => simp [hpending] at hsome
  | some held =>
      rw [hpending, Option.getD_some, ← hnext] at hsome
      have hnone := hstop held hpending
      rw [Instrument.catchUp] at hsome
      rw [hsome] at hnone
      exact absurd hnone (by simp)

end Replayed

end

/-! ## The loop -/

section

variable {n m : ℕ} {delta : ℕ → Record} {seen : List ℕ}

/-- The rest of the buffer, when the numbers `seen` are behind. -/
structure Remains (n m : ℕ) (delta : ℕ → Record) (seen : List ℕ) (bs : List BufferedDelta) :
    Prop where
  entry : ∀ b ∈ bs, ∃ q, n < q ∧ q ≤ n + m ∧ b = entryOf delta q
  perm : (seen ++ bs.map fun b ↦ b.record.perInstrumentSeq).Perm (List.range' (n + 1) m)

theorem Remains.head {b : BufferedDelta} {bs : List BufferedDelta}
    (h : Remains n m delta seen (b :: bs)) :
    b.record.perInstrumentSeq ∉ seen ∧
      ∀ b' ∈ bs, b'.record.perInstrumentSeq ≠ b.record.perInstrumentSeq := by
  have hnodup := h.perm.nodup_iff.mpr List.nodup_range'
  rw [List.map_cons, List.nodup_append] at hnodup
  refine ⟨fun hmem ↦ hnodup.2.2 _ hmem _ List.mem_cons_self rfl, fun b' hb' heq ↦ ?_⟩
  exact (List.nodup_cons.mp hnodup.2.1).1 (heq ▸ List.mem_map_of_mem hb')

theorem Remains.tail {b : BufferedDelta} {bs : List BufferedDelta}
    (h : Remains n m delta seen (b :: bs)) :
    Remains n m delta (seen ++ [b.record.perInstrumentSeq]) bs where
  entry := fun b' hb' ↦ h.entry b' (List.mem_cons_of_mem b hb')
  perm := by
    have hperm := h.perm
    rwa [List.map_cons, List.append_cons] at hperm

/-- Before the first entry the whole run remains. -/
theorem BuffersRun.remains {buf : List BufferedDelta} (h : BuffersRun n m delta buf) :
    Remains n m delta [] buf where
  entry := by
    intro b hb
    rw [h.perm.mem_iff, List.mem_map] at hb
    obtain ⟨q, hq, rfl⟩ := hb
    rw [List.mem_range'_1] at hq
    exact ⟨q, by omega, by omega, rfl⟩
  perm := by
    refine (h.perm.map _).trans (List.Perm.of_eq ?_)
    rw [List.map_map]
    refine (List.map_congr_left fun q hq ↦ ?_).trans (List.map_id _)
    rw [List.mem_range'_1] at hq
    exact h.seq q (by omega) (by omega)

end

/-- What a replay that loses nothing comes to: the instrument is ready behind the whole run,
its book is the run applied to the committed levels, and there is one event for each delta. -/
def ReplaysAll (n m : ℕ) (delta : ℕ → Record) (c : Instrument) (k : InstKey) (s : Shard)
    (evs : List ChannelEvent) : Prop :=
  ∃ j, s.instruments[k]? = some j ∧ j.status = .ready ∧ j.lastAppliedInstrumentSeq = n + m ∧
    j.sides = (deltasFrom n m delta).foldl Sides.after c.sides ∧
    evs = (deltasFrom n m delta).map fun rec ↦ ⟨.appliedDelta, c.id, c.symbol, rec⟩

namespace Shard

variable {n m anchor : ℕ} {delta : ℕ → Record} {c j : Instrument} {k : InstKey} {s : Shard}
  {seen : List ℕ} {evs : List ChannelEvent} {q : ℕ}

/-- A clear entry is applied or held, and the loop goes on. -/
theorem replayLoop_clear (σ : Choices) (h : Replayed n m anchor delta c seen j evs)
    (here : s.instruments[k]? = some j) (hlo : n < q) (hhi : q ≤ n + m) (hq : q ∉ seen)
    (hclear : ClearAt n anchor delta seen (entryOf delta q)) :
    ∃ j' evs', Replayed n m anchor delta c (seen ++ [q]) j' (evs ++ evs') ∧
      ∀ bs, replayLoop σ s k (entryOf delta q :: bs) =
        ((replayLoop (σ.sub 1) (s.setInst k j') k bs).1,
          evs' ++ (replayLoop (σ.sub 1) (s.setInst k j') k bs).2) := by
  obtain ⟨hwf, hdelta, hseq⟩ := h.run q hlo hhi
  obtain ⟨hnext, hle⟩ := h.nextExpected hlo hhi hq
  obtain ⟨hnear, hlate⟩ := (h.clearAt_iff _).mp hclear
  rw [entryOf, hseq] at hnear
  have hready : ¬j.status ≠ .ready := not_not.mpr h.status
  have hloop (bs : List BufferedDelta) : replayLoop σ s k (entryOf delta q :: bs) =
      ((replayLoop (σ.sub 1) (s.applyDeltaToReady (σ.sub 0) k j (delta q)).1 k bs).1,
        (s.applyDeltaToReady (σ.sub 0) k j (delta q)).2 ++
          (replayLoop (σ.sub 1) (s.applyDeltaToReady (σ.sub 0) k j (delta q)).1 k bs).2) := by
    rw [replayLoop, here]
    simp only [if_neg (Nat.not_le_of_lt hlate), if_neg hready]
    rfl
  rcases Nat.eq_or_lt_of_le hle with heq | hlt
  · -- the expected number
    subst heq
    have hcatch := h.of_catchUp hhi rfl
    refine ⟨_, _, hcatch, fun bs ↦ ?_⟩
    have happly : s.applyDeltaToReady (σ.sub 0) k j (delta (j.lastAppliedInstrumentSeq + 1)) =
        s.applyContiguous (σ.sub 0) k j (delta (j.lastAppliedInstrumentSeq + 1)) := by
      simp [applyDeltaToReady, hnext, hseq, hwf]
    rw [hloop, happly, applyContiguous_eq _ h.wellFormed hwf]
  · -- ahead of it, within the window
    have hhold : Replayed n m anchor delta c (seen ++ [q]) (j.hold (delta q)) evs := by
      refine ⟨h.toReplaying.hold hlt hhi hnear, ?_⟩
      rw [List.mem_append, List.mem_singleton]
      rintro (hmem | heq)
      · exact h.stopped hmem
      · exact absurd heq (Nat.ne_of_lt hlt)
    refine ⟨_, [], by rwa [List.append_nil], fun bs ↦ ?_⟩
    have hsize := hhold.pendingSize_le hhold.stopped
    have happly : s.applyDeltaToReady (σ.sub 0) k j (delta q) =
        (s.setInst k (j.hold (delta q)), []) := by
      simp only [applyDeltaToReady, hnext, hseq, hwf, Option.isSome_none, Bool.false_eq_true,
        if_false, if_neg (Nat.not_lt_of_lt hlt), if_pos hlt]
      rw [if_pos ⟨hsize, by omega⟩]
    rw [hloop, happly]

/-- An entry that is not clear leaves its number unapplied, whatever follows. -/
theorem replayLoop_blocked (σ : Choices) (h : Replayed n m anchor delta c seen j evs)
    (here : s.instruments[k]? = some j) (hbuf : s.deltaBuf[k]? = none) (hlo : n < q)
    (hhi : q ≤ n + m) (hq : q ∉ seen) {bs : List BufferedDelta}
    (hbs : BufferHolds (fun r ↦ r.perInstrumentSeq ≠ q) bs)
    (hnot : ¬ClearAt n anchor delta seen (entryOf delta q)) :
    Blocked q k (replayLoop σ s k (entryOf delta q :: bs)).1 := by
  obtain ⟨hwf, hdelta, hseq⟩ := h.run q hlo hhi
  obtain ⟨hnext, hle⟩ := h.nextExpected hlo hhi hq
  have hbound := h.bound
  have hheld : s.Holds (fun r ↦ r.perInstrumentSeq ≠ q) k := by
    refine ⟨fun i hi ↦ ?_, fun buf hbuf' ↦ ?_⟩
    · rw [← Option.some.inj (here.symm.trans hi)]
      exact h.holds hq
    · rw [hbuf] at hbuf'
      exact absurd hbuf' (by simp)
  rw [replayLoop, here]
  dsimp only
  by_cases hskip : (entryOf delta q).mktdataSeq ≤ j.lastAppliedMktdataSeq
  · -- skipped
    rw [if_pos hskip]
    refine (replayLoop_works (σ.sub 1) hbs hheld).blocked (by omega) hheld fun i hi _ ↦ ?_
    rw [← Option.some.inj (here.symm.trans hi)]
    exact ⟨by omega, h.lost⟩
  · -- beyond the window: the instrument is demoted
    have hfar : ¬q ≤ j.lastAppliedInstrumentSeq + 1 + reorderWindow := by
      intro hnear
      refine hnot ((h.clearAt_iff _).mpr ⟨?_, Nat.lt_of_not_le hskip⟩)
      rw [entryOf, hseq]
      exact hnear
    have hready : ¬j.status ≠ .ready := not_not.mpr h.status
    rw [if_neg hskip, if_neg hready]
    have hgap : s.applyDeltaToReady (σ.sub 0) k j (delta q) =
        ((s.setInst k ((j.hold (delta q)).declareGap q)).bufferDelta (σ.sub 0).here k (delta q),
          [⟨.perInstrumentGap, (j.hold (delta q)).id, (j.hold (delta q)).symbol, delta q⟩]) := by
      simp only [applyDeltaToReady, hnext, hseq, hwf, Option.isSome_none, Bool.false_eq_true,
        if_false, if_neg (Nat.not_lt_of_le hle)]
      rw [if_pos (by omega), if_neg (by rintro ⟨-, hnear⟩; omega)]
    have hidle : Idle k (s.applyDeltaToReady (σ.sub 0) k j (delta q)).1 := by
      rw [hgap]
      refine bufferDelta_idle _ fun i hi ↦ ?_
      rw [setInst_self] at hi
      simp [← Option.some.inj hi]
    have hheld' : (s.applyDeltaToReady (σ.sub 0) k j (delta q)).1.Holds (fun _ ↦ True) k := by
      have hs : s.Holds (fun _ ↦ True) k :=
        holds_iff.mpr ((holds_iff.mp hheld).mono fun _ _ ↦ trivial)
      exact (applyDeltaToReady_works _ here h.status (hs.pending j here) trivial).holds hs
    have hbs' : BufferHolds (fun _ ↦ True) bs := fun b hb ↦ ⟨trivial, (hbs b hb).2⟩
    exact ((replayLoop_works (σ.sub 1) hbs' hheld').not_ready hidle).blocked q

/-- The loop loses nothing of the rest exactly when the rest is clear. -/
theorem replayLoop_iff (σ : Choices) {bs : List BufferedDelta}
    (h : Replayed n m anchor delta c seen j evs) (here : s.instruments[k]? = some j)
    (hbuf : s.deltaBuf[k]? = none) (hrest : Remains n m delta seen bs) :
    ReplaysAll n m delta c k (replayLoop σ s k bs).1 (evs ++ (replayLoop σ s k bs).2) ↔
      Clear n anchor delta seen bs := by
  induction bs generalizing σ s j seen evs with
  | nil =>
      have hall : FirstMissing n seen (n + m + 1) := by
        refine FirstMissing.of_perm_range' ?_
        have hperm := hrest.perm
        rwa [List.map_nil, List.append_nil] at hperm
      have hlast : j.lastAppliedInstrumentSeq = n + m :=
        Nat.succ_injective (h.firstMissing.unique hall)
      have hm : j.lastAppliedInstrumentSeq - n = m := by omega
      rw [Clear, iff_true, replayLoop, List.append_nil]
      exact ⟨j, here, h.status, hlast, hm ▸ h.book, hm ▸ h.events⟩
  | cons b bs ih =>
      obtain ⟨hfresh, hdistinct⟩ := hrest.head
      obtain ⟨q, hlo, hhi, rfl⟩ := hrest.entry b List.mem_cons_self
      have hseq : (entryOf delta q).record.perInstrumentSeq = q := (h.run q hlo hhi).2.2
      have htail := hrest.tail
      rw [Clear]
      rw [hseq] at hfresh htail ⊢
      by_cases hclear : ClearAt n anchor delta seen (entryOf delta q)
      · obtain ⟨j', evs', hnext, hloop⟩ := replayLoop_clear σ h here hlo hhi hfresh hclear
        rw [hloop bs, ← List.append_assoc]
        rw [ih (σ.sub 1) hnext (setInst_self ..) hbuf htail]
        exact (and_iff_right hclear).symm
      · refine iff_of_false ?_ fun hboth ↦ hclear hboth.1
        rintro ⟨j', hj', ready', hlast', -, -⟩
        have hbs : BufferHolds (fun r ↦ r.perInstrumentSeq ≠ q) bs := by
          intro b' hb'
          refine ⟨hseq ▸ hdistinct b' hb', ?_⟩
          obtain ⟨x, -, -, rfl⟩ := hrest.entry b' (List.mem_cons_of_mem _ hb')
          rfl
        have hblocked := replayLoop_blocked σ h here hbuf hlo hhi hfresh hbs hclear
        have := (hblocked j' hj' ready').1
        omega

/-! ## The commit -/

variable {e : Record} {i : Instrument} {p : PendingSnapshot}

/-- Before the first entry nothing is applied and nothing is held. -/
theorem committed_replayed (h : i.Inv (2 ^ 32)) (hopen : i.openSnapshot = some p)
    (commit : i.Committable p e) {buf : List BufferedDelta}
    (hrun : BuffersRun p.lastInstrumentSeq m delta buf) :
    Replayed p.lastInstrumentSeq m p.anchorSeq delta (i.commitSnapshot p) []
      (i.snapshotEnd e).1 [] := by
  have hlost := h.commit_lost commit
  have hlt := h.shadow p hopen
  rw [Instrument.snapshotEnd_of_commit hopen commit]
  refine ⟨?_, List.not_mem_nil⟩
  exact
    { status := rfl
      lost := hlost
      id := rfl
      symbol := rfl
      le := le_refl _
      bound := by
        rcases Nat.eq_zero_or_pos m with rfl | hpos
        · exact hlt
        · have hseq := hrun.seq (p.lastInstrumentSeq + m) (by omega) (le_refl _)
          rw [← hseq]
          exact Record.perInstrumentSeq_lt _
      run := fun q hlo hhi ↦ ⟨hrun.wellFormed q hlo hhi, hrun.isDelta q hlo hhi, hrun.seq q hlo hhi⟩
      range := fun q hq ↦ absurd hq List.not_mem_nil
      reached := fun q hlo hhi ↦ absurd hlo (Nat.not_lt_of_le hhi)
      near := fun q hq ↦ absurd hq List.not_mem_nil
      datagram := (if_pos rfl).symm
      window := fun q r ↦ by simp
      book := by simp [deltasFrom, Instrument.sides]
      events := by simp [deltasFrom] }

/-- **What a commit replays.**  In every reachable state, when a commit meets a buffer that
holds the run of deltas behind its snapshot, the whole run is applied exactly when the buffer
is clear. -/
theorem commit_replays_iff {maxBuffered : ℤ} {symbols : Option (List String)} {past : List Turn}
    (σ : Choices)
    (here : (run step (new maxBuffered symbols) past).instruments[k]? = some i)
    (hopen : i.openSnapshot = some p) (commit : i.Committable p e)
    (hrun : BuffersRun p.lastInstrumentSeq m delta
      ((run step (new maxBuffered symbols) past).buffered k)) :
    (∃ evs, ((run step (new maxBuffered symbols) past).applySnapshotEnd σ k e).2 =
        ⟨.appliedSnapshot, k.id, i.symbol, e⟩ :: evs ∧
      ReplaysAll p.lastInstrumentSeq m delta (i.commitSnapshot p) k
        ((run step (new maxBuffered symbols) past).applySnapshotEnd σ k e).1 evs) ↔
      Clear p.lastInstrumentSeq p.anchorSeq delta []
        ((run step (new maxBuffered symbols) past).buffered k) := by
  have hinv : ((run step (new maxBuffered symbols) past).view k).Inv (2 ^ 32) k.id :=
    run_inv (by decide) maxBuffered symbols (fun b _ ↦ b.2.bounded) k
  generalize run step (new maxBuffered symbols) past = s at here hrun hinv ⊢
  have hend := (Instrument.snapshotEnd_eq_none_iff e hopen).mpr commit
  have hsymbol : (i.snapshotEnd e).1.symbol = i.symbol := by
    rw [Instrument.snapshotEnd_of_commit hopen commit]
    rfl
  rcases s.applySnapshotEnd_cases σ k e with
    ⟨hnone, -⟩ | ⟨i', p', hinst, hopen', ⟨err, herr, -⟩ | ⟨-, evs, hevs, heq⟩⟩
  · exact absurd (hnone i here) (by simp [hopen])
  · obtain rfl : i = i' := Option.some.inj (here.symm.trans hinst)
    exact absurd herr (by simp [hend])
  · obtain rfl : i = i' := Option.some.inj (here.symm.trans hinst)
    have hloop := replayLoop_iff σ (s := (s.setInst k (i.snapshotEnd e).1).takeBuffer k)
      (k := k) (committed_replayed (hinv.inst i here).1 hopen commit hrun) (setInst_self ..)
      (ExtTreeMap.getElem?_erase_self ..) hrun.remains
    rw [← hloop, heq, hevs, hsymbol]
    have hinsts : ∀ s' : Shard, ∀ evs', (s'.noteConsistencyPoint k evs').instruments[k]? =
        s'.instruments[k]? := fun s' evs' ↦ congrArg View.inst (s'.view_noteConsistencyPoint k evs')
    constructor
    · rintro ⟨evs', hcons, j, hj, rest⟩
      rw [hinsts] at hj
      rw [← (List.cons.inj hcons).2] at rest
      exact ⟨j, hj, rest⟩
    · rintro ⟨j, hj, rest⟩
      exact ⟨_, rfl, j, by rw [hinsts]; exact hj, rest⟩

/-! ## Two deltas, in two datagrams and in one -/

/-- Two deltas behind a snapshot for five, in the datagrams `a` and `b`. -/
def twoDeltas (a b : ℕ) (q : ℕ) : Record :=
  if q = 6 then levelUpdateRec ⟨0, 11⟩ a 6 .bid 900 3 else levelUpdateRec ⟨0, 11⟩ b 7 .ask 901 4

/-- The snapshot is open and the deltas are buffered. -/
def beforeEnd (a b : ℕ) : List Turn :=
  [.record (instDefRec ⟨0, 11⟩ "BTC" 5), .record (snapBeginRec ⟨0, 11⟩ 1 0 5 50),
    .record (twoDeltas a b 6), .record (twoDeltas a b 7)].map fun msg ↦ (default, msg)

theorem twoDeltas_run {a b : ℕ} {buf : List BufferedDelta}
    (h : buf.Perm [entryOf (twoDeltas a b) 6, entryOf (twoDeltas a b) 7]) :
    BuffersRun 5 2 (twoDeltas a b) buf := by
  refine ⟨h, fun q hlo hhi ↦ ?_, fun q hlo hhi ↦ ?_, fun q hlo hhi ↦ ?_⟩ <;>
    obtain rfl | rfl : q = 6 ∨ q = 7 := by omega
  all_goals rfl

theorem commit_replays_iff_twoDatagrams :
    ∃ i p, (run step (new 10 none) (beforeEnd 99 100)).instruments[(⟨0, 11⟩ : InstKey)]? = some i ∧
      i.openSnapshot = some p ∧ ∃ evs,
        ((run step (new 10 none) (beforeEnd 99 100)).applySnapshotEnd default ⟨0, 11⟩
            (snapEndRec ⟨0, 11⟩ 1 50)).2 =
          ⟨.appliedSnapshot, 11, i.symbol, snapEndRec ⟨0, 11⟩ 1 50⟩ :: evs ∧
        ReplaysAll p.lastInstrumentSeq 2 (twoDeltas 99 100) (i.commitSnapshot p) ⟨0, 11⟩
          ((run step (new 10 none) (beforeEnd 99 100)).applySnapshotEnd default ⟨0, 11⟩
            (snapEndRec ⟨0, 11⟩ 1 50)).1 evs := by
  have hstate : ((run step (new 10 none) (beforeEnd 99 100)).instruments[
      (⟨0, 11⟩ : InstKey)]?).any (fun i ↦ i.openSnapshot.any fun p ↦ decide
        (i.Committable p (snapEndRec ⟨0, 11⟩ 1 50) ∧ p.lastInstrumentSeq = 5 ∧
          p.anchorSeq = 50)) = true := by
    decide
  simp only [Option.any_eq_true, decide_eq_true_iff] at hstate
  obtain ⟨i, hi, p, hp, hcommit, hlast, hanchor⟩ := hstate
  refine ⟨i, p, hi, hp, ?_⟩
  refine (commit_replays_iff default hi hp hcommit ?_).mpr ?_
  · rw [hlast]
    exact twoDeltas_run (by decide)
  · have hbuf : (run step (new 10 none) (beforeEnd 99 100)).buffered ⟨0, 11⟩ =
        [entryOf (twoDeltas 99 100) 6, entryOf (twoDeltas 99 100) 7] := by
      decide
    rw [hbuf, hlast, hanchor]
    refine ⟨fun e he ↦ ?_, fun e he ↦ ?_, trivial⟩
    · rw [he.unique (FirstMissing.nil 5)]
      decide
    · rw [he.unique (FirstMissing.of_perm_range' (m := 1) (List.Perm.refl _))]
      decide

/-- Both deltas in one datagram: the replay applies the first and skips the second. -/
theorem replay_skips_same_datagram :
    let s := run step (new 10 none) (beforeEnd 100 100)
    let r := s.applySnapshotEnd default ⟨0, 11⟩ (snapEndRec ⟨0, 11⟩ 1 50)
    BuffersRun 5 2 (twoDeltas 100 100) (s.buffered ⟨0, 11⟩) ∧
      (∀ b ∈ s.buffered ⟨0, 11⟩, 50 < b.mktdataSeq) ∧
      (∃ i ∈ s.instruments[(⟨0, 11⟩ : InstKey)]?, i.status ≠ .ready ∧ ∃ p ∈ i.openSnapshot,
        p.lastInstrumentSeq = 5 ∧ p.anchorSeq = 50 ∧
          i.Committable p (snapEndRec ⟨0, 11⟩ 1 50)) ∧
      r.1.instruments[(⟨0, 11⟩ : InstKey)]?.map (·.lastAppliedInstrumentSeq) ≠ some 7 ∧
      r.1.buffered ⟨0, 11⟩ = [] := by
  refine ⟨twoDeltas_run (by decide), by decide, by decide, by decide, by decide⟩

end Shard

end EdgeMulticast.MarketByPrice
