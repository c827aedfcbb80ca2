import EdgeMulticast.Recorder.Coherent

/-!
# Which cycles give certainty back after a hole

A hole on `mktdata` takes the certainty of every established book of its channel, and on a delta
feed the end of a complete cycle is what gives it back.  `snapshot_end` compares the anchor of
the cycle with an unrecovered reset and with nothing else: a cycle whose begin was sent before
the hole and whose end arrives after it restores certainty, although the deltas of the hole are
in neither the cycle nor the book (`early_cycle_restores`).

`owed` follows the last missing number of the holes that no cycle has covered yet, and
`certain_only_covered` says which runs never call such a book certain: those in which every
cycle that anchors the book while a number is owed is anchored at that number or later.
-/

namespace EdgeMulticast.Recorder

open Std (ExtTreeMap)
open EdgeMulticast.Lib

/-! ## What is owed -/

namespace Fold

variable (f : Fold) (k : Scoped Channel)

/-- The complete cycle of the instrument that the message ends. -/
def ending (d : Decoded) : Option BookCycle :=
  match d with
  | .state (.snapshotEnd finish) p =>
      if Channel.of p.inst = k.scope ∧
          (f.table.resolve k.scope finish.instrumentId p.recvTsNs).isSome then
        (f.book.cycles[(⟨k.scope, finish.snapshotId⟩ : Scoped Channel)]?).filter fun cycle ↦
          decide (cycle.instrumentId = k.id ∧ cycle.levels = cycle.totalLevels)
      else none
  | _ => none

/-- A cycle that anchors has ended. -/
theorem ending_of_anchoring {f : Fold} {k : Scoped Channel} {d : Decoded} {cycle : BookCycle}
    (h : f.anchoring k d = some cycle) : f.ending k d = some cycle := by
  obtain ⟨finish, p, rfl⟩ := end_of_anchoring h
  rw [anchoring] at h
  rw [ending]
  split at h
  next hfolded =>
      rw [if_pos hfolded]
      obtain ⟨here, hcycle⟩ := Option.filter_eq_some_iff.mp h
      obtain ⟨hid, hcomplete, -⟩ := of_decide_eq_true hcycle
      exact Option.filter_eq_some_iff.mpr ⟨here, decide_eq_true ⟨hid, hcomplete⟩⟩
  next => exact absurd h (by simp)

/-- What is owed once the arrival of the datagram has been noted: a hole that finds the book
established adds the last number that is missing. -/
def owedAt (owed : Option ℕ) (p : WireProvenance) : Option ℕ :=
  if (f.hole p).isSome ∧ Channel.of p.inst = k.scope ∧ (f.book.book k).established then
    some (max (owed.getD 0) (p.sequenceNumber - 1))
  else owed

/-- What is owed after the message: a complete cycle that ends pays what lies at or before its
anchor. -/
def owedAfter (owed : Option ℕ) (d : Decoded) : Option ℕ :=
  let owed := f.owedAt k owed d.provenance
  match (f.observe d.provenance).ending k d with
  | none => owed
  | some cycle => owed.filter fun m ↦ decide (cycle.anchorSeq < m)

/-- Every cycle that anchors the book covers what is owed. -/
def Covers (owed : Option ℕ) (d : Decoded) : Prop :=
  ∀ cycle ∈ (f.observe d.provenance).anchoring k d, ∀ m ∈ f.owedAt k owed d.provenance,
    m ≤ cycle.anchorSeq

instance (owed : Option ℕ) (d : Decoded) : Decidable (f.Covers k owed d) :=
  inferInstanceAs (Decidable (∀ cycle ∈ _, _))

/-- While a number is owed the book is uncertain. -/
def Waits (owed : Option ℕ) : Prop := owed.isSome → (f.book.book k).certain = false

instance (owed : Option ℕ) : Decidable (f.Waits k owed) :=
  inferInstanceAs (Decidable (_ → _))

end Fold

/-- The last number of the holes that found the book of the instrument established and that no
complete cycle of it has covered since. -/
def owed (input : EventInput) (k : Scoped Channel) (ds : List Decoded) : Option ℕ :=
  ghost (Fold.step input) (fun f owed d ↦ f.owedAfter k owed d) {} none ds

/-! ## One step -/

namespace Fold

variable {f : Fold} {k : Scoped Channel} {o : Option ℕ} (input : EventInput)

theorem Waits.observe (h : f.Waits k o) (p : WireProvenance) :
    (f.observe p).Waits k (f.owedAt k o p) := by
  rw [Waits, owedAt, book_observe]
  cases hhole : f.hole p with
  | none => simpa [Waits] using h
  | some m =>
      rw [Option.isSome_some]
      split
      next howed =>
          intro
          dsimp only
          split
          next => exact InstrumentBook.lose_certain _ m
          next hkept =>
              refine InstrumentBook.certain_of_not_believed howed.2.2 ?_
              exact Bool.eq_false_iff.mpr fun hbelieved ↦ hkept ⟨howed.2.1.symm, hbelieved⟩
      next =>
          intro hsome
          dsimp only
          split
          · exact InstrumentBook.lose_certain _ m
          · exact h hsome

/-- **One step.**  A book that waits goes on waiting exactly when the message anchors it with
no cycle below what is owed. -/
theorem step_waits {d : Decoded} (hquote : d.isQuote = false) (h : f.Waits k o) :
    (f.step input d).Waits k (f.owedAfter k o d) ↔ f.Covers k o d := by
  have hobserve := h.observe d.provenance
  rw [step, Covers, owedAfter]
  generalize f.owedAt k o d.provenance = o' at hobserve ⊢
  generalize f.observe d.provenance = f' at hobserve ⊢
  cases hanchor : f'.anchoring k d with
  | none =>
      refine iff_of_true ?_ (by simp)
      intro hsome
      refine message_certain input (fun h ↦ absurd (h.1.symm.trans hquote) Bool.noConfusion) hanchor
        (hobserve ?_)
      split at hsome
      · exact hsome
      · exact Option.isSome_of_isSome_filter _ _ hsome
  | some cycle =>
      obtain ⟨n, hn⟩ := f'.message_anchoring input hanchor
      rw [ending_of_anchoring hanchor, Waits, hn]
      cases o' <;> simp

end Fold

/-! ## Runs -/

/-- **Certainty after loss.**  In the run of a delta feed a book is uncertain from the hole that
found it established to the complete cycle that covers it, exactly when no cycle that anchors it
in between is anchored below the hole. -/
theorem certain_only_covered (input : EventInput) (k : Scoped Channel) (ds : List Decoded)
    (hdelta : ∀ d ∈ ds, d.isQuote = false) :
    (∀ pre, pre <+: ds → (fold input pre).Waits k (owed input k pre)) ↔
      ∀ pre d, pre ++ [d] <+: ds → (fold input pre).Covers k (owed input k pre) d :=
  run_ghost_iff ds (P := fun (f : Fold) o ↦ f.Waits k o)
    (R := fun f o d ↦ f.Covers k o d) (fun h ↦ absurd h Bool.noConfusion)
    fun _ _ d hd h ↦ Fold.step_waits input (hdelta d hd) h

/-! ## A cycle that covers the hole, and one that does not -/

/-- The instrument's book is anchored at 10, and the numbers 11 and 12 are missing. -/
def missed : List RecordedDatagram :=
  [datagram .refdata 1 [.reference (.definition (definition 5))],
    datagram .mktdata 10 [.market (.trade ⟨5, 0⟩)],
    datagram .snapshot 1 (group 5 1 10)]

/-- A begin at `anchor`, the datagram behind the hole, and the end. -/
def late (anchor : ℕ) : List RecordedDatagram :=
  [datagram .snapshot 2 [.state (.snapshotBegin ⟨5, anchor, 0, 2, 0⟩)],
    datagram .mktdata 13 [.market (.trade ⟨5, 0⟩)],
    datagram .snapshot 3 [.state (.snapshotEnd ⟨5, anchor, 2⟩)]]

theorem certain_only_covered_at_end :
    let ds := inOrder 0 0 (missed ++ late 12)
    ∀ pre, pre <+: ds → (fold ⟨0, false⟩ pre).Waits ⟨⟨1, 7⟩, 5⟩ (owed ⟨0, false⟩ ⟨⟨1, 7⟩, 5⟩ pre) := by
  refine (certain_only_covered ⟨0, false⟩ ⟨⟨1, 7⟩, 5⟩ _ (by decide)).mpr ?_
  change ∀ pre a, pre ++ [a] <+: [_, _, _, _, _, _, _] → _
  simp only [forall_prefix_cons]
  refine ⟨?_, ?_, ?_, ?_, ?_, ?_, ?_, forall_prefix_nil⟩ <;> decide

/-- The cycle is anchored at 10, before the hole, and ends after it: 12 is still owed, and the
book is certain. -/
theorem early_cycle_restores :
    let ds := inOrder 0 0 (missed ++ late 10)
    owed ⟨0, false⟩ ⟨⟨1, 7⟩, 5⟩ ds = some 12 ∧
      ¬(fold ⟨0, false⟩ ds).Waits ⟨⟨1, 7⟩, 5⟩ (owed ⟨0, false⟩ ⟨⟨1, 7⟩, 5⟩ ds) := by
  decide

/-!
## Deltas that no definition resolves

A message of an instrument without a definition in force is counted and skipped.  When it is a
delta the book of the instrument misses it, and nothing tells the book: the table of definitions
is cleared by a new era of the reference data, the books are not (`skipped_delta_certain`).

`unfolded` says whether a delta has been skipped since a cycle last anchored the book, and
`skipped_costs` which runs let the book pay for it.
-/

/-- The messages that change a book without anchoring it. -/
def Decoded.isDelta : Decoded → Bool
  | .market (.level _) _ | .market (.clear _) _ | .state (.reset _) _ => true
  | _ => false

namespace Fold

variable (f : Fold) (k : Scoped Channel)

/-- A delta of the instrument finds no definition in force. -/
def skips (d : Decoded) : Bool :=
  d.isDelta && decide (Channel.of d.provenance.inst = k.scope) && decide (d.names = some k.id) &&
    (f.table.resolve k.scope k.id d.provenance.recvTsNs).isNone

theorem skips_iff {d : Decoded} : f.skips k d = true ↔ d.isDelta = true ∧
    Channel.of d.provenance.inst = k.scope ∧ d.names = some k.id ∧
      f.table.resolve k.scope k.id d.provenance.recvTsNs = none := by
  simp [skips, and_assoc]

/-- A delta that is skipped is counted and changes nothing else. -/
theorem message_skips (input : EventInput) {d : Decoded} (h : f.skips k d = true) :
    f.message input d = { f with out := f.out.unresolved } := by
  obtain ⟨hdelta, hscope, hnames, hnone⟩ := (f.skips_iff k).mp h
  rw [← hscope] at hnone
  have hid {id : ℕ} (hd : d.names = some id) : id = k.id := Option.some.inj (hd.symm.trans hnames)
  rcases d with ⟨body, p⟩ | ⟨body, p⟩ | ⟨body, p⟩
  · rw [← hid rfl] at hnone
    simp only [message, market]
    rw [show f.table.resolve (Channel.of p.inst) (instrumentOfMarket body) p.recvTsNs = none
      from hnone]
  · cases body with
    | reset r =>
        rw [← hid rfl] at hnone
        simp only [message, state, instrumentOfState]
        rw [show f.table.resolve (Channel.of p.inst) r.instrumentId p.recvTsNs = none from hnone]
    | snapshotBegin | snapshotLevel | snapshotEnd => exact absurd hdelta Bool.noConfusion
  · exact absurd hdelta Bool.noConfusion

/-- Whether a delta is unfolded after the message: it is skipped, or an earlier one has been and
no cycle anchors the book. -/
def unfoldedAfter (unfolded : Bool) (d : Decoded) : Bool :=
  f.skips k d || (unfolded && ((f.observe d.provenance).anchoring k d).isNone)

/-- A book with an unfolded delta is uncertain, and so is every row of its instrument that is
written before a cycle anchors it. -/
structure Pays (input : EventInput) (unfolded : Bool) (d : Decoded) : Prop where
  book : f.unfoldedAfter k unfolded d = true → ((f.step input d).book.book k).certain = false
  rows : unfolded = true → (f.observe d.provenance).anchoring k d = none →
    ∀ row ∈ f.written (f.step input d), row.isOf k = true → row.bookCertain = false

/-- The messages that let a book with an unfolded delta say or seem that it is certain do not
occur. -/
structure Charges (unfolded : Bool) (d : Decoded) : Prop where
  /-- A delta that is skipped finds the book uncertain already. -/
  skipped : f.skips k d = true → ((f.observe d.provenance).book.book k).certain = false
  /-- No quote of the instrument is folded. -/
  quoted : unfolded = true → ¬f.quotes k d
  /-- No end that names the instrument changes the book of another. -/
  named : unfolded = true → (f.observe d.provenance).NamesOwn k d

end Fold

/-- Whether a delta of the instrument has been skipped since a cycle last anchored its book. -/
def unfolded (input : EventInput) (k : Scoped Channel) (ds : List Decoded) : Bool :=
  ghost (Fold.step input) (fun f unfolded d ↦ f.unfoldedAfter k unfolded d) {} false ds

/-! ### One step -/

namespace Fold

variable {f : Fold} {k : Scoped Channel} {u : Bool} (input : EventInput)

@[simp] theorem observe_skips (p : WireProvenance) (d : Decoded) :
    (f.observe p).skips k d = f.skips k d := by
  rw [skips, observe_table, skips]

/-- **One step.**  A book that pays for its unfolded delta goes on paying exactly when the
message charges it. -/
theorem step_pays {d : Decoded} (htidy : f.Tidy) (h : u = true → (f.book.book k).certain = false) :
    f.Pays k input u d ↔ f.Charges k u d := by
  constructor
  · rintro ⟨book, rows⟩
    refine ⟨fun hskip ↦ ?_, fun hu hquote ↦ ?_, fun hu hscope hnames k' cycle hanchor hchange ↦ ?_⟩
    · have hpaid := book (by rw [unfoldedAfter, hskip, Bool.true_or])
      rw [← f.observe_skips d.provenance] at hskip
      rwa [step, message_skips _ k input hskip] at hpaid
    · have hpaid := book ?_
      · have hcertain := message_quotes input ((f.observe_quotes d.provenance d).mpr hquote)
        exact absurd (hpaid.symm.trans hcertain) Bool.noConfusion
      · rw [unfoldedAfter, hu, Bool.true_and, anchoring_of_isQuote hquote.1, Option.isNone_none,
          Bool.or_true]
    · obtain ⟨row, hrow, hof, hcertain⟩ := written_of_named input htidy hscope hnames hanchor hchange
      by_contra hne
      have hnone : (f.observe d.provenance).anchoring k d = none := by
        cases hown : (f.observe d.provenance).anchoring k d with
        | none => rfl
        | some c => exact absurd (anchoring_unique hanchor hown) hne
      exact absurd ((rows hu hnone row hrow hof).symm.trans hcertain) Bool.noConfusion
  · rintro ⟨skipped, quoted, named⟩
    have hbook (hafter : f.unfoldedAfter k u d = true) :
        ((f.step input d).book.book k).certain = false := by
      rcases (Bool.or_eq_true _ _).mp hafter with hskip | hafter
      · rw [step, message_skips _ k input (by rwa [observe_skips])]
        exact skipped hskip
      · obtain ⟨hu, hnone⟩ := (Bool.and_eq_true _ _).mp hafter
        refine message_certain input (fun hquote ↦ quoted hu ?_) (Option.isNone_iff_eq_none.mp hnone)
          (observe_certain _ (h hu))
        exact (f.observe_quotes d.provenance d).mp hquote
    refine ⟨hbook, fun hu hnone row hrow hof ↦ ?_⟩
    refine written_uncertain input htidy hrow hof (hbook ?_) (named hu)
    rw [unfoldedAfter, hu, hnone, Option.isNone_none, Bool.and_true, Bool.or_true]

end Fold

/-! ### Runs -/

/-- **A skipped delta costs the book its certainty**, in the book and in every row of its
instrument until a cycle anchors it again, exactly when no delta is skipped while the book is
certain, and until that cycle no quote of the instrument is folded and no end in its name changes
the book of another. -/
theorem skipped_costs (input : EventInput) (k : Scoped Channel) (ds : List Decoded) :
    (∀ pre d, pre ++ [d] <+: ds → (fold input pre).Pays k input (unfolded input k pre) d) ↔
      ∀ pre d, pre ++ [d] <+: ds → (fold input pre).Charges k (unfolded input k pre) d := by
  refine run_step_iff (P := fun (f : Fold) u ↦ f.Tidy ∧ (u = true → (f.book.book k).certain = false))
    (Q := fun f u d ↦ f.Pays k input u d) (R := fun f u d ↦ f.Charges k u d) ds
    ⟨Fold.Tidy.empty, fun h ↦ absurd h Bool.noConfusion⟩ (fun f u d _ h hpays ↦ ?_)
    fun f u d _ h hcharges ↦ ?_
  · exact (Fold.step_pays input h.1 h.2).mp hpays
  · have hpays := (Fold.step_pays input h.1 h.2).mpr hcharges
    exact ⟨hpays, h.1.step input d, hpays.book⟩

/-! ### A skipped delta that costs nothing -/

/-- The bid at 100 is removed while a new era of the reference data has not defined the
instrument yet, and every row that follows quotes it. -/
theorem skipped_delta_certain :
    let ds := inOrder 0 0
      [datagram .refdata 1 [.reference (.definition (definition 5))],
        datagram .mktdata 10 [.market (.trade ⟨5, 0⟩)],
        datagram .snapshot 1 (snapshotGroup 5 1 10 [(sideBid, 100, 1)]),
        { datagram .refdata 1 [.reference (.manifest ⟨1, 1⟩)] with resetCount := 1 },
        datagram .mktdata 11 [.market (.level ⟨5, sideBid, 100, 0, 0⟩)],
        { datagram .refdata 2 [.reference (.definition (definition 5))] with resetCount := 1 },
        datagram .mktdata 12 [.market (.level ⟨5, 1, 200, 1, 0⟩)]]
    let f := fold ⟨0, false⟩ ds
    f.out.refused.unresolvedInstrument = 1 ∧
      (f.out.bookTop.getLast?.map fun row ↦
        (row.provenance.sequenceNumber, row.top.bid.priceRaw, row.bookCertain)) =
          some (12, some 100, true) ∧
      unfolded ⟨0, false⟩ ⟨⟨1, 7⟩, 5⟩ ds = true ∧ (f.book.book ⟨⟨1, 7⟩, 5⟩).certain = true := by
  decide

end EdgeMulticast.Recorder
