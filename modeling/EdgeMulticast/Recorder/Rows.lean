import EdgeMulticast.Recorder.Coherent

/-!
# Whether the rows tell the whole story

A row of `book_top` is written when the top or the certainty of a book changes, so that the last
row of an instrument says what its book holds.  `Fold.told` is what the last row says and
`InstrumentBook.stated` what the book holds.

Two rows go missing.  A hole takes the certainty of every established book of its channel, and a
book whose instrument has no definition in force at that instant gets no row
(`hole_row_dropped`).  A snapshot end writes its row under the instrument that the end names,
while the book it changes is the one of the cycle's begin.  `rows_tell` says that there is no
third way.
-/

namespace EdgeMulticast.Recorder

open Std (ExtTreeMap)
open EdgeMulticast.Lib

/-! ## The last row -/

/-- What the last of some rows says of an instrument. -/
def told (k : Scoped Channel) (rows : List BookTop) : Option (Top × Certainty) :=
  ((rows.filter (·.isOf k)).getLast?).map (·.content)

theorem told_append_of_none {k : Scoped Channel} {rows new : List BookTop}
    (h : ∀ row ∈ new, row.isOf k = false) : told k (rows ++ new) = told k rows := by
  have hnone : new.filter (·.isOf k) = [] :=
    List.filter_eq_nil_iff.mpr fun row hrow ↦ by simp [h row hrow]
  rw [told, List.filter_append, hnone, List.append_nil, told]

/-- Rows of an instrument that all say the same are what is told of it from then on. -/
theorem told_append_of_some {k : Scoped Channel} {rows new : List BookTop} {x : Top × Certainty}
    (hmem : ∃ row ∈ new, row.isOf k = true)
    (h : ∀ row ∈ new, row.isOf k = true → row.content = x) : told k (rows ++ new) = some x := by
  obtain ⟨row, hrow, hof⟩ := hmem
  have hne : new.filter (·.isOf k) ≠ [] :=
    List.ne_nil_of_mem (List.mem_filter.mpr ⟨hrow, hof⟩)
  rw [told, List.filter_append, List.getLast?_append_of_ne_nil _ hne,
    List.getLast?_eq_getLast_of_ne_nil hne, Option.map_some]
  obtain ⟨hlast, hlastof⟩ := List.mem_filter.mp (List.getLast_mem hne)
  rw [h _ hlast hlastof]

namespace Fold

variable (f : Fold)

/-- The last row of every instrument whose book has something to state is what it states.  A
book states something from its first change on, and never takes it back. -/
def LastRows : Prop :=
  ∀ k, (f.book.book k).stated.isSome → told k f.out.bookTop = (f.book.book k).stated

/-- The two rows that have to be written where they belong. -/
structure TellsAll (d : Decoded) : Prop where
  /-- Every book that a hole takes the certainty of resolves at that instant. -/
  hole : (f.hole d.provenance).isSome →
    ∀ k : Scoped Channel, Channel.of d.provenance.inst = k.scope →
      (f.book.book k).believed = true →
        (f.table.resolve k.scope k.id d.provenance.recvTsNs).isSome
  /-- An end whose cycle changes a book names the instrument of the cycle. -/
  finish : ∀ k, ∀ cycle ∈ (f.observe d.provenance).anchoring k d,
    ((f.observe d.provenance).book.book k).stated ≠ some (cycle.top, Certainty.known) →
      d.names = some k.id

/-- The rows are where the books are. -/
structure Told : Prop extends f.Tidy where
  told : ∀ k, Recorder.told k f.out.bookTop = (f.book.book k).stated

variable {f}

theorem Told.lastRows (h : f.Told) : f.LastRows := fun k _ ↦ h.told k

theorem Told.empty : ({} : Fold).Told := ⟨Tidy.empty, fun _ ↦ rfl⟩

/-! ## The arrival -/

theorem observe_told (h : f.Told) (p : WireProvenance)
    (hresolve : (f.hole p).isSome → ∀ k : Scoped Channel, Channel.of p.inst = k.scope →
      (f.book.book k).believed = true → (f.table.resolve k.scope k.id p.recvTsNs).isSome) :
    (f.observe p).Told := by
  refine ⟨h.toTidy.observe p, fun k ↦ ?_⟩
  obtain ⟨rows, hrows, hmem⟩ := f.observe_bookTop p
  rw [hrows, book_observe]
  cases hhole : f.hole p with
  | none =>
      refine (told_append_of_none fun row hrow ↦ ?_).trans (h.told k)
      obtain ⟨m, -, -, hm, -⟩ := (hmem row).mp hrow
      exact absurd (hhole.symm.trans hm) (by simp)
  | some m =>
      dsimp only
      split
      next hloses =>
          obtain ⟨hscope, hbelieved⟩ := hloses
          obtain ⟨s, hs⟩ := Option.isSome_iff_exists.mp
            (hresolve (by rw [hhole]; rfl) k hscope.symm hbelieved)
          rw [InstrumentBook.lose_stated]
          refine told_append_of_some ⟨_, (hmem _).mpr ⟨m, k.id, s, hhole, ?_, ?_, rfl⟩, ?_⟩ ?_
          · rwa [← hscope]
          · rwa [← hscope]
          · exact BookTop.isOf_bookRow.mpr ⟨hscope.symm, h.filed.resolve hs⟩
          · intro row hrow hof
            obtain ⟨m', id, s', hm', -, hs', rfl⟩ := (hmem row).mp hrow
            obtain rfl : m = m' := Option.some.inj (hhole.symm.trans hm')
            obtain ⟨-, hid⟩ := BookTop.isOf_bookRow.mp hof
            obtain rfl : id = k.id := (h.filed.resolve hs').symm.trans hid
            rw [BookTop.content_bookRow, ← hscope]
      next hkept =>
          refine (told_append_of_none fun row hrow ↦ ?_).trans (h.told k)
          obtain ⟨m', id, s', hm', hbelieved, hs', rfl⟩ := (hmem row).mp hrow
          refine Bool.eq_false_iff.mpr fun hof ↦ ?_
          obtain ⟨hscope, hid⟩ := BookTop.isOf_bookRow.mp hof
          obtain rfl : id = k.id := (h.filed.resolve hs').symm.trans hid
          rw [hscope] at hbelieved
          exact hkept ⟨hscope.symm, hbelieved⟩

/-- A book that a hole takes the certainty of and that does not resolve has no row for it. -/
theorem resolves_of_observe (h : f.Told) (p : WireProvenance) (hlast : (f.observe p).LastRows)
    (hhole : (f.hole p).isSome) (k : Scoped Channel) (hscope : Channel.of p.inst = k.scope)
    (hbelieved : (f.book.book k).believed = true) :
    (f.table.resolve k.scope k.id p.recvTsNs).isSome := by
  obtain ⟨m, hm⟩ := Option.isSome_iff_exists.mp hhole
  by_contra hnot
  rw [Option.not_isSome_iff_eq_none] at hnot
  have hbook : (f.observe p).book.book k = (f.book.book k).lose m := by
    rw [book_observe, hm]
    exact if_pos ⟨hscope.symm, hbelieved⟩
  have hnew := hlast k (by rw [hbook]; rfl)
  obtain ⟨rows, hrows, hmem⟩ := f.observe_bookTop p
  rw [hbook, hrows, told_append_of_none, h.told k, (h.coherent k).stated_of_believed hbelieved,
    InstrumentBook.lose_stated] at hnew
  · have hcertain := congrArg (·.2.certain) (Option.some.inj hnew)
    exact absurd hcertain (by simp [Certainty.known, Certainty.unknown])
  · intro row hrow
    obtain ⟨m', id, s, -, -, hs, rfl⟩ := (hmem row).mp hrow
    refine Bool.eq_false_iff.mpr fun hof ↦ ?_
    obtain ⟨-, hid⟩ := BookTop.isOf_bookRow.mp hof
    obtain rfl : id = k.id := (h.filed.resolve hs).symm.trans hid
    rw [hscope, hnot] at hs
    exact absurd hs (by simp)

/-! ## The message -/

theorem message_told (input : EventInput) (h : f.Told) {d : Decoded}
    (hnames : ∀ k, ∀ cycle ∈ f.anchoring k d,
      (f.book.book k).stated ≠ some (cycle.top, Certainty.known) → d.names = some k.id) :
    (f.message input d).Told := by
  refine ⟨h.toTidy.message input d, fun k' ↦ ?_⟩
  cases f.message_outcome input d with
  | none untouched rows =>
      rw [rows, (untouched k').stated]
      exact h.told k'
  | @one k r s id touches here elsewhere names resolved rows =>
      have hid := h.filed.resolve resolved
      -- a row that is written goes to the book that changed
      have hof (c : Change) (hc : r.2 = some c) :
          Channel.of d.provenance.inst = k.scope ∧ id = k.id := by
        obtain ⟨hscope, hk⟩ := touches.attributed hc (hnames k)
        exact ⟨hscope, Option.some.inj (names.symm.trans hk)⟩
      rw [rows]
      by_cases hk : k' = k
      · subst hk
        rw [here, (touches.reports (h.coherent k')).2]
        cases hc : r.2 with
        | none => exact (told_append_of_none (by simp)).trans (h.told k')
        | some c =>
            obtain ⟨hscope, rfl⟩ := hof c hc
            refine told_append_of_some ⟨_, List.mem_singleton_self _, ?_⟩ ?_
            · exact BookTop.isOf_bookRow.mpr ⟨hscope, hid⟩
            · rintro row hrow -
              obtain rfl := List.mem_singleton.mp hrow
              rfl
      · rw [(elsewhere k' hk).stated]
        refine (told_append_of_none fun row hrow ↦ ?_).trans (h.told k')
        obtain ⟨c, hc, rfl⟩ := List.mem_map.mp hrow
        obtain ⟨hscope, rfl⟩ := hof c (Option.mem_toList.mp hc)
        refine Bool.eq_false_iff.mpr fun hof' ↦ hk ?_
        obtain ⟨hscope', hid'⟩ := BookTop.isOf_bookRow.mp hof'
        exact Scoped.ext (hscope'.symm.trans hscope) (hid'.symm.trans hid)

/-- A book that an end changes under another instrument's name has no row for it. -/
theorem names_of_message (input : EventInput) (h : f.Told) {d : Decoded}
    (hlast : (f.message input d).LastRows) {k : Scoped Channel} {cycle : BookCycle}
    (hanchor : f.anchoring k d = some cycle)
    (hchange : (f.book.book k).stated ≠ some (cycle.top, Certainty.known)) :
    d.names = some k.id := by
  obtain ⟨n, hbook⟩ := f.message_anchoring input hanchor
  have hnew : ((f.message input d).book.book k).stated = some (cycle.top, Certainty.known) := by
    rw [hbook]
    rfl
  have htold := hlast k (by rw [hnew]; rfl)
  have huntouched (hsame : Untouched f (f.message input d) k) : False :=
    hchange (hsame.stated.symm.trans hnew)
  cases f.message_outcome input d with
  | none untouched => exact (huntouched (untouched k)).elim
  | @one k' r s id touches here elsewhere names resolved rows =>
      by_cases hk : k = k'
      · by_contra hother
        rw [rows, told_append_of_none, h.told k, hnew] at htold
        · exact hchange htold
        · intro row hrow
          obtain ⟨c, -, rfl⟩ := List.mem_map.mp hrow
          refine Bool.eq_false_iff.mpr fun hof ↦ hother ?_
          rw [names, ← h.filed.resolve resolved, (BookTop.isOf_bookRow.mp hof).2]
      · exact (huntouched (elsewhere k hk)).elim

end Fold

/-! ## Runs -/

/-- **The rows tell the whole story** at the arrival of every datagram and after every message,
exactly when every book that loses its certainty resolves at that instant and every end that
changes a book names its instrument. -/
theorem rows_tell (input : EventInput) (ds : List Decoded) :
    (∀ pre d, pre ++ [d] <+: ds → ((fold input pre).observe d.provenance).LastRows ∧
        ((fold input pre).step input d).LastRows) ↔
      ∀ pre d, pre ++ [d] <+: ds → (fold input pre).TellsAll d := by
  refine @run_step_iff _ _ (Fold.step input) _ (fun _ _ _ ↦ ()) (fun f _ ↦ f.Told) _ ()
    (fun f _ d ↦ (f.observe d.provenance).LastRows ∧ (f.step input d).LastRows)
    (fun f _ d ↦ f.TellsAll d) ds Fold.Told.empty
    (fun f _ d _ h hlast ↦ ?_) fun f _ d _ h hsound ↦ ?_
  · have hresolve := Fold.resolves_of_observe h d.provenance hlast.1
    exact ⟨hresolve, fun k cycle hanchor hchange ↦ Fold.names_of_message input
      (Fold.observe_told h d.provenance hresolve) hlast.2 hanchor hchange⟩
  · have hobserve := Fold.observe_told h d.provenance hsound.hole
    have hmessage := Fold.message_told input hobserve hsound.finish
    exact ⟨⟨hobserve.lastRows, hmessage.lastRows⟩, hmessage⟩

/-! ## A row that is dropped -/

/-- The definitions of a new era are folded before the datagram that reveals the hole: the last
row of the instrument says certain, and its book is not. -/
theorem hole_row_dropped :
    let ds := inOrder 0 0
      [datagram .refdata 1 [.reference (.definition (definition 5))],
        datagram .mktdata 10 [.market (.trade ⟨5, 0⟩)],
        datagram .snapshot 1 (group 5 1 10),
        { datagram .refdata 1 [.reference (.definition (definition 6))] with resetCount := 1 },
        { datagram .mktdata 13 [.market (.trade ⟨6, 0⟩)] with resetCount := 1 }]
    told ⟨⟨1, 7⟩, 5⟩ (fold ⟨0, false⟩ ds).out.bookTop = some ({}, Certainty.known) ∧
      ((fold ⟨0, false⟩ ds).book.book ⟨⟨1, 7⟩, 5⟩).stated =
        some ({}, Certainty.unknown 11 .gap) ∧
      ¬(fold ⟨0, false⟩ ds).LastRows := by
  intro ds
  have htold : told ⟨⟨1, 7⟩, 5⟩ (fold ⟨0, false⟩ ds).out.bookTop = some ({}, Certainty.known) := by
    decide
  have hstated : ((fold ⟨0, false⟩ ds).book.book ⟨⟨1, 7⟩, 5⟩).stated =
      some ({}, Certainty.unknown 11 .gap) := by
    decide
  refine ⟨htold, hstated, fun hlast ↦ ?_⟩
  have hsame := hlast ⟨⟨1, 7⟩, 5⟩ (by rw [hstated]; rfl)
  rw [htold, hstated] at hsame
  exact absurd hsame (by decide)

end EdgeMulticast.Recorder
