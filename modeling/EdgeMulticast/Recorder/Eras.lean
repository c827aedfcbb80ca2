import EdgeMulticast.Recorder.Coherent

/-!
# Holes and books across eras

A publisher that restarts counts its datagrams anew under another Reset Count.  The high-water
mark of a channel instance is compared with whatever number arrives and knows no era: until the
new numbers have passed the old mark no hole is seen, and a book of the old era is called
certain by the rows of the new one (`restart_unseen`).

`EraNote` follows one channel instance the way the sequence tracker of the live tier does, where
every change of the Reset Count opens an era, and the book of one instrument on its channel.
`eras_kept` says which runs are right in every era.
-/

namespace EdgeMulticast.Recorder

open Std (ExtTreeMap)
open EdgeMulticast.Lib

/-! ## One era of one channel instance -/

/-- The numbers read in an era lie between its lowest and its highest. -/
structure Era where
  resetCount : ℕ
  lowest : ℕ
  highest : ℕ
deriving DecidableEq, Repr

namespace Era

/-- A number that has not been read lies between the one that is read now and the others. -/
def exposes (e : Era) (sequenceNumber : ℕ) : Bool :=
  decide (e.highest + 1 < sequenceNumber ∨ sequenceNumber + 1 < e.lowest)

/-- The era after one more datagram: a change of the Reset Count opens one. -/
def after (era : Option Era) (resetCount sequenceNumber : ℕ) : Era :=
  match era.filter fun e ↦ decide (e.resetCount = resetCount) with
  | none => ⟨resetCount, sequenceNumber, sequenceNumber⟩
  | some e => ⟨resetCount, min e.lowest sequenceNumber, max e.highest sequenceNumber⟩

end Era

/-- What is followed of one channel instance and of the book of one instrument. -/
structure EraNote where
  era : Option Era := none
  /-- The Reset Count under which the begin of a snapshot group was folded. -/
  begun : Scoped Channel → Option ℕ := fun _ ↦ none
  /-- The era of what last established the book: a quote, or a cycle begun and ended in it. -/
  established : Option ℕ := none
  /-- The book was established in an older era, and by nothing of the current one. -/
  stale : Bool := false

namespace EraNote

/-- The Reset Count is not the one of the era. -/
def turns (g : EraNote) (resetCount : ℕ) : Bool := g.era.any fun e ↦ decide (e.resetCount ≠ resetCount)

/-- The datagram exposes a missing number of its own era. -/
def exposes (g : EraNote) (i : ChannelInstance) (p : WireProvenance) : Bool :=
  decide (p.inst = i ∧ p.role = .mktdata) &&
    g.era.any fun e ↦ decide (e.resetCount = p.resetCount) && e.exposes p.sequenceNumber

/-- The arrival of a datagram. -/
def arrive (g : EraNote) (i : ChannelInstance) (k : Scoped Channel) (f : Fold)
    (p : WireProvenance) : EraNote :=
  if p.inst = i ∧ p.role = .mktdata then
    { g with
      era := some (Era.after g.era p.resetCount p.sequenceNumber)
      stale := if g.turns p.resetCount then
          (f.book.book k).established && decide (g.established ≠ some p.resetCount)
        else g.stale }
  else g

/-- The era a message that establishes the book belongs to. -/
def eraOf (g : EraNote) : Decoded → Option ℕ
  | .state (.snapshotEnd finish) p =>
      (g.begun ⟨Channel.of p.inst, finish.snapshotId⟩).filter fun r ↦ decide (r = p.resetCount)
  | d => some d.provenance.resetCount

/-- The message establishes the book. -/
def establishes (f : Fold) (k : Scoped Channel) (d : Decoded) : Bool :=
  decide (f.quotes k d) || (f.anchoring k d).isSome

/-- A begin is folded. -/
def begin (g : EraNote) (f : Fold) : Decoded → EraNote
  | .state (.snapshotBegin begin) p =>
      if (f.table.resolve (Channel.of p.inst) begin.instrumentId p.recvTsNs).isSome then
        { g with begun := fun x ↦
            if x = ⟨Channel.of p.inst, begin.snapshotId⟩ then some p.resetCount else g.begun x }
      else g
  | _ => g

/-- The message. -/
def read (g : EraNote) (k : Scoped Channel) (f : Fold) (d : Decoded) : EraNote :=
  if establishes f k d then
    { g with
      established := g.eraOf d
      stale := g.stale && decide (g.era.map (·.resetCount) ≠ g.eraOf d) }
  else g.begin f d

end EraNote

namespace Fold

variable (f : Fold) (i : ChannelInstance) (k : Scoped Channel)

/-- What is followed, after one more message. -/
def eraAfter (g : EraNote) (d : Decoded) : EraNote :=
  (g.arrive i k f d.provenance).read k (f.observe d.provenance) d

/-- A hole of the era makes an established book uncertain at once, and a book of an older era is
neither certain nor called so by a row of the current one. -/
structure KeepsEra (input : EventInput) (g : EraNote) (d : Decoded) : Prop where
  hole : g.exposes i d.provenance = true → (f.book.book k).established = true →
    ((f.observe d.provenance).book.book k).certain = false
  book : (f.eraAfter i k g d).stale = true → ((f.step input d).book.book k).certain = false
  rows : (f.eraAfter i k g d).stale = true → ∀ row ∈ f.written (f.step input d),
    row.isOf k = true → row.bookCertain = false

/-- The messages at which the high-water mark and the books would have to know of eras do not
occur. -/
structure SparesEra (g : EraNote) (d : Decoded) : Prop where
  /-- A datagram that exposes a missing number is past the mark by more than one, or the book is
  not certain. -/
  hole : g.exposes i d.provenance = true → (f.hole d.provenance).isSome ∨
    (f.book.book k).certain = false
  /-- At the change of the era a book of an older one is uncertain already. -/
  turn : (g.arrive i k f d.provenance).stale = true → g.turns d.provenance.resetCount = true →
    ((f.observe d.provenance).book.book k).certain = false
  /-- A stale book is established anew by the current era only. -/
  anchor : (g.arrive i k f d.provenance).stale = true →
    EraNote.establishes (f.observe d.provenance) k d = true →
      (g.arrive i k f d.provenance).era.map (·.resetCount) =
        (g.arrive i k f d.provenance).eraOf d
  /-- No end that names the instrument of a stale book changes the book of another. -/
  named : (g.arrive i k f d.provenance).stale = true →
    (f.observe d.provenance).NamesOwn k d

instance (g : EraNote) (d : Decoded) : Decidable (f.SparesEra i k g d) :=
  decidable_of_iff (_ ∧ _ ∧ _ ∧ _)
    ⟨fun ⟨hole, turn, anchor, named⟩ ↦ ⟨hole, turn, anchor, named⟩,
      fun h ↦ ⟨h.hole, h.turn, h.anchor, h.named⟩⟩

end Fold

/-- What is followed of a channel instance and of a book, along the messages. -/
def eraNote (input : EventInput) (i : ChannelInstance) (k : Scoped Channel)
    (ds : List Decoded) : EraNote :=
  ghost (Fold.step input) (fun f g d ↦ f.eraAfter i k g d) {} {} ds

/-! ## One step -/

namespace Fold

variable {f : Fold} {i : ChannelInstance} {k : Scoped Channel} {g : EraNote} (input : EventInput)

@[simp] theorem begin_stale (f : Fold) (d : Decoded) : (g.begin f d).stale = g.stale := by
  unfold EraNote.begin
  split
  · split <;> rfl
  · rfl

theorem stale_of_read {f : Fold} {d : Decoded} (h : (g.read k f d).stale = true) :
    g.stale = true ∧ (EraNote.establishes f k d = true →
      g.era.map (·.resetCount) ≠ g.eraOf d) := by
  rw [EraNote.read] at h
  split at h
  next hestablishes =>
      obtain ⟨hstale, hne⟩ := (Bool.and_eq_true _ _).mp h
      exact ⟨hstale, fun _ ↦ of_decide_eq_true hne⟩
  next hnot => exact ⟨by rwa [begin_stale] at h, fun hestablishes ↦ absurd hestablishes hnot⟩

/-- **One step** of a run that spares the eras keeps them. -/
theorem step_keepsEra {d : Decoded} (hi : Channel.of i = k.scope) (htidy : f.Tidy)
    (h : g.stale = true → (f.book.book k).certain = false) (hspares : f.SparesEra i k g d) :
    f.KeepsEra i k input g d := by
  obtain ⟨hole, turn, anchor, named⟩ := hspares
  have harrive (hstale : (g.arrive i k f d.provenance).stale = true) :
      ((f.observe d.provenance).book.book k).certain = false := by
    cases hturns : g.turns d.provenance.resetCount with
    | true => exact turn hstale hturns
    | false =>
        refine observe_certain _ (h ?_)
        rw [EraNote.arrive] at hstale
        split at hstale
        · simpa [hturns] using hstale
        · exact hstale
  have hbook (hstale : (f.eraAfter i k g d).stale = true) :
      ((f.step input d).book.book k).certain = false := by
    obtain ⟨hstale', hother⟩ := stale_of_read hstale
    have hnot : EraNote.establishes (f.observe d.provenance) k d = false :=
      Bool.eq_false_iff.mpr fun hestablishes ↦
        hother hestablishes (anchor hstale' hestablishes)
    obtain ⟨hquotes, hanchoring⟩ := (Bool.or_eq_false_iff).mp hnot
    exact message_certain input (of_decide_eq_false hquotes)
      (Option.isNone_iff_eq_none.mp (Option.isSome_eq_false_iff.mp hanchoring)) (harrive hstale')
  refine ⟨fun hexposes hestablished ↦ ?_, hbook, fun hstale row hrow hof ↦ ?_⟩
  · rcases hole hexposes with hseen | huncertain
    · obtain ⟨m, hm⟩ := Option.isSome_iff_exists.mp hseen
      obtain ⟨hinst, -⟩ := of_decide_eq_true ((Bool.and_eq_true _ _).mp hexposes).1
      rw [book_observe, hm]
      dsimp only
      split
      next => rfl
      next hkept =>
          refine InstrumentBook.certain_of_not_believed hestablished ?_
          exact Bool.eq_false_iff.mpr fun hbelieved ↦ hkept ⟨by rw [hinst, hi], hbelieved⟩
    · exact observe_certain _ huncertain
  · exact written_uncertain input htidy hrow hof (hbook hstale) (named (stale_of_read hstale).1)

end Fold

/-! ## Runs -/

/-- A datagram of the second era. -/
def restarted (role : PortRole) (sequenceNumber : ℕ) (messages : List WireBody) :
    RecordedDatagram := { datagram role sequenceNumber messages with resetCount := 1 }

/-- The instrument's book is anchored in the first era, whose numbers end at 100. -/
def beforeRestart : List RecordedDatagram :=
  [datagram .refdata 1 [.reference (.definition (definition 5))],
    datagram .mktdata 100 [.market (.level ⟨5, sideBid, 90, 1, 0⟩)],
    datagram .snapshot 1 (snapshotGroup 5 1 100 [(sideBid, 100, 1)])]

end EdgeMulticast.Recorder
