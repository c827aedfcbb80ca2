import EdgeMulticast.Recorder.Runs

/-!
# What books state and messages report

A book states a top and the certainty of it.  An operation reports a change exactly when the
book states something else after it, and what it reports is what the book then states
(`InstrumentBook.Reports`).

This holds of the books that the operations make: one without an anchor has no top, and one with
an anchor has a certainty that no reset took (`InstrumentBook.Coherent`).  A book that is
uncertain stays so until a quote of its instrument or the end of a cycle (`message_certain`).  `Tidy` is the
invariant of the fold: its books are coherent, and its definitions are filed under their own
instruments.
-/

namespace EdgeMulticast.Recorder

open Std (ExtTreeMap)
open EdgeMulticast.Lib

/-! ## What a book states -/

/-- Whether the book says that its top can be believed. -/
def InstrumentBook.certain (book : InstrumentBook) : Bool := book.certainty.any (·.certain)

namespace InstrumentBook

/-- The top and the certainty of a book, once there is something to state. -/
def stated (book : InstrumentBook) : Option (Top × Certainty) :=
  book.certainty.map fun c ↦ (book.top, c)

/-- A book without an anchor has no top and is not certain, and one with an anchor has a
certainty that no reset took. -/
structure Coherent (book : InstrumentBook) : Prop where
  top : book.established = false → book.top = {}
  certainty : book.established = true →
    ∃ c, book.certainty = some c ∧ c.reason ≠ .instrumentReset ∧
      (c.certain = true → c = Certainty.known)
  anchored : book.certain = true → book.established = true

variable {book was : InstrumentBook}

theorem Coherent.empty : ({} : InstrumentBook).Coherent :=
  ⟨fun _ ↦ rfl, fun h ↦ absurd h Bool.noConfusion, fun h ↦ absurd h Bool.noConfusion⟩

theorem Coherent.openCycles (h : book.Coherent) (n : ℕ) :
    { book with openCycles := n }.Coherent := ⟨h.top, h.certainty, h.anchored⟩

theorem Coherent.of_known (hestablished : book.established = true)
    (hcertainty : book.certainty = some Certainty.known) : book.Coherent where
  top h := absurd (h.symm.trans hestablished) Bool.noConfusion
  certainty _ := ⟨_, hcertainty, UncertainReason.noConfusion, fun _ ↦ rfl⟩
  anchored _ := hestablished

theorem Coherent.of_same (h : was.Coherent) (hwas : was.established = true)
    (hestablished : book.established = true) (hcertainty : book.certainty = was.certainty) :
    book.Coherent where
  top hnot := absurd (hnot.symm.trans hestablished) Bool.noConfusion
  certainty _ := hcertainty ▸ h.certainty hwas
  anchored _ := hestablished

theorem Coherent.of_unestablished (hestablished : book.established = false)
    (htop : book.top = {}) (huncertain : book.certain = false) : book.Coherent where
  top _ := htop
  certainty h := absurd (hestablished.symm.trans h) Bool.noConfusion
  anchored h := absurd (huncertain.symm.trans h) Bool.noConfusion

theorem Coherent.lose (h : book.Coherent) (m : ℕ) : (book.lose m).Coherent :=
  ⟨h.top, fun _ ↦ ⟨_, rfl, UncertainReason.noConfusion, fun hc ↦ absurd hc Bool.noConfusion⟩,
    fun hc ↦ absurd hc Bool.noConfusion⟩

/-- A book whose certainty a hole takes states that it is certain. -/
theorem Coherent.stated_of_believed (h : book.Coherent) (hbelieved : book.believed = true) :
    book.stated = some (book.top, Certainty.known) := by
  obtain ⟨hestablished, hcertain⟩ := (Bool.and_eq_true _ _).mp hbelieved
  obtain ⟨c, hc, -, hknown⟩ := h.certainty hestablished
  rw [hc, Option.any_some, Bool.not_not] at hcertain
  rw [stated, hc, hknown hcertain, Option.map_some]

@[simp] theorem lose_stated (m : ℕ) :
    (book.lose m).stated = some (book.top, Certainty.unknown m .gap) := rfl

/-! ## What a change says -/

/-- What an operation reports is what the book states after it, and it reports whatever the
book states anew. -/
def Reports (was book : InstrumentBook) (change : Option Change) : Prop :=
  book.stated = change.elim was.stated fun c ↦ some (c.top, c.certainty)

theorem Reports.refl (book : InstrumentBook) : book.Reports book none := rfl

/-- What `changed` reports of a book with an anchor. -/
theorem changed_of_established {c : Certainty} (hestablished : book.established = true)
    (hcertainty : book.certainty = some c) : book.changed was =
      if was.stated = some (book.top, c) then none else some ⟨book.top, c, false⟩ := by
  have hsame : was.stated = some (book.top, c) ↔ was.top = book.top ∧ was.certainty = some c := by
    rw [stated]
    cases was.certainty <;> simp
  rw [changed, hestablished, hcertainty]
  by_cases htop : was.top = book.top <;> by_cases hc : was.certainty = some c <;>
    simp [hsame, htop, hc]

theorem Reports.changed {c : Certainty} (hestablished : book.established = true)
    (hcertainty : book.certainty = some c) : was.Reports book (book.changed was) := by
  rw [Reports, changed_of_established hestablished hcertainty, stated, hcertainty]
  split
  next h => exact h.symm
  next => rfl

theorem Coherent.market (h : book.Coherent) (body : MessageBody) :
    (book.market body).1.Coherent ∧ book.Reports (book.market body).1 (book.market body).2 := by
  have hdelta {book' : InstrumentBook} (hestablished : book.established = true)
      (hestablished' : book'.established = book.established)
      (hcertainty : book'.certainty = book.certainty) :
      book'.Coherent ∧ book.Reports book' (book'.changed book) := by
    obtain ⟨c, hc, -⟩ := h.certainty hestablished
    have hanchored := hestablished'.trans hestablished
    exact ⟨h.of_same hestablished hanchored hcertainty,
      Reports.changed hanchored (hcertainty.trans hc)⟩
  cases body with
  | quote q => exact ⟨Coherent.of_known rfl rfl, Reports.changed (c := Certainty.known) rfl rfl⟩
  | trade t => exact ⟨h, Reports.refl book⟩
  | level l =>
      simp only [InstrumentBook.market, level]
      split
      next hnot =>
          have hnot' : book.established = false := by simpa using hnot
          split
          · exact ⟨h, Reports.refl book⟩
          · refine ⟨Coherent.of_unestablished hnot' (h.top hnot') rfl, ?_⟩
            rw [Reports, stated, h.top hnot']
            rfl
      next hnot =>
          refine hdelta (by simpa using hnot) ?_ ?_
          · rw [applyLevel]
            split <;> rfl
          · rw [applyLevel]
            split <;> rfl
  | clear c =>
      simp only [InstrumentBook.market, clear]
      split
      next => exact ⟨h, Reports.refl book⟩
      next hnot =>
          refine hdelta (by simpa using hnot) ?_ ?_
          · simp only [applyClear]
            split <;> split <;> rfl
          · simp only [applyClear]
            split <;> split <;> rfl

theorem Coherent.reset (h : book.Coherent) (r : InstrumentReset) :
    (book.reset r).1.Coherent ∧ book.Reports (book.reset r).1 (book.reset r).2 := by
  refine ⟨Coherent.of_unestablished rfl rfl rfl, ?_⟩
  rw [Reports]
  by_cases hcertainty : book.certainty = some (Certainty.unknown r.newAnchorSeq .instrumentReset)
  · -- a book that a reset has already disowned
    cases hestablished : book.established with
    | true =>
        obtain ⟨c, hc, hreason, -⟩ := h.certainty hestablished
        obtain rfl := Option.some.inj (hc.symm.trans hcertainty)
        exact absurd rfl hreason
    | false => simp [InstrumentBook.reset, changed, stated, h.top hestablished, hcertainty]
  · simp [InstrumentBook.reset, changed, stated, hcertainty]

/-- What a cycle that anchors reports: nothing, when the book states as much already. -/
theorem anchor_snd (c : BookCycle) : (book.anchor c).2 =
    if book.stated = some ((book.anchor c).1.top, Certainty.known) then none
    else some ⟨(book.anchor c).1.top, Certainty.known, true⟩ := by
  rw [InstrumentBook.anchor]
  dsimp only
  rw [changed_of_established (c := Certainty.known) rfl rfl]
  split <;> rfl

theorem Coherent.anchor (c : BookCycle) :
    (book.anchor c).1.Coherent ∧ book.Reports (book.anchor c).1 (book.anchor c).2 := by
  refine ⟨Coherent.of_known rfl rfl, ?_⟩
  rw [Reports, anchor_snd]
  split
  next h => exact h.symm
  next => rfl

end InstrumentBook

/-- The top of a cycle's levels. -/
def BookCycle.top (c : BookCycle) : Top :=
  ({ bids := c.bids, asks := c.asks } : InstrumentBook).recomputeTop.top

/-! ## What a row says -/

namespace BookTop

/-- A row is looked up by channel and instrument. -/
def isOf (k : Scoped Channel) (row : BookTop) : Bool :=
  decide (Channel.of row.provenance.inst = k.scope ∧ row.statement.instrumentId = k.id)

def content (row : BookTop) : Top × Certainty :=
  (row.top, ⟨row.bookCertain, row.uncertainSince, row.uncertainReason⟩)

theorem isOf_bookRow {p : WireProvenance} {s : Statement} {change : Change} {k : Scoped Channel} :
    (bookRow p s change).isOf k = true ↔ Channel.of p.inst = k.scope ∧ s.instrumentId = k.id :=
  decide_eq_true_iff

@[simp] theorem content_bookRow (p : WireProvenance) (s : Statement) (change : Change) :
    (bookRow p s change).content = (change.top, change.certainty) := rfl

end BookTop

/-! ## What a message does to certainty -/

/-- A delta feed carries no quotes. -/
def Decoded.isQuote : Decoded → Bool
  | .market (.quote _) _ => true
  | _ => false

namespace InstrumentBook

variable (book : InstrumentBook)

@[simp] theorem recomputeTop_certainty : book.recomputeTop.certainty = book.certainty := rfl

@[simp] theorem applyLevel_certainty (l : LevelUpdate) :
    (book.applyLevel l).certainty = book.certainty := by
  rw [applyLevel]
  split <;> rfl

@[simp] theorem applyClear_certainty (c : BookClear) :
    (book.applyClear c).certainty = book.certainty := by
  simp only [applyClear]
  split <;> split <;> rfl

/-- No delta makes a book certain. -/
theorem market_certain {book : InstrumentBook} {body : MessageBody} (hquote : ∀ q, body ≠ .quote q)
    (h : book.certain = false) : (book.market body).1.certain = false := by
  cases body with
  | quote q => exact absurd rfl (hquote q)
  | trade t => exact h
  | level l =>
      simp only [market, level]
      split
      · split
        · exact h
        · rfl
      · simpa [certain] using h
  | clear c =>
      simp only [market, clear]
      split
      · exact h
      · simpa [certain] using h

@[simp] theorem reset_certain (r : InstrumentReset) : (book.reset r).1.certain = false := rfl

@[simp] theorem anchor_certain (c : BookCycle) : (book.anchor c).1.certain = true := rfl

@[simp] theorem lose_certain (m : ℕ) : (book.lose m).certain = false := rfl

/-- An established book that a hole does not touch is uncertain already. -/
theorem certain_of_not_believed {book : InstrumentBook} (hestablished : book.established = true)
    (h : book.believed = false) : book.certain = false := by
  rw [believed, hestablished, Bool.true_and, Bool.not_eq_false'] at h
  rw [certain]
  cases hc : book.certainty with
  | none => rfl
  | some c => simpa [hc] using h

end InstrumentBook

/-! ## The invariant of the fold -/

namespace Fold

variable {f : Fold}

theorem Untouched.stated {f' : Fold} {k : Scoped Channel} (h : Untouched f f' k) :
    (f'.book.book k).stated = (f.book.book k).stated := by
  obtain ⟨n, hn⟩ := h
  rw [hn]
  rfl

theorem Untouched.coherent {f' : Fold} {k : Scoped Channel} (h : Untouched f f' k)
    (hf : (f.book.book k).Coherent) : (f'.book.book k).Coherent := by
  obtain ⟨n, hn⟩ := h
  rw [hn]
  exact hf.openCycles n

/-- What touches a book reports what it makes of it. -/
theorem Touches.reports {k : Scoped Channel} {d : Decoded} {r : InstrumentBook × Option Change}
    (h : Touches f k d r) (hf : (f.book.book k).Coherent) :
    r.1.Coherent ∧ (f.book.book k).Reports r.1 r.2 := by
  cases h with
  | market => exact hf.market _
  | reset => exact hf.reset _
  | @anchor d cycle n anchors =>
      exact @InstrumentBook.Coherent.anchor { f.book.book k with openCycles := n } cycle

theorem Touches.scope {k : Scoped Channel} {d : Decoded} {r : InstrumentBook × Option Change}
    (h : Touches f k d r) : Channel.of d.provenance.inst = k.scope := by
  cases h with
  | market here => exact congrArg Scoped.scope here
  | reset here => exact congrArg Scoped.scope here
  | anchor anchors => exact anchoring_scope anchors

/-- A message that reports a change reports it of the instrument it names, or ends a cycle. -/
theorem Touches.attributed {k : Scoped Channel} {d : Decoded} {r : InstrumentBook × Option Change}
    (h : Touches f k d r) {c : Change} (hc : r.2 = some c)
    (hnames : ∀ cycle ∈ f.anchoring k d,
      (f.book.book k).stated ≠ some (cycle.top, Certainty.known) → d.names = some k.id) :
    Channel.of d.provenance.inst = k.scope ∧ d.names = some k.id := by
  refine ⟨h.scope, ?_⟩
  cases h with
  | market here => exact congrArg (some ∘ Scoped.id) here
  | reset here => exact congrArg (some ∘ Scoped.id) here
  | anchor anchors =>
      refine hnames _ anchors fun hsame ↦ ?_
      rw [InstrumentBook.anchor_snd] at hc
      exact absurd (hc.symm.trans (if_pos hsame)) (by simp)

theorem message_filed (input : EventInput) (h : f.table.Filed) (d : Decoded) :
    (f.message input d).table.Filed := by
  cases d with
  | market body p =>
      rw [message, market]
      split <;> exact h
  | state body p =>
      simp only [message, state]
      split
      · exact h
      · split <;> exact h
  | reference body p =>
      cases body with
      | definition d => exact h.observeDefinition d _
      | manifest summary => exact h.observeManifest summary _

/-- A quote of the instrument is folded. -/
def quotes (f : Fold) (k : Scoped Channel) (d : Decoded) : Prop :=
  d.isQuote = true ∧ Channel.of d.provenance.inst = k.scope ∧ d.names = some k.id ∧
    (f.table.resolve k.scope k.id d.provenance.recvTsNs).isSome

instance (f : Fold) (k : Scoped Channel) (d : Decoded) : Decidable (f.quotes k d) :=
  inferInstanceAs (Decidable (_ ∧ _))

/-- A message that is no quote of the instrument and anchors nothing leaves an uncertain book
uncertain. -/
theorem message_certain (input : EventInput) {k : Scoped Channel} {d : Decoded}
    (hquote : ¬f.quotes k d) (hanchor : f.anchoring k d = none)
    (h : (f.book.book k).certain = false) : ((f.message input d).book.book k).certain = false := by
  rcases f.message_cases input d k with ⟨n, hn⟩ | ⟨r, htouch, hr⟩
  · rw [hn]
    exact h
  · rw [hr]
    cases htouch with
    | @market body p s here resolved =>
        refine InstrumentBook.market_certain ?_ h
        rintro q rfl
        refine hquote ⟨rfl, congrArg Scoped.scope here, congrArg (some ∘ Scoped.id) here, ?_⟩
        exact Option.isSome_iff_exists.mpr ⟨s, resolved⟩
    | reset => exact InstrumentBook.reset_certain ..
    | anchor anchors => exact absurd (hanchor.symm.trans anchors) (by simp)

/-- The books of the fold are coherent, and its definitions filed. -/
structure Tidy (f : Fold) : Prop where
  filed : f.table.Filed
  coherent : ∀ k, (f.book.book k).Coherent

theorem Tidy.empty : ({} : Fold).Tidy where
  filed := InstrumentTable.Filed.empty
  coherent _ := InstrumentBook.Coherent.empty

theorem Tidy.observe (h : f.Tidy) (p : WireProvenance) : (f.observe p).Tidy where
  filed := by
    rw [observe_table]
    exact h.filed
  coherent k := by
    rw [book_observe]
    split
    next => exact h.coherent k
    next m hm =>
        split
        next => exact (h.coherent k).lose m
        next => exact h.coherent k

theorem Tidy.message (h : f.Tidy) (input : EventInput) (d : Decoded) :
    (f.message input d).Tidy where
  filed := message_filed input h.filed d
  coherent k := by
    rcases f.message_cases input d k with hsame | ⟨r, htouch, hr⟩
    · exact hsame.coherent (h.coherent k)
    · rw [hr]
      exact (htouch.reports (h.coherent k)).1

theorem Tidy.step (h : f.Tidy) (input : EventInput) (d : Decoded) : (f.step input d).Tidy :=
  (h.observe d.provenance).message input d

/-! ## What a step writes -/

/-- An end that names the instrument changes no other book. -/
def NamesOwn (f : Fold) (k : Scoped Channel) (d : Decoded) : Prop :=
  Channel.of d.provenance.inst = k.scope → d.names = some k.id → ∀ k', ∀ cycle ∈ f.anchoring k' d,
    (f.book.book k').stated ≠ some (cycle.top, Certainty.known) → k' = k

/-- The book that a message anchors. -/
def anchored (f : Fold) : Decoded → Option (Scoped Channel)
  | .state (.snapshotEnd finish) p =>
      (f.book.cycles[(⟨Channel.of p.inst, finish.snapshotId⟩ : Scoped Channel)]?).map fun cycle ↦
        ⟨Channel.of p.inst, cycle.instrumentId⟩
  | _ => none

theorem anchored_of_anchoring {k : Scoped Channel} {d : Decoded} {cycle : BookCycle}
    (h : f.anchoring k d = some cycle) : f.anchored d = some k := by
  obtain ⟨finish, p, rfl⟩ := end_of_anchoring h
  obtain ⟨rfl, -, hanchors⟩ := anchoring_snapshotEnd.mp h
  rw [anchored, hanchors.here]
  rfl

instance (f : Fold) (k : Scoped Channel) (d : Decoded) : Decidable (f.NamesOwn k d) :=
  decidable_of_iff (Channel.of d.provenance.inst = k.scope → d.names = some k.id →
      ∀ k' ∈ f.anchored d, ∀ cycle ∈ f.anchoring k' d,
        (f.book.book k').stated ≠ some (cycle.top, Certainty.known) → k' = k)
    ⟨fun h hscope hnames k' cycle hcycle ↦
        h hscope hnames k' (anchored_of_anchoring hcycle) cycle hcycle,
      fun h hscope hnames k' _ ↦ h hscope hnames k'⟩

/-- The rows a message adds. -/
def written (f f' : Fold) : List BookTop := f'.out.bookTop.drop f.out.bookTop.length

section

variable {k : Scoped Channel} (input : EventInput)

/-- The arrival of a datagram makes no book certain. -/
theorem observe_certain (p : WireProvenance) (h : (f.book.book k).certain = false) :
    ((f.observe p).book.book k).certain = false := by
  rw [book_observe]
  split
  · exact h
  · split
    · rfl
    · exact h

/-- A message anchors the book of one instrument. -/
theorem anchoring_unique {k' : Scoped Channel} {d : Decoded} {c c' : BookCycle}
    (h : f.anchoring k d = some c) (h' : f.anchoring k' d = some c') : k = k' :=
  Option.some.inj ((anchored_of_anchoring h).symm.trans (anchored_of_anchoring h'))

/-- What a message reports of a book is the certainty the book has after it. -/
theorem Touches.certain {d : Decoded} {r : InstrumentBook × Option Change} {c : Change}
    (h : Touches f k d r) (hf : (f.book.book k).Coherent) (hc : r.2 = some c) :
    c.certainty.certain = r.1.certain := by
  have hreports := (h.reports hf).2
  rw [InstrumentBook.Reports, hc, Option.elim_some, InstrumentBook.stated,
    Option.map_eq_some_iff] at hreports
  obtain ⟨c', hc', heq⟩ := hreports
  rw [InstrumentBook.certain, hc', Option.any_some, (Prod.mk.inj heq).2]

/-- The rows of a step: those of the arrival are uncertain, and the message adds its own. -/
theorem mem_written {d : Decoded} {row : BookTop} (h : row ∈ f.written (f.step input d)) :
    row.bookCertain = false ∨
      ∃ k' r s id c, Touches (f.observe d.provenance) k' d r ∧ r.2 = some c ∧
        (f.step input d).book.book k' = r.1 ∧ d.names = some id ∧
        f.table.resolve (Channel.of d.provenance.inst) id d.provenance.recvTsNs = some s ∧
        row = bookRow d.provenance s c := by
  obtain ⟨rows, hrows, hmem⟩ := f.observe_bookTop d.provenance
  have hearly (hrow : row ∈ rows) : row.bookCertain = false := by
    obtain ⟨m, id, s, -, -, -, rfl⟩ := (hmem row).mp hrow
    rfl
  cases (f.observe d.provenance).message_outcome input d with
  | none untouched same =>
      rw [written, step, same, hrows, List.drop_left] at h
      exact Or.inl (hearly h)
  | @one k' r s id touches here elsewhere names resolved new =>
      rw [written, step, new, hrows, List.append_assoc, List.drop_left, List.mem_append] at h
      rcases h with h | h
      · exact Or.inl (hearly h)
      · obtain ⟨c, hc, rfl⟩ := List.mem_map.mp h
        rw [observe_table] at resolved
        exact Or.inr ⟨k', r, s, id, c, touches, Option.mem_toList.mp hc, here, names, resolved, rfl⟩

/-- A message that touches another book than the one it names ends a cycle of that book. -/
theorem Touches.named {d : Decoded} {r : InstrumentBook × Option Change} {c : Change} {id : ℕ}
    (h : Touches f k d r) (hc : r.2 = some c) (hid : d.names = some id) : k.id = id ∨
      ∃ cycle, f.anchoring k d = some cycle ∧
        (f.book.book k).stated ≠ some (cycle.top, Certainty.known) := by
  by_cases hanchor : ∃ cycle, f.anchoring k d = some cycle ∧
      (f.book.book k).stated ≠ some (cycle.top, Certainty.known)
  · exact Or.inr hanchor
  · refine Or.inl ?_
    have hnames := (h.attributed hc fun cycle hcycle hne ↦ absurd ⟨cycle, hcycle, hne⟩ hanchor).2
    exact Option.some.inj (hnames.symm.trans hid)

theorem anchoring_of_isQuote {d : Decoded} (h : d.isQuote = true) : f.anchoring k d = none := by
  rcases d with body | body | body
  · rfl
  · exact absurd h Bool.noConfusion
  · rfl

/-- A quote that is folded makes its book certain. -/
theorem message_quotes {d : Decoded} (h : f.quotes k d) :
    ((f.message input d).book.book k).certain = true := by
  obtain ⟨hquote, hscope, hnames, hresolved⟩ := h
  rcases d with ⟨body, p⟩ | ⟨body, p⟩ | ⟨body, p⟩
  · cases body with
    | quote q =>
        rw [message_market, if_pos ⟨Scoped.ext hscope (Option.some.inj hnames), hresolved⟩]
        rfl
    | trade | level | clear => exact absurd hquote Bool.noConfusion
  · exact absurd hquote Bool.noConfusion
  · exact absurd hquote Bool.noConfusion

/-- An end that changes the book of another instrument than it names writes a certain row of
the one it names. -/
theorem written_of_named {d : Decoded} (htidy : f.Tidy)
    (hscope : Channel.of d.provenance.inst = k.scope) (hnames : d.names = some k.id)
    {k' : Scoped Channel} {cycle : BookCycle}
    (hanchor : (f.observe d.provenance).anchoring k' d = some cycle)
    (hchange : ((f.observe d.provenance).book.book k').stated ≠
      some (cycle.top, Certainty.known)) :
    ∃ row ∈ f.written (f.step input d), row.isOf k = true ∧ row.bookCertain = true := by
  have htidy' := htidy.observe d.provenance
  obtain ⟨n, hbook⟩ := (f.observe d.provenance).message_anchoring input hanchor
  have hnew : (((f.observe d.provenance).message input d).book.book k').stated =
      some (cycle.top, Certainty.known) := by
    rw [hbook]
    rfl
  have huntouched
      (hsame : Untouched (f.observe d.provenance) ((f.observe d.provenance).message input d) k') :
      False := hchange (hsame.stated.symm.trans hnew)
  cases (f.observe d.provenance).message_outcome input d with
  | none untouched => exact (huntouched (untouched k')).elim
  | @one k'' r s id touches here elsewhere names resolved rows =>
      by_cases hk : k' = k''
      · subst hk
        have hreports := (touches.reports (htidy'.coherent k')).2
        rw [InstrumentBook.Reports, ← here, hnew] at hreports
        cases hc : r.2 with
        | none =>
            rw [hc] at hreports
            exact absurd hreports.symm hchange
        | some c =>
            rw [hc] at hreports
            obtain ⟨-, hcertain⟩ := Prod.mk.inj (Option.some.inj hreports)
            obtain ⟨early, hearly, -⟩ := f.observe_bookTop d.provenance
            refine ⟨bookRow d.provenance s c, ?_, ?_, ?_⟩
            · rw [written, step, rows, hearly, List.append_assoc, List.drop_left, hc]
              exact List.mem_append_right _ (List.mem_singleton_self _)
            · refine BookTop.isOf_bookRow.mpr ⟨hscope, ?_⟩
              exact (htidy'.filed.resolve resolved).trans (Option.some.inj (names.symm.trans hnames))
            · rw [bookRow, ← hcertain]
              rfl
      · exact (huntouched (elsewhere k' hk)).elim

theorem observe_quotes (p : WireProvenance) (d : Decoded) :
    (f.observe p).quotes k d ↔ f.quotes k d := by
  rw [quotes, observe_table, quotes]

/-- A row of an instrument whose book is uncertain says so, provided no end that names the
instrument changes the book of another. -/
theorem written_uncertain {d : Decoded} {row : BookTop} (htidy : f.Tidy)
    (h : row ∈ f.written (f.step input d)) (hof : row.isOf k = true)
    (hbook : ((f.step input d).book.book k).certain = false)
    (hnamed : (f.observe d.provenance).NamesOwn k d) : row.bookCertain = false := by
  rcases mem_written input h with huncertain | ⟨k', r, s, id, c, touches, hc, here, hid, hs, rfl⟩
  · exact huncertain
  · obtain ⟨hscope, hsid⟩ := BookTop.isOf_bookRow.mp hof
    have hidk : id = k.id := (htidy.filed.resolve hs).symm.trans hsid
    have hk : k' = k := by
      rcases touches.named hc hid with hown | ⟨cycle, hcycle, hchange⟩
      · exact Scoped.ext (touches.scope.symm.trans hscope) (hown.trans hidk)
      · exact hnamed hscope (hidk ▸ hid) k' cycle hcycle hchange
    subst hk
    have hcertain := touches.certain ((htidy.observe d.provenance).coherent k') hc
    rw [bookRow, hcertain, ← here]
    exact hbook

end

end Fold

end EdgeMulticast.Recorder
