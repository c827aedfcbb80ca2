import EdgeMulticast.Lib.Run
import EdgeMulticast.Refdata.Registry
import EdgeMulticast.Relower.Compare

/-!
# The instrument table of an archive

`refdata.rs`: the published set as the definitions and the manifests of a capture state it.  The
symbol table is one for the archive; the count that a manifest declares is compared with the
definitions of its own channel.
-/

namespace EdgeMulticast.Relower

open Std (ExtTreeMap)
open EdgeMulticast.Lib
open EdgeMulticast.Codec
open EdgeMulticast.Refdata (nextManifestSeq)

/-- The Symbol field, padded as the wire carries it. -/
abbrev SymbolField := Vector Byte 64

instance : Std.TransOrd SymbolField := Vector.instTransOrd

/-- One instrument as the archive states it. -/
structure ArchivedInstrument where
  instrumentId : UInt32
  symbol : SymbolField
  priceExponent : Int8
  qtyExponent : Int8
  sourceId : UInt16
  contractValue : UInt64
  manifestSeq : UInt16
deriving DecidableEq

/-- What the highest valid manifest declared. -/
structure ManifestState where
  manifestSeq : UInt16
  instrumentCount : UInt32
deriving DecidableEq

/-- The published set, as reconstructed from one or more archives. -/
structure ArchivedRefdata where
  bySymbol : ExtTreeMap SymbolField ArchivedInstrument := ∅
  byId : ExtTreeMap UInt32 SymbolField := ∅
  /-- The symbols each channel defined. -/
  definedOn : ExtTreeMap Byte (Finset SymbolField) := ∅
  /-- The highest valid manifest each channel stated. -/
  manifests : ExtTreeMap Byte ManifestState := ∅
  caveats : List Caveat := []

namespace ArchivedRefdata

/-- Record a caveat unless the identical one is already held. -/
def pushOnce (r : ArchivedRefdata) (caveat : Caveat) : ArchivedRefdata :=
  if caveat ∈ r.caveats then r else { r with caveats := r.caveats ++ [caveat] }

/-- The symbols that a channel has defined. -/
def definedBy (r : ArchivedRefdata) (channelId : Byte) : Finset SymbolField :=
  (r.definedOn[channelId]?).getD ∅

/-- A symbol that is there keeps its first statement, and the caveats say so. -/
def restate (r : ArchivedRefdata) (existing : ArchivedInstrument) (d : InstrumentDefinition) :
    ArchivedRefdata :=
  let r :=
    if existing.priceExponent ≠ d.priceExponent ∨ existing.qtyExponent ≠ d.qtyExponent then
      r.pushOnce (.scaleRestated existing.instrumentId
        (existing.priceExponent, existing.qtyExponent) (d.priceExponent, d.qtyExponent))
    else r
  if existing.instrumentId ≠ d.instrumentId then
    r.pushOnce (.symbolRepublishedUnderANewId existing.instrumentId d.instrumentId)
  else r

/-- A symbol that is new enters both tables. -/
def introduce (r : ArchivedRefdata) (d : InstrumentDefinition) : ArchivedRefdata :=
  let archived : ArchivedInstrument :=
    { instrumentId := d.instrumentId, symbol := d.symbol, priceExponent := d.priceExponent,
      qtyExponent := d.qtyExponent, sourceId := d.sourceId, contractValue := d.contractValue,
      manifestSeq := d.manifestSeq }
  let r := if archived.contractValue ≠ 0 then
      r.pushOnce (.contractFactorNotOnTheWire archived.instrumentId)
    else r
  let previous := r.byId[archived.instrumentId]?
  let r := { r with byId := r.byId.insert archived.instrumentId archived.symbol }
  let r := if previous.any (· ≠ archived.symbol) then
      r.pushOnce (.idSharedByTwoSymbols archived.instrumentId)
    else r
  { r with bySymbol := r.bySymbol.insert archived.symbol archived }

/-- Take one definition found in an archive into the set. -/
def observeDefinition (r : ArchivedRefdata) (d : InstrumentDefinition) (channelId : Byte) :
    ArchivedRefdata :=
  let r := { r with
    definedOn := r.definedOn.insert channelId (insert d.symbol (r.definedBy channelId)) }
  match r.bySymbol[d.symbol]? with
  | some existing => r.restate existing d
  | none => r.introduce d

/-- Take one manifest found in an archive into the set. -/
def observeManifest (r : ArchivedRefdata) (m : ManifestSummary) (channelId : Byte) :
    ArchivedRefdata :=
  if m.valid ≠ 1 then r
  else
    let held := (r.manifests[channelId]?).getD ⟨m.manifestSeq, m.instrumentCount⟩
    let held := if held.manifestSeq < m.manifestSeq then ⟨m.manifestSeq, m.instrumentCount⟩
      else held
    { r with manifests := r.manifests.insert channelId held }

/-- What one channel owes once the archives are exhausted. -/
def shortfall (r : ArchivedRefdata) (channelId : Byte) (state : ManifestState) : Option Caveat :=
  let reconstructed := (r.definedBy channelId).card
  if state.instrumentCount.toNat ≠ reconstructed then
    some (.referenceDataIncomplete channelId state.manifestSeq state.instrumentCount reconstructed)
  else none

/-- The caveats the reconstruction owes on top of the ones it collected as it went. -/
def finalise (r : ArchivedRefdata) : ArchivedRefdata :=
  { r with caveats := r.caveats ++ r.manifests.toList.filterMap fun x ↦ r.shortfall x.1 x.2 }

/-- Incomplete reference data is reported for a channel. -/
def Raised (r : ArchivedRefdata) (channelId : Byte) : Prop :=
  ∃ seq declared reconstructed,
    Caveat.referenceDataIncomplete channelId seq declared reconstructed ∈ r.caveats

/-! ### What one statement changes -/

/-- One set reads as another to whoever asks for completeness. -/
structure Alike (r r' : ArchivedRefdata) : Prop where
  definedOn : r'.definedOn = r.definedOn
  manifests : r'.manifests = r.manifests
  raised : ∀ channelId, r'.Raised channelId ↔ r.Raised channelId

namespace Alike

variable {r r' r'' : ArchivedRefdata}

theorem refl (r : ArchivedRefdata) : Alike r r := ⟨rfl, rfl, fun _ ↦ Iff.rfl⟩

theorem trans (h : Alike r r') (h' : Alike r' r'') : Alike r r'' :=
  ⟨h'.definedOn.trans h.definedOn, h'.manifests.trans h.manifests,
    fun channelId ↦ (h'.raised channelId).trans (h.raised channelId)⟩

theorem definedBy (h : Alike r r') (channelId : Byte) :
    r'.definedBy channelId = r.definedBy channelId := by
  rw [ArchivedRefdata.definedBy, ArchivedRefdata.definedBy, h.definedOn]

/-- A caveat about something else. -/
theorem pushOnce (r : ArchivedRefdata) {caveat : Caveat}
    (h : ∀ channelId seq declared n,
      caveat ≠ .referenceDataIncomplete channelId seq declared n) :
    Alike r (r.pushOnce caveat) := by
  rw [ArchivedRefdata.pushOnce]
  split
  · exact refl r
  · refine ⟨rfl, rfl, fun channelId ↦ ⟨?_, ?_⟩⟩
    · rintro ⟨seq, declared, n, hmem⟩
      rcases List.mem_append.mp hmem with hmem | hmem
      · exact ⟨seq, declared, n, hmem⟩
      · exact absurd (List.mem_singleton.mp hmem).symm (h channelId seq declared n)
    · rintro ⟨seq, declared, n, hmem⟩
      exact ⟨seq, declared, n, List.mem_append_left _ hmem⟩

theorem ite_pushOnce (r : ArchivedRefdata) {caveat : Caveat} (c : Prop) [Decidable c]
    (h : ∀ channelId seq declared n,
      caveat ≠ .referenceDataIncomplete channelId seq declared n) :
    Alike r (if c then r.pushOnce caveat else r) := by
  split
  · exact pushOnce r h
  · exact refl r

theorem restate (r : ArchivedRefdata) (existing : ArchivedInstrument) (d : InstrumentDefinition) :
    Alike r (r.restate existing d) :=
  (ite_pushOnce r _ (by simp)).trans (ite_pushOnce _ _ (by simp))

theorem introduce (r : ArchivedRefdata) (d : InstrumentDefinition) : Alike r (r.introduce d) := by
  have hcontract : Alike r (if d.contractValue ≠ 0 then
      r.pushOnce (.contractFactorNotOnTheWire d.instrumentId) else r) :=
    ite_pushOnce r _ (by simp)
  refine hcontract.trans ?_
  dsimp only [ArchivedRefdata.introduce]
  generalize (if d.contractValue ≠ 0 then _ else r : ArchivedRefdata) = q
  have hid : Alike q { q with byId := q.byId.insert d.instrumentId d.symbol } :=
    ⟨rfl, rfl, fun _ ↦ Iff.rfl⟩
  exact (hid.trans (ite_pushOnce _ _ (by simp))).trans ⟨rfl, rfl, fun _ ↦ Iff.rfl⟩

end Alike

section

variable (r : ArchivedRefdata)

theorem definedBy_observeDefinition (d : InstrumentDefinition) (channelId other : Byte) :
    (r.observeDefinition d channelId).definedBy other =
      if channelId = other then insert d.symbol (r.definedBy other) else r.definedBy other := by
  let r' := { r with
    definedOn := r.definedOn.insert channelId (insert d.symbol (r.definedBy channelId)) }
  have halike : Alike r' (r.observeDefinition d channelId) := by
    rw [observeDefinition]
    split
    · exact Alike.restate _ _ _
    · exact Alike.introduce _ _
  rw [halike.definedBy, definedBy, getElem?_insert_eq]
  split
  next heq => rw [Option.getD_some, heq]
  next hne => rfl

theorem manifests_observeDefinition (d : InstrumentDefinition) (channelId : Byte) :
    (r.observeDefinition d channelId).manifests = r.manifests := by
  rw [observeDefinition]
  split
  · exact (Alike.restate _ _ _).manifests
  · exact (Alike.introduce _ _).manifests

theorem raised_observeDefinition (d : InstrumentDefinition) (channelId other : Byte) :
    (r.observeDefinition d channelId).Raised other ↔ r.Raised other := by
  rw [observeDefinition]
  split
  · exact (Alike.restate _ _ _).raised other
  · exact (Alike.introduce _ _).raised other

theorem definedBy_observeManifest (m : ManifestSummary) (channelId other : Byte) :
    (r.observeManifest m channelId).definedBy other = r.definedBy other := by
  rw [observeManifest]
  split <;> rfl

theorem raised_observeManifest (m : ManifestSummary) (channelId other : Byte) :
    (r.observeManifest m channelId).Raised other ↔ r.Raised other := by
  rw [observeManifest]
  split <;> exact Iff.rfl

/-- Raised at the end is what the manifest of the channel counts differently. -/
theorem raised_finalise {channelId : Byte} (h : ¬r.Raised channelId) :
    r.finalise.Raised channelId ↔ ∃ state, r.manifests[channelId]? = some state ∧
      state.instrumentCount.toNat ≠ (r.definedBy channelId).card := by
  constructor
  · rintro ⟨seq, declared, n, hmem⟩
    rcases List.mem_append.mp hmem with hmem | hmem
    · exact absurd ⟨seq, declared, n, hmem⟩ h
    · obtain ⟨⟨other, state⟩, hentry, hshort⟩ := List.mem_filterMap.mp hmem
      dsimp only [shortfall] at hshort
      split at hshort
      next hne =>
          obtain ⟨rfl, -⟩ := Caveat.referenceDataIncomplete.inj (Option.some.inj hshort)
          exact ⟨state, ExtTreeMap.mem_toList_iff_getElem?_eq_some.mp hentry, hne⟩
      next => cases hshort
  · rintro ⟨state, hstate, hne⟩
    refine ⟨state.manifestSeq, state.instrumentCount, (r.definedBy channelId).card,
      List.mem_append_right _ (List.mem_filterMap.mpr ⟨(channelId, state),
        ExtTreeMap.mem_toList_iff_getElem?_eq_some.mpr hstate, ?_⟩)⟩
    rw [shortfall, if_pos hne]

end

end ArchivedRefdata

/-! ## A capture -/

/-- A reference-data message of one channel.  A manifest comes with the set that it describes,
which a reader does not see. -/
inductive Sent where
  | definition (d : InstrumentDefinition)
  | manifest (m : ManifestSummary) (describes : Finset SymbolField)

namespace Sent

def symbol? : Sent → Option SymbolField
  | definition d => some d.symbol
  | manifest .. => none

/-- A valid manifest, and the set it describes. -/
def valid? : Sent → Option (ManifestSummary × Finset SymbolField)
  | definition _ => none
  | manifest m describes => if m.valid = 1 then some (m, describes) else none

end Sent

/-- What a capture holds of one channel, in order. -/
def onChannel (channelId : Byte) (capture : List (Byte × Sent)) : List Sent :=
  (capture.filter fun x ↦ x.1 = channelId).map Prod.snd

/-- The symbols that have a captured definition. -/
def definedIn (captured : List Sent) : Finset SymbolField :=
  (captured.filterMap Sent.symbol?).toFinset

/-- The valid manifests captured. -/
def described (captured : List Sent) : List (ManifestSummary × Finset SymbolField) :=
  captured.filterMap Sent.valid?

/-- The valid manifest captured last. -/
def latest (captured : List Sent) : Option (ManifestSummary × Finset SymbolField) :=
  (described captured).getLast?

/-- The first of the valid manifests captured with the highest Manifest Seq. -/
def highest (captured : List Sent) : Option (ManifestSummary × Finset SymbolField) :=
  (described captured).argmax fun x ↦ x.1.manifestSeq.toNat

namespace ArchivedRefdata

def observe (r : ArchivedRefdata) : Byte × Sent → ArchivedRefdata
  | (channelId, .definition d) => r.observeDefinition d channelId
  | (channelId, .manifest m _) => r.observeManifest m channelId

end ArchivedRefdata

/-- The set that a whole capture states. -/
def reconstruct (capture : List (Byte × Sent)) : ArchivedRefdata :=
  (run ArchivedRefdata.observe {} capture).finalise

theorem onChannel_concat (channelId : Byte) (capture : List (Byte × Sent)) (x : Byte × Sent) :
    onChannel channelId (capture ++ [x]) =
      onChannel channelId capture ++ if x.1 = channelId then [x.2] else [] := by
  rw [onChannel, List.filter_append, List.map_append, ← onChannel, List.filter_singleton]
  by_cases h : x.1 = channelId <;> simp [h]

theorem definedIn_concat_definition (captured : List Sent) (d : InstrumentDefinition) :
    definedIn (captured ++ [.definition d]) = insert d.symbol (definedIn captured) := by
  ext symbol
  simp [definedIn, Sent.symbol?]

theorem definedIn_concat_manifest (captured : List Sent) (m : ManifestSummary)
    (describes : Finset SymbolField) :
    definedIn (captured ++ [.manifest m describes]) = definedIn captured := by
  ext symbol
  simp [definedIn, Sent.symbol?]

theorem described_concat (captured : List Sent) (x : Sent) :
    described (captured ++ [x]) = described captured ++ x.valid?.toList := by
  rw [described, List.filterMap_append, ← described]
  cases hx : x.valid? <;> simp [hx]

/-- What the manifest that a channel holds keeps of the one it came from. -/
def ManifestState.ofSummary (x : ManifestSummary × Finset SymbolField) : ManifestState :=
  ⟨x.1.manifestSeq, x.1.instrumentCount⟩

/-- The set that a reader holds behind a capture. -/
structure Reads (capture : List (Byte × Sent)) (r : ArchivedRefdata) : Prop where
  defined : ∀ channelId, r.definedBy channelId = definedIn (onChannel channelId capture)
  manifests : ∀ channelId, r.manifests[channelId]? =
    (highest (onChannel channelId capture)).map ManifestState.ofSummary
  quiet : ∀ channelId, ¬r.Raised channelId

namespace Reads

variable {capture : List (Byte × Sent)} {r : ArchivedRefdata}

theorem start : Reads [] {} where
  defined channelId := by simp [ArchivedRefdata.definedBy, onChannel, definedIn]
  manifests channelId := by simp [onChannel, highest, described]
  quiet channelId := by
    rintro ⟨seq, declared, n, hmem⟩
    cases hmem

theorem observeDefinition (h : Reads capture r) (channelId : Byte) (d : InstrumentDefinition) :
    Reads (capture ++ [(channelId, .definition d)]) (r.observeDefinition d channelId) where
  defined other := by
    rw [r.definedBy_observeDefinition, onChannel_concat, h.defined]
    split
    next => rw [definedIn_concat_definition]
    next => rw [List.append_nil]
  manifests other := by
    rw [r.manifests_observeDefinition, onChannel_concat, h.manifests]
    split
    next => rw [highest, highest, described_concat, Sent.valid?, Option.toList_none,
      List.append_nil]
    next => rw [List.append_nil]
  quiet other := by
    rw [r.raised_observeDefinition]
    exact h.quiet other

/-- The manifest held is replaced by one with a higher Manifest Seq. -/
theorem manifests_observe (h : Reads capture r) (channelId : Byte) (m : ManifestSummary)
    (describes : Finset SymbolField) (hvalid : m.valid = 1) :
    (r.observeManifest m channelId).manifests[channelId]? =
      (highest (onChannel channelId capture ++ [.manifest m describes])).map
        ManifestState.ofSummary := by
  rw [ArchivedRefdata.observeManifest, if_neg (not_not.mpr hvalid)]
  dsimp only
  rw [getElem?_insert_eq, if_pos rfl, h.manifests, highest.eq_def (_ ++ _), described_concat,
    Sent.valid?, if_pos hvalid, Option.toList_some, List.argmax_concat, ← highest]
  cases hheld : highest (onChannel channelId capture) with
  | none => simp [ManifestState.ofSummary]
  | some held =>
      simp only [Option.map_some, Option.getD_some, ManifestState.ofSummary, UInt16.lt_iff_toNat_lt]
      split <;> rfl

theorem observeManifest (h : Reads capture r) (channelId : Byte) (m : ManifestSummary)
    (describes : Finset SymbolField) :
    Reads (capture ++ [(channelId, .manifest m describes)]) (r.observeManifest m channelId) where
  defined other := by
    rw [r.definedBy_observeManifest, onChannel_concat, h.defined]
    split
    next => rw [definedIn_concat_manifest]
    next => rw [List.append_nil]
  manifests other := by
    rw [onChannel_concat]
    by_cases hvalid : m.valid = 1
    · by_cases heq : channelId = other
      · subst heq
        rw [if_pos rfl]
        exact h.manifests_observe channelId m describes hvalid
      · rw [if_neg heq, List.append_nil, ArchivedRefdata.observeManifest,
          if_neg (not_not.mpr hvalid), ← h.manifests]
        exact getElem?_insert_ne heq
    · rw [ArchivedRefdata.observeManifest, if_pos hvalid, h.manifests]
      split
      next => rw [highest, highest, described_concat, Sent.valid?, if_neg hvalid,
        Option.toList_none, List.append_nil]
      next => rw [List.append_nil]
  quiet other := by
    rw [r.raised_observeManifest]
    exact h.quiet other

theorem observe (h : Reads capture r) (x : Byte × Sent) : Reads (capture ++ [x]) (r.observe x) := by
  obtain ⟨channelId, d | ⟨m, describes⟩⟩ := x
  · exact h.observeDefinition channelId d
  · exact h.observeManifest channelId m describes

end Reads

theorem reads_run (capture : List (Byte × Sent)) :
    Reads capture (run ArchivedRefdata.observe {} capture) :=
  run_history (P := Reads) capture Reads.start fun _ x _ h ↦ h.observe x

/-- The caveat compares the count of the highest manifest with the definitions of its channel. -/
theorem raised_reconstruct (capture : List (Byte × Sent)) (channelId : Byte) :
    (reconstruct capture).Raised channelId ↔ ∃ x ∈ highest (onChannel channelId capture),
      x.1.instrumentCount.toNat ≠ (definedIn (onChannel channelId capture)).card := by
  have h := reads_run capture
  rw [reconstruct, ArchivedRefdata.raised_finalise _ (h.quiet channelId), h.defined, h.manifests]
  simp [ManifestState.ofSummary]

/-! ## What a channel publishes -/

/-- The set that a channel publishes, and its Manifest Seq. -/
structure PublishedOn where
  published : Finset SymbolField
  manifestSeq : UInt16

/-- A channel that admits and withdraws instruments and states what it publishes: what it has sent
and how often its set has changed since it started. -/
inductive Sends (first : PublishedOn) : List Sent → ℕ → PublishedOn → Prop
  | start : Sends first [] 0 first
  | admission {sent : List Sent} {changes : ℕ} {now : PublishedOn} {symbol : SymbolField}
      (h : Sends first sent changes now) (hnew : symbol ∉ now.published) :
      Sends first sent (changes + 1)
        ⟨insert symbol now.published, nextManifestSeq now.manifestSeq⟩
  | withdraw {sent : List Sent} {changes : ℕ} {now : PublishedOn} {symbol : SymbolField}
      (h : Sends first sent changes now) (hthere : symbol ∈ now.published) :
      Sends first sent (changes + 1)
        ⟨now.published.erase symbol, nextManifestSeq now.manifestSeq⟩
  | define {sent : List Sent} {changes : ℕ} {now : PublishedOn} {d : InstrumentDefinition}
      (h : Sends first sent changes now) (hthere : d.symbol ∈ now.published) :
      Sends first (sent ++ [.definition d]) changes now
  | summarise {sent : List Sent} {changes : ℕ} {now : PublishedOn} {m : ManifestSummary}
      (h : Sends first sent changes now)
      (hstates : m.valid = 1 →
        m.instrumentCount.toNat = now.published.card ∧ m.manifestSeq = now.manifestSeq) :
      Sends first (sent ++ [.manifest m now.published]) changes now

/-- Of two manifests the earlier has no higher Manifest Seq, and with the same one it describes the
same set. -/
def Earlier (x y : ManifestSummary × Finset SymbolField) : Prop :=
  x.1.manifestSeq.toNat ≤ y.1.manifestSeq.toNat ∧
    (x.1.manifestSeq.toNat = y.1.manifestSeq.toNat → x.2 = y.2)

theorem mem_described_concat {captured : List Sent} {x : Sent}
    {y : ManifestSummary × Finset SymbolField} :
    y ∈ described (captured ++ [x]) ↔ y ∈ described captured ∨ x.valid? = some y := by
  rw [described_concat, List.mem_append, Option.mem_toList]

theorem valid?_manifest {m : ManifestSummary} {describes : Finset SymbolField}
    {x : ManifestSummary × Finset SymbolField} :
    (Sent.manifest m describes).valid? = some x ↔ m.valid = 1 ∧ x = (m, describes) := by
  simp [Sent.valid?, eq_comm]

namespace Sends

variable {first now : PublishedOn} {sent : List Sent} {changes : ℕ}

/-- A manifest carries the count of the set it describes. -/
theorem counted (h : Sends first sent changes now) :
    ∀ x ∈ described sent, x.1.instrumentCount.toNat = x.2.card := by
  induction h with
  | start => exact fun x hx ↦ absurd hx (List.not_mem_nil)
  | admission _ _ ih | withdraw _ _ ih => exact ih
  | define _ _ ih =>
      intro x hx
      rcases mem_described_concat.mp hx with hx | hx
      · exact ih x hx
      · cases hx
  | summarise _ hstates ih =>
      intro x hx
      rcases mem_described_concat.mp hx with hx | hx
      · exact ih x hx
      · obtain ⟨hvalid, rfl⟩ := valid?_manifest.mp hx
        exact (hstates hvalid).1

theorem next_toNat {seq : UInt16} (h : seq.toNat < 65535) :
    (nextManifestSeq seq).toNat = seq.toNat + 1 := by
  have hne : seq ≠ 65535 := fun heq ↦ by simp [heq] at h
  rw [nextManifestSeq, if_neg hne, UInt16.toNat_add]
  exact Nat.mod_eq_of_lt (by simpa using by omega)

/-- The state of a channel whose Manifest Seq has not come round. -/
structure Ordered (first now : PublishedOn) (sent : List Sent) (changes : ℕ) : Prop where
  seq : now.manifestSeq.toNat = first.manifestSeq.toNat + changes
  past : ∀ x ∈ described sent, x.1.manifestSeq.toNat ≤ now.manifestSeq.toNat ∧
    (x.1.manifestSeq.toNat = now.manifestSeq.toNat → x.2 = now.published)
  inOrder : (described sent).Pairwise Earlier

/-- A change moves the number beyond every manifest sent. -/
theorem Ordered.change (h : Ordered first now sent changes)
    (hroom : first.manifestSeq.toNat + (changes + 1) ≤ 65535) (published : Finset SymbolField) :
    Ordered first ⟨published, nextManifestSeq now.manifestSeq⟩ sent (changes + 1) where
  seq := by
    dsimp only
    rw [next_toNat (by rw [h.seq]; omega), h.seq]
    rfl
  past x hx := by
    have hle := (h.past x hx).1
    dsimp only
    rw [next_toNat (by rw [h.seq]; omega)]
    exact ⟨by omega, fun heq ↦ by omega⟩
  inOrder := h.inOrder

theorem seqs_ordered (h : Sends first sent changes now)
    (hroom : first.manifestSeq.toNat + changes ≤ 65535) : Ordered first now sent changes := by
  induction h with
  | start => exact ⟨rfl, fun x hx ↦ absurd hx List.not_mem_nil, List.Pairwise.nil⟩
  | admission _ _ ih | withdraw _ _ ih => exact (ih (by omega)).change hroom _
  | @define sent changes now d _ _ ih =>
      have hsame : described (sent ++ [.definition d]) = described sent := by
        rw [described_concat, Sent.valid?, Option.toList_none, List.append_nil]
      obtain ⟨hseq, hpast, hordered⟩ := ih hroom
      exact ⟨hseq, hsame ▸ hpast, hsame ▸ hordered⟩
  | summarise _ hstates ih =>
      obtain ⟨hseq, hpast, hordered⟩ := ih hroom
      refine ⟨hseq, fun x hx ↦ ?_, ?_⟩
      · rcases mem_described_concat.mp hx with hx | hx
        · exact hpast x hx
        · obtain ⟨hvalid, rfl⟩ := valid?_manifest.mp hx
          exact ⟨(congrArg UInt16.toNat (hstates hvalid).2).le, fun _ ↦ rfl⟩
      · rw [described_concat, List.pairwise_append]
        refine ⟨hordered, ?_, fun x hx y hy ↦ ?_⟩
        · rw [Sent.valid?]
          split <;> simp
        · obtain ⟨hvalid, rfl⟩ := valid?_manifest.mp (Option.mem_toList.mp hy)
          have hp := hpast x hx
          rw [← (hstates hvalid).2] at hp
          exact hp

end Sends

/-- In order, the highest manifest states what the latest does. -/
theorem highest_eq_latest {captured : List Sent} (hordered : (described captured).Pairwise Earlier)
    {x y : ManifestSummary × Finset SymbolField} (hx : x ∈ highest captured)
    (hy : y ∈ latest captured) : x.2 = y.2 := by
  obtain ⟨earlier, heq⟩ := List.getLast?_eq_some_iff.mp hy
  have hmem := List.argmax_mem hx
  have hlast : y ∈ described captured := List.mem_of_getLast? hy
  have hle : y.1.manifestSeq.toNat ≤ x.1.manifestSeq.toNat :=
    List.le_of_mem_argmax (f := fun z : ManifestSummary × Finset SymbolField ↦
      z.1.manifestSeq.toNat) hlast hx
  rw [heq] at hmem hordered
  rcases List.mem_append.mp hmem with hmem | hmem
  · obtain ⟨hbefore, hsame⟩ :=
      (List.pairwise_append.mp hordered).2.2 x hmem y (List.mem_singleton_self y)
    exact hsame (Nat.le_antisymm hbefore hle)
  · rw [List.mem_singleton.mp hmem]

theorem exists_highest_iff {captured : List Sent} :
    (∃ x, x ∈ highest captured) ↔ ∃ y, y ∈ latest captured := by
  have hhighest : (∃ x, x ∈ highest captured) ↔ highest captured ≠ none :=
    Option.ne_none_iff_exists'.symm
  have hlatest : (∃ y, y ∈ latest captured) ↔ latest captured ≠ none :=
    Option.ne_none_iff_exists'.symm
  rw [hhighest, hlatest, highest, latest, Ne, List.argmax_eq_none, Ne, List.getLast?_eq_none_iff]

section

variable {capture : List (Byte × Sent)} {channelId : Byte} {first now : PublishedOn}
  {sent : List Sent} {changes : ℕ}

/-- While the Manifest Seq has not come round, the latest manifest decides. -/
theorem raised_iff_latest (h : Sends first sent changes now)
    (hcaptured : (onChannel channelId capture).Sublist sent)
    (hroom : first.manifestSeq.toNat + changes ≤ 65535) :
    (reconstruct capture).Raised channelId ↔ ∃ y ∈ latest (onChannel channelId capture),
      (y.2 \ definedIn (onChannel channelId capture)).card ≠
        (definedIn (onChannel channelId capture) \ y.2).card := by
  have hsub : (described (onChannel channelId capture)).Sublist (described sent) :=
    hcaptured.filterMap _
  have hordered := (h.seqs_ordered hroom).inOrder.sublist hsub
  have hcount {x : ManifestSummary × Finset SymbolField}
      (hx : x ∈ highest (onChannel channelId capture)) :
      x.1.instrumentCount.toNat = x.2.card := h.counted x (hsub.subset (List.argmax_mem hx))
  rw [raised_reconstruct]
  constructor
  · rintro ⟨x, hx, hne⟩
    obtain ⟨y, hy⟩ := exists_highest_iff.mp ⟨x, hx⟩
    refine ⟨y, hy, fun heq ↦ hne ?_⟩
    rw [hcount hx, highest_eq_latest hordered hx hy]
    exact Finset.card_sdiff_eq_card_sdiff_iff.mp heq
  · rintro ⟨y, hy, hne⟩
    obtain ⟨x, hx⟩ := exists_highest_iff.mpr ⟨y, hy⟩
    refine ⟨x, hx, fun heq ↦ hne ?_⟩
    rw [hcount hx, highest_eq_latest hordered hx hy] at heq
    exact Finset.card_sdiff_eq_card_sdiff_iff.mpr heq

end

/-- Incomplete reference data, reported for each channel by a count: that of the first captured
manifest of the highest Manifest Seq differs from the number of symbols defined on the channel.
While the Manifest Seq has not come round, that is as many instruments of the latest captured
manifest's set without a definition as there are definitions of others; and where no other has a
captured definition, some instrument of the set without one. -/
theorem incomplete_accounted {capture : List (Byte × Sent)} {first now : Byte → PublishedOn}
    {sent : Byte → List Sent} {changes : Byte → ℕ}
    (hsent : ∀ channelId,
      Sends (first channelId) (sent channelId) (changes channelId) (now channelId))
    (hcaptured : ∀ channelId, (onChannel channelId capture).Sublist (sent channelId))
    (channelId : Byte) :
    ((reconstruct capture).Raised channelId ↔ ∃ x ∈ highest (onChannel channelId capture),
      x.1.instrumentCount.toNat ≠ (definedIn (onChannel channelId capture)).card) ∧
    ((first channelId).manifestSeq.toNat + changes channelId ≤ 65535 →
      ((reconstruct capture).Raised channelId ↔ ∃ y ∈ latest (onChannel channelId capture),
        (y.2 \ definedIn (onChannel channelId capture)).card ≠
          (definedIn (onChannel channelId capture) \ y.2).card) ∧
      ((∀ y ∈ latest (onChannel channelId capture),
          definedIn (onChannel channelId capture) ⊆ y.2) →
        ((reconstruct capture).Raised channelId ↔ ∃ y ∈ latest (onChannel channelId capture),
          ∃ symbol ∈ y.2, symbol ∉ definedIn (onChannel channelId capture)))) := by
  refine ⟨raised_reconstruct capture channelId, fun hroom ↦ ?_⟩
  have hlatest := raised_iff_latest (hsent channelId) (hcaptured channelId) hroom
  refine ⟨hlatest, fun hnone ↦ hlatest.trans (exists_congr fun y ↦ and_congr_right fun hy ↦ ?_)⟩
  rw [Finset.sdiff_eq_empty_iff_subset.mpr (hnone y hy), Finset.card_empty,
    Finset.card_ne_zero, Finset.sdiff_nonempty, Finset.not_subset]

def symbolOf (b : Byte) : SymbolField := Vector.replicate 64 b

def definitionOf (id : UInt32) (symbol : SymbolField) : InstrumentDefinition :=
  { instrumentId := id, sourceId := 1, symbol := symbol, leg1 := Vector.replicate 8 0,
    leg2 := Vector.replicate 8 0, assetClass := 0, priceExponent := -2, qtyExponent := 0,
    marketModel := 0, tickSize := 1, lotSize := 1, contractValue := 0, expiryNs := 0,
    settleType := 0, priceBound := 0, manifestSeq := 1 }

def manifestOf (seq : UInt16) (count : UInt32) : ManifestSummary :=
  { channelId := 0, valid := 1, manifestSeq := seq, instrumentCount := count, timestampNs := 0 }

/-- An instrument is defined and withdrawn, and another is admitted before the manifest. -/
def relisted : List Sent :=
  [.definition (definitionOf 1 (symbolOf 65)), .manifest (manifestOf 4 1) {symbolOf 66}]

/-- An instrument is admitted under the last Manifest Seq and another under the first one. -/
def comeRound : List Sent :=
  [.manifest (manifestOf 65535 1) {symbolOf 65}, .definition (definitionOf 1 (symbolOf 65)),
    .manifest (manifestOf 1 2) {symbolOf 66, symbolOf 65}]

theorem sends_relisted : Sends ⟨∅, 1⟩ relisted 3 ⟨{symbolOf 66}, 4⟩ := by
  have hadmitted : Sends ⟨∅, 1⟩ [] 1 ⟨{symbolOf 65}, 2⟩ :=
    Sends.start.admission (Finset.notMem_empty (symbolOf 65))
  have hwithdrawn := (hadmitted.define (d := definitionOf 1 (symbolOf 65))
    (Finset.mem_singleton_self _)).withdraw (Finset.mem_singleton_self _)
  have hset : ({symbolOf 65} : Finset SymbolField).erase (symbolOf 65) = ∅ := by simp
  rw [hset] at hwithdrawn
  exact (hwithdrawn.admission (Finset.notMem_empty (symbolOf 66))).summarise
    fun _ ↦ ⟨rfl, rfl⟩

theorem symbolOf_ne : symbolOf 65 ≠ symbolOf 66 := by decide

theorem sends_comeRound :
    Sends ⟨∅, 65534⟩ comeRound 2 ⟨{symbolOf 66, symbolOf 65}, 1⟩ := by
  have hadmitted : Sends ⟨∅, 65534⟩ [] 1 ⟨{symbolOf 65}, 65535⟩ :=
    Sends.start.admission (Finset.notMem_empty (symbolOf 65))
  have hstated := hadmitted.summarise (m := manifestOf 65535 1) fun _ ↦ ⟨rfl, rfl⟩
  have hdefined := hstated.define (d := definitionOf 1 (symbolOf 65))
    (Finset.mem_singleton_self _)
  have hnew : symbolOf 66 ∉ ({symbolOf 65} : Finset SymbolField) :=
    fun h ↦ symbolOf_ne (Finset.mem_singleton.mp h).symm
  exact (hdefined.admission hnew).summarise fun _ ↦ ⟨(Finset.card_pair symbolOf_ne.symm).symm, rfl⟩

theorem onChannel_map (channelId : Byte) (sent : List Sent) :
    onChannel channelId (sent.map fun x ↦ (channelId, x)) = sent := by
  induction sent with
  | nil => rfl
  | cons x sent ih => simpa [onChannel] using ih

/-- A definition of an instrument that was withdrawn stands in for a missing one, and so does a
manifest from before the Manifest Seq came round. -/
theorem missing_not_raised :
    (Sends ⟨∅, 1⟩ relisted 3 ⟨{symbolOf 66}, 4⟩ ∧
      ¬(reconstruct (relisted.map fun x ↦ (0, x))).Raised 0 ∧
      ∃ y ∈ latest relisted, ∃ symbol ∈ y.2, symbol ∉ definedIn relisted) ∧
    (Sends ⟨∅, 65534⟩ comeRound 2 ⟨{symbolOf 66, symbolOf 65}, 1⟩ ∧
      ¬(reconstruct (comeRound.map fun x ↦ (0, x))).Raised 0 ∧
      ∃ y ∈ latest comeRound, ∃ symbol ∈ y.2, symbol ∉ definedIn comeRound) := by
  have hdefined : definedIn relisted = {symbolOf 65} := rfl
  have hdefined' : definedIn comeRound = {symbolOf 65} := rfl
  have hmissing : symbolOf 66 ∉ ({symbolOf 65} : Finset SymbolField) :=
    fun h ↦ symbolOf_ne (Finset.mem_singleton.mp h).symm
  have hhighest : highest relisted = some (manifestOf 4 1, {symbolOf 66}) := rfl
  have hhighest' : highest comeRound = some (manifestOf 65535 1, {symbolOf 65}) := rfl
  refine ⟨⟨sends_relisted, ?_, _, rfl, symbolOf 66, Finset.mem_singleton_self _, ?_⟩,
    sends_comeRound, ?_, _, rfl, symbolOf 66, Finset.mem_insert_self _ _, ?_⟩
  · rw [raised_reconstruct, onChannel_map, hhighest, hdefined]
    rintro ⟨x, hx, hne⟩
    cases hx
    exact hne rfl
  · rw [hdefined]
    exact hmissing
  · rw [raised_reconstruct, onChannel_map, hhighest', hdefined']
    rintro ⟨x, hx, hne⟩
    cases hx
    exact hne rfl
  · rw [hdefined']
    exact hmissing

/-- An instrument is admitted and its definition is not captured. -/
def short : List Sent := [.manifest (manifestOf 2 1) {symbolOf 65}]

theorem incomplete_accounted_short : (reconstruct (short.map fun x ↦ (0, x))).Raised 0 := by
  have hsent (channelId : Byte) : Sends ⟨∅, 1⟩ (if channelId = 0 then short else [])
      (if channelId = 0 then 1 else 0) (if channelId = 0 then ⟨{symbolOf 65}, 2⟩ else ⟨∅, 1⟩) := by
    split
    · exact (Sends.start.admission (Finset.notMem_empty (symbolOf 65))).summarise fun _ ↦ ⟨rfl, rfl⟩
    · exact Sends.start
  have hcaptured (channelId : Byte) : (onChannel channelId (short.map fun x ↦ (0, x))).Sublist
      (if channelId = 0 then short else []) := by
    split
    next h => rw [h, onChannel_map]
    next h => simp [onChannel, Ne.symm h]
  refine (((incomplete_accounted hsent hcaptured 0).2 (by decide)).2 ?_).mpr
    ⟨(manifestOf 2 1, {symbolOf 65}), rfl, symbolOf 65, Finset.mem_singleton_self _, ?_⟩
  · exact fun y _ ↦ Finset.empty_subset y.2
  · exact Finset.notMem_empty _

end EdgeMulticast.Relower
