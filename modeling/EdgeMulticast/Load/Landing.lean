import EdgeMulticast.Load.Pass
import Mathlib.Algebra.Order.Sub.Unbundled.Basic
import Mathlib.Data.Multiset.AddSub

/-!
# What lands is recorded

A call of the sink moves objects out of what it holds; the recording behind the call moves the same
objects out of what is pending, and into the ledger where their entries can be written.
-/

namespace EdgeMulticast.Load

open EdgeMulticast.Lib
open EdgeMulticast.Rows

namespace Loader

variable {sink : RowSink} {json : LineCodec Entry} {l : Loader sink} {id : ObjectId}
  {append : ObjectId → Append × ℕ}

/-- The objects whose rows are held. -/
def heldIds (l : Loader sink) : List ObjectId := l.pending.map Pending.id

/-- An object is held or recorded. -/
def Known (l : Loader sink) (id : ObjectId) : Prop := id ∈ l.heldIds ∨ id ∈ l.ledger.loaded

/-- An object is held, or has an entry, and is so under a feed. -/
def Under (json : LineCodec Entry) (l : Loader sink) (id : ObjectId) (feed : String) : Prop :=
  (∃ p ∈ l.pending, p.id = id ∧ p.feed = feed) ∨
    ∃ e ∈ l.ledger.written json, e.id = id ∧ e.feed = feed

/-- The ledger is backed by its file, and no object is held twice, or held and recorded. -/
structure Sorted (json : LineCodec Entry) (l : Loader sink) : Prop where
  backed : l.ledger.Backed json
  nodup : l.heldIds.Nodup
  apart : ∀ id ∈ l.heldIds, id ∉ l.ledger.loaded

theorem any_pending : (l.pending.any fun p ↦ p.id = id) = true ↔ id ∈ l.heldIds := by
  simp [heldIds]

/-! ## One object -/

/-- The entry that is written for an object that was pending. -/
def entryOf (append : ObjectId → Append × ℕ) (done : Pending) : Entry where
  objectKey := done.id.key
  objectSha256 := done.id.sha256
  loadedAtNs := (append done.id).2
  trailer := done.trailer
  feed := done.feed

theorem recordOne_cases (json : LineCodec Entry) (append : ObjectId → Append × ℕ)
    (state : Loader sink × Recorded) (id : ObjectId) :
    id ∉ state.1.heldIds ∧ recordOne json append state id = state ∨
    ∃ done ∈ state.1.pending, done.id = id ∧ (recordOne json append state id).1 =
      { state.1 with
        pending := state.1.pending.eraseP (·.id = id)
        ledger := (state.1.ledger.record json (entryOf append done) (append id).1).1 } := by
  cases hfind : state.1.pending.find? (·.id = id) with
  | none =>
      refine .inl ⟨?_, ?_⟩
      · intro hid
        obtain ⟨p, hp, rfl⟩ := List.mem_map.mp hid
        exact List.find?_eq_none.mp hfind p hp (decide_eq_true rfl)
      · rw [recordOne, hfind]
  | some done =>
      have hid : done.id = id := by simpa using List.find?_some hfind
      refine .inr ⟨done, List.mem_of_find?_eq_some hfind, hid, ?_⟩
      subst hid
      rw [recordOne, hfind]
      rfl

theorem heldIds_eraseP (pending : List Pending) :
    (pending.eraseP (·.id = id)).map Pending.id = (pending.map Pending.id).erase id := by
  rw [List.erase_eq_eraseP', List.eraseP_map]
  rfl

variable {state : Loader sink × Recorded}

theorem heldIds_recordOne (json : LineCodec Entry) (append : ObjectId → Append × ℕ)
    (state : Loader sink × Recorded) (id : ObjectId) :
    (recordOne json append state id).1.heldIds = state.1.heldIds.erase id := by
  rcases recordOne_cases json append state id with ⟨hid, h⟩ | ⟨done, hdone, hid, h⟩
  · rw [h, List.erase_of_not_mem hid]
  · rw [h]
    exact heldIds_eraseP state.1.pending

theorem sink_recordOne : (recordOne json append state id).1.sink = state.1.sink := by
  rcases recordOne_cases json append state id with ⟨hid, h⟩ | ⟨done, hdone, hid, h⟩ <;> rw [h]

theorem mem_loaded_recordOne {id' : ObjectId}
    (h : id' ∈ (recordOne json append state id).1.ledger.loaded) :
    id' ∈ state.1.ledger.loaded ∨ id' = id ∧ id ∈ state.1.heldIds := by
  rcases recordOne_cases json append state id with ⟨hid, heq⟩ | ⟨done, hdone, hid, heq⟩
  · rw [heq] at h
    exact .inl h
  · rw [heq] at h
    rcases Ledger.mem_loaded_record.mp h with h | ⟨-, rfl⟩
    · exact .inl h
    · exact .inr ⟨hid, hid ▸ List.mem_map_of_mem hdone⟩

theorem Sorted.recordOne (h : state.1.Sorted json) (hclean : (append id).1.Clean) :
    (Loader.recordOne json append state id).1.Sorted json := by
  constructor
  · rcases recordOne_cases json append state id with ⟨hid, heq⟩ | ⟨done, hdone, hid, heq⟩
    · rw [heq]
      exact h.backed
    · rw [heq]
      exact h.backed.record hclean
  · rw [heldIds_recordOne]
    exact h.nodup.erase id
  · intro id' hid' hloaded
    rw [heldIds_recordOne, h.nodup.mem_erase_iff] at hid'
    rcases mem_loaded_recordOne hloaded with hloaded | ⟨heq, -⟩
    · exact h.apart id' hid'.2 hloaded
    · exact hid'.1 heq

theorem under_recordOne {id' : ObjectId} {feed : String} (h : state.1.Sorted json)
    (hclean : (append id).1.Clean) (hu : (recordOne json append state id).1.Under json id' feed) :
    state.1.Under json id' feed := by
  rcases recordOne_cases json append state id with ⟨hid, heq⟩ | ⟨done, hdone, hid, heq⟩
  · rwa [heq] at hu
  · rw [heq] at hu
    rcases hu with ⟨p, hp, hu⟩ | ⟨e, he, hu⟩
    · exact .inl ⟨p, List.mem_of_mem_eraseP hp, hu⟩
    · rcases Ledger.mem_written_record h.backed hclean he with he | ⟨-, rfl⟩
      · exact .inr ⟨e, he, hu⟩
      · exact .inl ⟨done, hdone, hu⟩

/-- An object whose entry cannot be written is not recorded. -/
theorem not_loaded_recordOne {left : ℕ} (hfile : state.1.ledger.file ≠ .inMemory)
    (happend : (append id).1 = .failed left) (hid : id ∉ state.1.ledger.loaded) :
    id ∉ (recordOne json append state id).1.ledger.loaded := by
  rcases recordOne_cases json append state id with ⟨-, heq⟩ | ⟨done, -, -, heq⟩
  · rwa [heq]
  · rw [heq, happend, Ledger.record.eq_def, if_neg hfile]
    exact hid

/-! ## Everything that has landed -/

variable {landed : List ObjectId}

theorem heldIds_recordLanded :
    (recordLanded json append l landed).1.heldIds = l.heldIds.diff landed := by
  rw [recordLanded]
  generalize ({} : Recorded) = recorded
  induction landed generalizing l recorded with
  | nil => rfl
  | cons id landed ih =>
      rw [run_cons, List.diff_cons, ← heldIds_recordOne json append (l, recorded) id]
      exact ih _

theorem recordLanded_induction (json : LineCodec Entry) (append : ObjectId → Append × ℕ)
    (landed : List ObjectId) {P : Loader sink → Prop} (init : P l)
    (next : ∀ state id, id ∈ landed → P state.1 → P (recordOne json append state id).1) :
    P (recordLanded json append l landed).1 :=
  run_induction (P := fun state : Loader sink × Recorded ↦ P state.1) landed init next

theorem sink_recordLanded : (recordLanded json append l landed).1.sink = l.sink :=
  recordLanded_induction json append landed (P := fun l' ↦ l'.sink = l.sink) rfl fun _ _ _ h ↦
    sink_recordOne.trans h

/-- Nothing is recorded but what has landed, and was pending. -/
theorem mem_loaded_recordLanded (h : id ∈ (recordLanded json append l landed).1.ledger.loaded) :
    id ∈ l.ledger.loaded ∨ id ∈ landed ∧ id ∈ l.heldIds := by
  have key := recordLanded_induction json append landed
    (P := fun l' ↦ (∀ id ∈ l'.heldIds, id ∈ l.heldIds) ∧
      ∀ id ∈ l'.ledger.loaded, id ∈ l.ledger.loaded ∨ id ∈ landed ∧ id ∈ l.heldIds)
    ⟨fun _ h ↦ h, fun _ h ↦ .inl h⟩ ?_
  · exact key.2 id h
  · rintro state id' hid' ⟨hheld, hloaded⟩
    constructor
    · intro id'' hmem
      rw [heldIds_recordOne] at hmem
      exact hheld id'' (List.mem_of_mem_erase hmem)
    · intro id'' hmem
      rcases mem_loaded_recordOne hmem with hmem | ⟨rfl, hmem⟩
      · exact hloaded id'' hmem
      · exact .inr ⟨hid', hheld _ hmem⟩

theorem Sorted.recordLanded (h : l.Sorted json) (hclean : ∀ id, (append id).1.Clean) :
    (Loader.recordLanded json append l landed).1.Sorted json :=
  recordLanded_induction json append landed (P := fun l' ↦ l'.Sorted json) h fun _ id _ h ↦ h.recordOne (hclean id)

theorem under_recordLanded {feed : String} (h : l.Sorted json) (hclean : ∀ id, (append id).1.Clean)
    (hu : (recordLanded json append l landed).1.Under json id feed) : l.Under json id feed := by
  have key := recordLanded_induction json append landed
    (P := fun l' ↦ l'.Sorted json ∧ (l'.Under json id feed → l.Under json id feed)) ⟨h, fun hu ↦ hu⟩ ?_
  · exact key.2 hu
  · rintro state id' - ⟨hsorted, hunder⟩
    exact ⟨hsorted.recordOne (hclean id'), fun hu ↦
      hunder (under_recordOne hsorted (hclean id') hu)⟩

/-- What becomes known by recording was known. -/
theorem known_recordLanded (h : (recordLanded json append l landed).1.Known id) : l.Known id := by
  rcases h with h | h
  · rw [heldIds_recordLanded] at h
    exact .inl (List.diff_subset _ _ h)
  · rcases mem_loaded_recordLanded h with h | ⟨-, h⟩
    · exact .inr h
    · exact .inl h

/-- An object that has landed is not held any more, and not recorded where its entry could not be
written. -/
theorem not_known_recordLanded {left : ℕ} (hnodup : l.heldIds.Nodup) (hid : id ∈ landed)
    (hfile : l.ledger.file ≠ .inMemory) (happend : (append id).1 = .failed left)
    (hloaded : id ∉ l.ledger.loaded) : ¬(recordLanded json append l landed).1.Known id := by
  have key := recordLanded_induction json append landed
    (P := fun l' ↦ l'.ledger.file ≠ .inMemory ∧ id ∉ l'.ledger.loaded) ⟨hfile, hloaded⟩ ?_
  · rintro (h | h)
    · rw [heldIds_recordLanded, hnodup.mem_sdiff_iff] at h
      exact h.2 hid
    · exact key.2 h
  · rintro state id' - ⟨hfile', hloaded'⟩
    constructor
    · rcases recordOne_cases json append state id' with ⟨-, heq⟩ | ⟨done, -, -, heq⟩
      · rwa [heq]
      · rw [heq]
        exact fun h ↦ hfile' ((Ledger.file_record_inMemory json _ _ _).mp h)
    · by_cases heq : id' = id
      · subst heq
        exact not_loaded_recordOne hfile' happend hloaded'
      · intro hmem
        rcases mem_loaded_recordOne hmem with hmem | ⟨rfl, -⟩
        · exact hloaded' hmem
        · exact heq rfl

/-! ## What a call of the sink leaves -/

/-- The sink holds the rows of the pending objects, and the ledger has but objects that it has
reported landed or that were in it at first. -/
structure Kept (initial : List ObjectId) (l : Loader sink) : Prop where
  held : l.heldIds.Perm (sink.holds l.sink)
  landed : ∀ id ∈ l.ledger.loaded, id ∈ sink.reported l.sink ∨ id ∈ initial

variable {initial : List ObjectId} {held : List ObjectId} {s : sink.State}

/-- A call that has landed objects, behind which they are recorded. -/
theorem Kept.recordLanded (hheld : l.heldIds.Perm held)
    (hlanded : ∀ id ∈ l.ledger.loaded, id ∈ sink.reported l.sink ∨ id ∈ initial)
    (h : Lands held (sink.reported l.sink) (sink.holds s) (sink.reported s) (.ok landed)) :
    (Loader.recordLanded json append { l with sink := s } landed).1.Kept initial := by
  obtain ⟨hperm, hreported⟩ := h
  constructor
  · rw [heldIds_recordLanded, sink_recordLanded]
    have hdiff := (hheld.trans hperm.symm).diff_right landed
    refine hdiff.trans ?_
    rw [← Multiset.coe_eq_coe, ← Multiset.coe_sub, ← Multiset.coe_add]
    exact add_tsub_cancel_left _ _
  · intro id hid
    rw [sink_recordLanded]
    rcases mem_loaded_recordLanded hid with hid | ⟨hid, -⟩
    · rcases hlanded id hid with hid | hid
      · exact .inl (hreported ▸ List.mem_append_left landed hid)
      · exact .inr hid
    · exact .inl (hreported ▸ List.mem_append_right _ hid)

/-- A call that has lost what the sink held, behind which nothing is pending. -/
theorem Kept.lost {kind : ErrorKind}
    (hlanded : ∀ id ∈ l.ledger.loaded, id ∈ sink.reported l.sink ∨ id ∈ initial)
    (h : Lands held (sink.reported l.sink) (sink.holds s) (sink.reported s) (.error kind)) :
    Kept initial { l with sink := s, pending := [] } := by
  obtain ⟨hheld, hreported⟩ := h
  constructor
  · rw [hheld]
    exact List.Perm.nil
  · intro id hid
    rw [hreported]
    exact hlanded id hid

end Loader

end EdgeMulticast.Load
