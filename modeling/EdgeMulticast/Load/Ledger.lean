import EdgeMulticast.Lib.LineCodec
import EdgeMulticast.Rows.Derive

/-!
# The ledger of a loader

`ledger.rs` (`dz-recorder-load`): the objects whose rows are in the store, one line of a file each,
and for each feed the trailer of the highest segment among them.

How an entry is written as JSON and read again is a parameter.  A blank line reads as no entry and
is not told apart from a line that is damaged.
-/

namespace EdgeMulticast.Load

open EdgeMulticast.Lib
open EdgeMulticast.Rows (SegmentTrailer)

/-- The pair that an object is identified by. -/
structure ObjectId where
  key : String
  sha256 : String
deriving DecidableEq, Repr

/-- One object, loaded. -/
structure Entry where
  objectKey : String
  objectSha256 : String
  loadedAtNs : ℕ
  trailer : SegmentTrailer
  feed : String
deriving DecidableEq, Repr

def Entry.id (e : Entry) : ObjectId := ⟨e.objectKey, e.objectSha256⟩

/-- Where the lines of a ledger are. -/
inductive LedgerFile where
  | inMemory
  | absent
  | text (bytes : List Byte)
deriving DecidableEq, Repr

namespace LedgerFile

def bytes : LedgerFile → List Byte
  | .inMemory | .absent => []
  | .text bytes => bytes

@[simp] theorem bytes_text (bytes : List Byte) : (text bytes).bytes = bytes := rfl

/-- The file with more bytes at its end, made if there is none. -/
def appended (file : LedgerFile) (more : List Byte) : LedgerFile :=
  if more = [] then file else .text (file.bytes ++ more)

theorem bytes_appended (file : LedgerFile) (more : List Byte) :
    (file.appended more).bytes = file.bytes ++ more := by
  rw [appended]
  split
  next h => rw [h, List.append_nil]
  next => rfl

end LedgerFile

/-- What becomes of one append to the file.  One that fails may have left the line's first bytes. -/
inductive Append where
  | written
  | failed (left : ℕ)
deriving DecidableEq, Repr

/-- How far a compaction gets: the file is not read, its successor not put in its place, or done. -/
inductive Compaction where
  | unread | unwritten | done
deriving DecidableEq, Repr

structure Ledger where
  file : LedgerFile
  loaded : List ObjectId := []
  /-- The trailer of the highest segment of each feed. -/
  trailers : String → Option SegmentTrailer := fun _ ↦ none
  entries : ℕ := 0

namespace Ledger

def remember (l : Ledger) (e : Entry) : Ledger where
  file := l.file
  loaded := l.loaded.insert e.id
  trailers :=
    -- the highest segment and not the last one written
    if (l.trailers e.feed).all fun t ↦ t.segmentSeq ≤ e.trailer.segmentSeq then
      Function.update l.trailers e.feed (some e.trailer)
    else l.trailers
  entries := l.entries + 1

def isLoaded (l : Ledger) (id : ObjectId) : Bool := id ∈ l.loaded

def inMemory : Ledger where
  file := .inMemory

variable (json : LineCodec Entry)

/-- What is there, without the lines that are no entries.  A text that is not UTF-8 is an error. -/
def «open» (file : LedgerFile) : Option Ledger :=
  if isUtf8 file.bytes then some (run remember { file } (json.values file.bytes)) else none

/-- Record a load, and whether its entry is written. -/
def record (l : Ledger) (e : Entry) (append : Append) : Ledger × Bool :=
  if l.file = .inMemory then (l.remember e, true)
  else
    match append with
    | .written => (remember { l with file := l.file.appended (json.line e) } e, true)
    | .failed left => ({ l with file := l.file.appended ((json.line e).take left) }, false)

/-- Whether a compaction keeps an entry: the pass did not scan its feed, or saw its object, or the
trailer of its feed is of the same segment. -/
def keeps (l : Ledger) (present : List ObjectId) (inScope : Option (List String)) (e : Entry) :
    Bool :=
  inScope.any (fun feeds ↦ e.feed ∉ feeds) || e.id ∈ present ||
    (l.trailers e.feed).any fun t ↦ t.segmentSeq = e.trailer.segmentSeq

/-- Drop the entries of objects that are gone, and whether that did not fail. -/
def compact (l : Ledger) (present : List ObjectId) (inScope : Option (List String))
    (io : Compaction) : Ledger × Bool :=
  match l.file with
  | .inMemory | .absent => (l, true)
  | .text bytes =>
      let kept := (json.values bytes).filter (l.keeps present inScope)
      if io = .unread ∨ ¬isUtf8 bytes then (l, false)
      else if kept.length = l.entries then (l, true)
      else if io = .unwritten then (l, false)
      else
        ({ l with
            file := .text (json.lines kept)
            loaded := kept.map Entry.id
            entries := kept.length }, true)

end Ledger

/-! ## What the operations do -/

/-- The entries in the file of a ledger. -/
def Ledger.written (json : LineCodec Entry) (l : Ledger) : List Entry := json.values l.file.bytes

/-- The file has whole lines, and an entry of each object that is loaded and of no other. -/
structure Ledger.Backed (json : LineCodec Entry) (l : Ledger) : Prop where
  whole : Whole l.file.bytes
  utf8 : isUtf8 l.file.bytes
  entry : l.file ≠ .inMemory → ∀ id, id ∈ l.loaded ↔ ∃ e ∈ l.written json, e.id = id

/-- An append that fails has left nothing in the file. -/
def Append.Clean : Append → Prop
  | .written => True
  | .failed left => left = 0

namespace Ledger

variable {json : LineCodec Entry} {l : Ledger} {e : Entry} {id : ObjectId}

@[simp] theorem file_remember (l : Ledger) (e : Entry) : (l.remember e).file = l.file := rfl

theorem mem_loaded_remember : id ∈ (l.remember e).loaded ↔ id = e.id ∨ id ∈ l.loaded :=
  List.mem_insert_iff

theorem file_run_remember (l : Ledger) (es : List Entry) : (run remember l es).file = l.file :=
  run_induction (P := fun l' : Ledger ↦ l'.file = l.file) es rfl fun _ _ _ h ↦ h

theorem mem_loaded_run_remember (l : Ledger) (es : List Entry) :
    id ∈ (run remember l es).loaded ↔ id ∈ l.loaded ∨ ∃ e ∈ es, e.id = id := by
  induction es generalizing l with
  | nil => simp
  | cons e es ih =>
      rw [run_cons, ih, mem_loaded_remember, List.exists_mem_cons_iff, or_comm (a := id = e.id),
        or_assoc, eq_comm]

/-! ### Opening -/

theorem open_spec {file : LedgerFile} (h : «open» json file = some l) :
    l.file = file ∧ ∀ id, id ∈ l.loaded ↔ ∃ e ∈ l.written json, e.id = id := by
  rw [«open»] at h
  split at h
  next =>
      cases h
      have hfile := file_run_remember { file } (json.values file.bytes)
      refine ⟨hfile, fun id ↦ ?_⟩
      rw [mem_loaded_run_remember, written, hfile]
      simp
  next => cases h

theorem open_eq_some {file : LedgerFile} (h : isUtf8 file.bytes) : ∃ l, «open» json file = some l :=
  ⟨_, if_pos h⟩

theorem backed_open {file : LedgerFile} (h : «open» json file = some l) (hwhole : Whole file.bytes) :
    l.Backed json := by
  obtain ⟨hfile, hloaded⟩ := open_spec h
  constructor
  · rwa [hfile]
  · rw [hfile]
    by_contra hutf8
    rw [«open», if_neg hutf8] at h
    cases h
  · exact fun _ ↦ hloaded

/-! ### Recording -/

/-- What is in memory is remembered when the entry is written, and left as it is when it is not. -/
theorem record_memory (json : LineCodec Entry) (l : Ledger) (e : Entry) (append : Append) :
    ∃ file, (l.record json e append).1 =
      if (l.record json e append).2 then remember { l with file } e else { l with file } := by
  rw [record.eq_def]
  split
  next => exact ⟨l.file, rfl⟩
  next =>
      cases append with
      | written => exact ⟨l.file.appended (json.line e), rfl⟩
      | failed left => exact ⟨l.file.appended ((json.line e).take left), rfl⟩

theorem mem_loaded_record {append : Append} :
    id ∈ (l.record json e append).1.loaded ↔
      id ∈ l.loaded ∨ (l.record json e append).2 = true ∧ id = e.id := by
  obtain ⟨file, h⟩ := l.record_memory json e append
  rw [h]
  split
  next hok => rw [mem_loaded_remember, or_comm, hok, eq_self, true_and]
  next hok => rw [eq_false hok, false_and, or_false]

/-- An append is to the file of a ledger, unless it keeps none. -/
theorem file_record_inMemory (json : LineCodec Entry) (l : Ledger) (e : Entry) (append : Append) :
    (l.record json e append).1.file = .inMemory ↔ l.file = .inMemory := by
  have hother (more : List Byte) (hfile : l.file ≠ .inMemory) : l.file.appended more ≠ .inMemory := by
    rw [LedgerFile.appended]
    split
    · exact hfile
    · exact LedgerFile.noConfusion
  rw [record.eq_def]
  split
  next hfile => rw [file_remember]
  next hfile =>
      cases append with
      | written => exact iff_of_false (hother _ hfile) hfile
      | failed left => exact iff_of_false (hother _ hfile) hfile

theorem written_of_inMemory (hfile : l.file = .inMemory) : l.written json = [] := by
  rw [written, hfile]
  rfl

theorem written_lines (es : List Entry) (loaded : List ObjectId)
    (trailers : String → Option SegmentTrailer) (entries : ℕ) :
    written json ⟨.text (json.lines es), loaded, trailers, entries⟩ = es := json.values_lines es

/-- The file behind an append is longer by the entry's line, or as it was. -/
theorem bytes_record {append : Append} (h : append.Clean) (hfile : l.file ≠ .inMemory) :
    (l.record json e append).1.file.bytes =
      l.file.bytes ++ if (l.record json e append).2 then json.line e else [] := by
  rw [record.eq_def, if_neg hfile]
  cases append with
  | written => rw [file_remember, LedgerFile.bytes_appended, if_pos rfl]
  | failed left =>
      dsimp only
      rw [LedgerFile.bytes_appended, h, List.take_zero, if_neg Bool.false_ne_true]

theorem written_record {append : Append} (hbacked : l.Backed json) (h : append.Clean)
    (hfile : l.file ≠ .inMemory) :
    (l.record json e append).1.written json =
      l.written json ++ if (l.record json e append).2 then [e] else [] := by
  rw [written, bytes_record h hfile, json.values_append hbacked.whole, written]
  split
  · rw [LineCodec.values_line]
  · rfl

theorem mem_written_record {append : Append} (hbacked : l.Backed json) (h : append.Clean) {e' : Entry}
    (he' : e' ∈ (l.record json e append).1.written json) :
    e' ∈ l.written json ∨ (l.record json e append).2 = true ∧ e' = e := by
  by_cases hfile : l.file = .inMemory
  · rw [written_of_inMemory ((file_record_inMemory json l e append).mpr hfile)] at he'
    cases he'
  · rw [written_record hbacked h hfile] at he'
    rcases List.mem_append.mp he' with he' | he'
    · exact .inl he'
    · split at he'
      next hok => exact .inr ⟨hok, List.mem_singleton.mp he'⟩
      next => cases he'

theorem Backed.record {append : Append} (hbacked : l.Backed json) (h : append.Clean) :
    (l.record json e append).1.Backed json := by
  by_cases hfile : l.file = .inMemory
  · have hfile' := (file_record_inMemory json l e append).mpr hfile
    constructor
    · rw [hfile']
      exact whole_nil
    · rw [hfile']
      rfl
    · exact fun hne ↦ absurd hfile' hne
  · constructor
    · rw [bytes_record h hfile]
      split
      · exact (json.whole_line e).append hbacked.whole
      · rw [List.append_nil]
        exact hbacked.whole
    · rw [bytes_record h hfile]
      split
      · exact isUtf8_append hbacked.utf8 (json.isUtf8_line e)
      · rw [List.append_nil]
        exact hbacked.utf8
    · intro _ id
      rw [mem_loaded_record, written_record hbacked h hfile, hbacked.entry hfile]
      split
      next hok => simp [hok, or_and_right, exists_or, eq_comm]
      next hok => simp [hok]

/-! ### Compaction -/

/-- What a compaction comes to: nothing, or the file and the memory of the kept entries. -/
theorem compact_cases (json : LineCodec Entry) (l : Ledger) (present : List ObjectId) (inScope : Option (List String))
    (io : Compaction) :
    (l.compact json present inScope io).1 = l ∨
      l.file ≠ .inMemory ∧ (l.compact json present inScope io).1 =
        { l with
          file := .text (json.lines ((l.written json).filter (l.keeps present inScope)))
          loaded := ((l.written json).filter (l.keeps present inScope)).map Entry.id
          entries := ((l.written json).filter (l.keeps present inScope)).length } := by
  rw [compact]
  split
  next => exact .inl rfl
  next => exact .inl rfl
  next bytes hfile =>
      have hne : l.file ≠ .inMemory := by
        rw [hfile]
        exact LedgerFile.noConfusion
      dsimp only
      split
      next => exact .inl rfl
      next =>
          split
          next => exact .inl rfl
          next =>
              split
              next => exact .inl rfl
              next =>
                  rw [written, hfile]
                  exact .inr ⟨hfile ▸ hne, rfl⟩

variable {present : List ObjectId} {inScope : Option (List String)} {io : Compaction}

theorem Backed.compact (hbacked : l.Backed json) :
    (l.compact json present inScope io).1.Backed json := by
  rcases l.compact_cases json present inScope io with h | ⟨hfile, h⟩
  · rwa [h]
  · rw [h]
    constructor
    · exact json.whole_lines _
    · exact json.isUtf8_lines _
    · intro _ id
      rw [written_lines]
      exact List.mem_map

theorem mem_loaded_of_compact (hbacked : l.Backed json)
    (h : id ∈ (l.compact json present inScope io).1.loaded) : id ∈ l.loaded := by
  rcases l.compact_cases json present inScope io with heq | ⟨hfile, heq⟩
  · rwa [heq] at h
  · rw [heq] at h
    obtain ⟨e, he, hid⟩ := List.mem_map.mp h
    exact (hbacked.entry hfile id).mpr ⟨e, List.mem_of_mem_filter he, hid⟩

theorem written_subset_compact (he : e ∈ (l.compact json present inScope io).1.written json) :
    e ∈ l.written json := by
  rcases l.compact_cases json present inScope io with heq | ⟨hfile, heq⟩
  · rwa [heq] at he
  · rw [heq, written_lines] at he
    exact List.mem_of_mem_filter he

/-- The entries that a compaction keeps are written after it. -/
theorem written_compact (he : e ∈ l.written json) (hkeeps : l.keeps present inScope e) :
    e ∈ (l.compact json present inScope io).1.written json := by
  rcases l.compact_cases json present inScope io with heq | ⟨hfile, heq⟩
  · rwa [heq]
  · rw [heq, written_lines]
    exact List.mem_filter.mpr ⟨he, hkeeps⟩

end Ledger

end EdgeMulticast.Load
