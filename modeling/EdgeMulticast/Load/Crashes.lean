import EdgeMulticast.Load.Json

/-!
# A ledger across failures and crashes

What a ledger that is opened again answers, after any calls on the one before it.  A call may fail
at any byte of its write; a crash keeps the bytes that were synced and any number of those that were
not; a rename is done or it is not.  A crash within an append is an append that failed with what it
left, and then a crash.

An append that does not begin a line of its own is swallowed with the line that it ends up on.  So a
ledger answers as it should as long as no entry is recorded behind a line that is torn, and as what is
left of a line is text and, where it is a whole entry, would not replace the trailer of its feed.
-/

namespace EdgeMulticast.Load

open EdgeMulticast.Lib
open EdgeMulticast.Rows (SegmentTrailer)

/-! ## Calls -/

inductive Call where
  | record (e : Entry) (append : Append)
  | compact (present : List ObjectId) (inScope : Option (List String)) (io : Compaction)
  /-- The process ends, and a ledger is opened on its file. -/
  | reopen
  /-- The machine fails with so many bytes of the file left, or as many as were synced if those are
  more, and a ledger is opened on what is left. -/
  | crash (left : ℕ)

/-- A ledger, and how many bytes of its file are synced. -/
structure Disk where
  ledger : Ledger
  synced : ℕ := 0

/-- What the calls so far were answered. -/
structure Account where
  /-- What was recorded, and dropped by no compaction. -/
  due : List Entry := []
  /-- What was not recorded, and left its whole text in the file. -/
  stray : List Entry := []
  /-- The trailers that the ledger had in memory when it was last there. -/
  known : String → Option SegmentTrailer := fun _ ↦ none

namespace Disk

variable (json : LineCodec Entry)

def start : Disk := ⟨{ file := .absent }, 0⟩

/-- A file with no more than its first bytes. -/
def cut : LedgerFile → ℕ → LedgerFile
  | .text bytes, left => .text (bytes.take left)
  | file, _ => file

/-- The state behind a call, unless no ledger could be opened.  A file that was put in the place of
another is synced; it is of another number of entries. -/
def step (d : Disk) : Call → Option Disk
  | .record e append =>
      let recorded := d.ledger.record json e append
      some ⟨recorded.1, if recorded.2 then recorded.1.file.bytes.length else d.synced⟩
  | .compact present inScope io =>
      let compacted := d.ledger.compact json present inScope io
      some ⟨compacted.1, if compacted.1.entries = d.ledger.entries then d.synced
        else compacted.1.file.bytes.length⟩
  | .reopen => (Ledger.open json d.ledger.file).map fun l ↦ ⟨l, d.synced⟩
  | .crash left =>
      let file := cut d.ledger.file (max d.synced left)
      (Ledger.open json file).map fun l ↦ ⟨l, file.bytes.length⟩

/-- The account behind a call. -/
def note (d : Disk) (a : Account) : Call → Account
  | .record e append =>
      let recorded := d.ledger.record json e append
      if recorded.2 then { a with due := a.due ++ [e], known := recorded.1.trailers }
      else match append with
        | .failed left =>
            if (json.write e).length ≤ left then { a with stray := a.stray ++ [e] } else a
        | .written => a
  | .compact present inScope io =>
      if (d.ledger.compact json present inScope io).1.entries = d.ledger.entries then a
      else { a with due := a.due.filter (d.ledger.keeps present inScope) }
  | .reopen | .crash _ => a

/-- The state and the account behind some calls. -/
def runs : Disk × Account → List Call → Option (Disk × Account)
  | s, [] => some s
  | s, c :: calls => (s.1.step json c).bind fun d ↦ runs (d, s.1.note json s.2 c) calls

/-- What a ledger that is opened answers: everything that is due is loaded, nothing else is but what
is stray, and the trailers are the ones that were in memory. -/
def Answers (d : Disk) (a : Account) : Prop :=
  ∃ l, Ledger.open json d.ledger.file = some l ∧
    (∀ e ∈ a.due, l.isLoaded e.id) ∧
    (∀ id, l.isLoaded id → ∃ e ∈ a.due ++ a.stray, e.id = id) ∧
    ∀ feed, l.trailers feed = a.known feed

/-- What is asked of a call in a state. -/
def Careful (d : Disk) : Call → Prop
  | .record _ .written => Whole d.ledger.file.bytes
  | .record e (.failed left) =>
      0 < left → Whole d.ledger.file.bytes ∧ isUtf8 ((json.line e).take left) ∧
        ((json.write e).length ≤ left → (d.ledger.remember e).trailers = d.ledger.trailers)
  | .compact .. | .reopen => True
  | .crash left => isUtf8 (cut d.ledger.file (max d.synced left)).bytes

/-- What is asked of every call of a run. -/
def CarefulRun : Disk → List Call → Prop
  | _, [] => True
  | d, c :: calls => d.Careful json c ∧ ∀ d', d.step json c = some d' → CarefulRun d' calls

end Disk

/-! ## Trailers -/

section Trailers

variable {known : String → Option SegmentTrailer} {es pre post : List Entry} {e : Entry}
  {feed : String} {t : SegmentTrailer}

/-- The trailers with an entry remembered. -/
def noted (known : String → Option SegmentTrailer) (e : Entry) : String → Option SegmentTrailer :=
  if (known e.feed).all fun t ↦ t.segmentSeq ≤ e.trailer.segmentSeq then
    Function.update known e.feed (some e.trailer)
  else known

theorem trailers_run_remember (l : Ledger) (es : List Entry) :
    (run Ledger.remember l es).trailers = run noted l.trailers es := by
  induction es generalizing l with
  | nil => rfl
  | cons e es ih => exact ih (l.remember e)

/-- The trailers of what a text holds. -/
def trailersOf (es : List Entry) : String → Option SegmentTrailer := run noted (fun _ ↦ none) es

theorem trailersOf_append (es es' : List Entry) :
    trailersOf (es ++ es') = run noted (trailersOf es) es' := run_append ..

theorem noted_cases (known : String → Option SegmentTrailer) (e : Entry) :
    noted known e = Function.update known e.feed (some e.trailer) ∧
        (∀ t ∈ known e.feed, t.segmentSeq ≤ e.trailer.segmentSeq) ∨
      noted known e = known ∧
        ∃ t, known e.feed = some t ∧ e.trailer.segmentSeq < t.segmentSeq := by
  rw [noted]
  cases hknown : known e.feed with
  | none => exact .inl ⟨rfl, by simp⟩
  | some t =>
      rw [Option.all_some]
      by_cases hle : t.segmentSeq ≤ e.trailer.segmentSeq
      · rw [if_pos (decide_eq_true hle)]
        exact .inl ⟨rfl, by rintro t' ⟨⟩; exact hle⟩
      · rw [if_neg (by rwa [decide_eq_true_eq])]
        exact .inr ⟨rfl, t, rfl, Nat.lt_of_not_le hle⟩

/-- No entry is of a higher segment than the trailer of its feed. -/
theorem le_trailersOf (he : e ∈ es) : ∃ t, trailersOf es e.feed = some t ∧
    e.trailer.segmentSeq ≤ t.segmentSeq := by
  induction es using List.reverseRecOn with
  | nil => cases he
  | append_singleton es last ih =>
      rw [trailersOf_append, run_cons, run_nil]
      rcases noted_cases (trailersOf es) last with ⟨heq, hle⟩ | ⟨heq, t, ht, hlt⟩
      · rw [heq]
        by_cases hfeed : e.feed = last.feed
        · rw [hfeed, Function.update_self]
          refine ⟨last.trailer, rfl, ?_⟩
          rcases List.mem_append.mp he with he | he
          · obtain ⟨t, ht, hbelow⟩ := ih he
            exact hbelow.trans (hle t (hfeed ▸ ht))
          · rw [List.mem_singleton.mp he]
        · rw [Function.update_of_ne hfeed]
          rcases List.mem_append.mp he with he | he
          · exact ih he
          · exact absurd (congrArg Entry.feed (List.mem_singleton.mp he)) hfeed
      · rw [heq]
        rcases List.mem_append.mp he with he | he
        · exact ih he
        · obtain rfl := List.mem_singleton.mp he
          exact ⟨t, ht, Nat.le_of_lt hlt⟩

/-- An entry whose trailer leads its feed: none before it is of a higher segment, and all behind it
are of lower ones. -/
structure Leads (pre : List Entry) (e : Entry) (post : List Entry) : Prop where
  before : ∀ x ∈ pre, x.feed = e.feed → x.trailer.segmentSeq ≤ e.trailer.segmentSeq
  behind : ∀ x ∈ post, x.feed = e.feed → x.trailer.segmentSeq < e.trailer.segmentSeq

theorem exists_leads (h : trailersOf es feed = some t) :
    ∃ pre e post, es = pre ++ e :: post ∧ e.feed = feed ∧ e.trailer = t ∧ Leads pre e post := by
  induction es using List.reverseRecOn with
  | nil => cases h
  | append_singleton es last ih =>
      rw [trailersOf_append, run_cons, run_nil] at h
      have hlater (h : trailersOf es feed = some t)
          (hlast : last.feed = feed → last.trailer.segmentSeq < t.segmentSeq) :
          ∃ pre e post, es ++ [last] = pre ++ e :: post ∧ e.feed = feed ∧ e.trailer = t ∧
            Leads pre e post := by
        obtain ⟨pre, e, post, rfl, rfl, rfl, hbefore, hbehind⟩ := ih h
        refine ⟨pre, e, post ++ [last], by simp, rfl, rfl, hbefore, fun x hx ↦ ?_⟩
        rcases List.mem_append.mp hx with hx | hx
        · exact hbehind x hx
        · rw [List.mem_singleton.mp hx]
          exact hlast
      rcases noted_cases (trailersOf es) last with ⟨heq, hle⟩ | ⟨heq, t', ht', hlt⟩
      · rw [heq] at h
        by_cases hfeed : feed = last.feed
        · subst hfeed
          rw [Function.update_self] at h
          refine ⟨es, last, [], rfl, rfl, Option.some.inj h, fun x hx hsame ↦ ?_, by simp⟩
          obtain ⟨t', ht', hbelow⟩ := le_trailersOf hx
          exact hbelow.trans (hle t' (hsame ▸ ht'))
        · rw [Function.update_of_ne hfeed] at h
          exact hlater h fun hsame ↦ absurd hsame.symm hfeed
      · rw [heq] at h
        refine hlater h fun hsame ↦ ?_
        rw [hsame, h] at ht'
        exact Option.some.inj ht' ▸ hlt

theorem trailersOf_of_leads (h : Leads pre e post) :
    trailersOf (pre ++ e :: post) e.feed = some e.trailer := by
  rw [trailersOf_append, run_cons]
  have hfirst : noted (trailersOf pre) e e.feed = some e.trailer := by
    rcases noted_cases (trailersOf pre) e with ⟨heq, -⟩ | ⟨-, t, ht, hlt⟩
    · rw [heq, Function.update_self]
    · obtain ⟨_, x, _, rfl, hfeed, rfl, -⟩ := exists_leads ht
      exact absurd (h.before x (by simp) hfeed) (Nat.not_le_of_gt hlt)
  generalize noted (trailersOf pre) e = known at hfirst
  obtain ⟨-, hbehind⟩ := h
  induction post generalizing known with
  | nil => exact hfirst
  | cons x post ih =>
      refine ih (noted known x) ?_ fun y hy ↦ hbehind y (List.mem_cons_of_mem x hy)
      rcases noted_cases known x with ⟨heq, hle⟩ | ⟨heq, -⟩
      · rw [heq, Function.update_of_ne, hfirst]
        intro hfeed
        rw [← hfeed] at hle
        exact absurd (hle _ hfirst) (Nat.not_le_of_gt (hbehind x List.mem_cons_self hfeed.symm))
      · rw [heq, hfirst]

/-- Entries may be dropped as long as those of the segments of the trailers stay. -/
theorem trailersOf_filter {p : Entry → Bool} (h : ∀ e ∈ es, ∀ t ∈ trailersOf es e.feed,
    t.segmentSeq = e.trailer.segmentSeq → p e) : trailersOf (es.filter p) = trailersOf es := by
  funext feed
  cases htrailer : trailersOf es feed with
  | none =>
      refine Option.eq_none_iff_forall_ne_some.mpr fun t ht ↦ ?_
      obtain ⟨_, e, _, hfilter, rfl, -⟩ := exists_leads ht
      have he : e ∈ es := by
        refine List.mem_of_mem_filter (p := p) ?_
        rw [hfilter]
        simp
      obtain ⟨t', ht', -⟩ := le_trailersOf he
      cases htrailer.symm.trans ht'
  | some t =>
      obtain ⟨pre, e, post, rfl, rfl, rfl, hleads⟩ := exists_leads htrailer
      have hkept : p e := h e (by simp) e.trailer htrailer rfl
      rw [List.filter_append, List.filter_cons_of_pos hkept]
      exact trailersOf_of_leads ⟨fun x hx ↦ hleads.before x (List.mem_of_mem_filter hx),
        fun x hx ↦ hleads.behind x (List.mem_of_mem_filter hx)⟩

end Trailers

/-! ## What is in the file -/

section Account

variable {json : LineCodec Entry} {d d' : Disk} {a : Account} {c : Call} {calls post : List Call}
  {file : LedgerFile} {text : List Byte} {e : Entry}

/-- A text that answers for the calls so far. -/
structure Reads (json : LineCodec Entry) (a : Account) (text : List Byte) : Prop where
  due : ∀ e ∈ a.due, e ∈ json.values text
  only : ∀ e ∈ json.values text, e ∈ a.due ∨ e ∈ a.stray
  trailers : trailersOf (json.values text) = a.known

/-- Whatever a crash leaves of the file answers for the calls so far. -/
structure Sound (json : LineCodec Entry) (d : Disk) (a : Account) : Prop where
  onDisk : d.ledger.file ≠ .inMemory
  utf8 : isUtf8 d.ledger.file.bytes
  synced : d.synced ≤ d.ledger.file.bytes.length
  known : d.ledger.trailers = a.known
  reads : ∀ n, d.synced ≤ n → Reads json a (d.ledger.file.bytes.take n)

theorem Sound.whole (h : Sound json d a) : Reads json a d.ledger.file.bytes := by
  have hreads := h.reads _ h.synced
  rwa [List.take_length] at hreads

theorem sound_start : Sound json Disk.start {} where
  onDisk := LedgerFile.noConfusion
  utf8 := rfl
  synced := Nat.le_refl 0
  known := rfl
  reads n _ := by
    rw [show Disk.start.ledger.file.bytes = [] from rfl, List.take_nil]
    exact ⟨by simp, by simp, rfl⟩

/-- A file that is synced needs to answer as a whole. -/
theorem sound_of_synced {l : Ledger} (onDisk : l.file ≠ .inMemory) (utf8 : isUtf8 l.file.bytes)
    (known : l.trailers = a.known) (reads : Reads json a l.file.bytes) :
    Sound json ⟨l, l.file.bytes.length⟩ a where
  onDisk := onDisk
  utf8 := utf8
  synced := Nat.le_refl _
  known := known
  reads n hn := by rwa [List.take_of_length_le hn]

/-! ### Opening -/

theorem trailers_open {l : Ledger} (h : Ledger.open json file = some l) :
    l.trailers = trailersOf (json.values file.bytes) := by
  rw [Ledger.open] at h
  split at h
  next =>
      cases h
      exact trailers_run_remember _ _
  next => cases h

theorem Reads.answers (h : Reads json a d.ledger.file.bytes) (hutf8 : isUtf8 d.ledger.file.bytes) :
    d.Answers json a := by
  obtain ⟨l, hopen⟩ : ∃ l, Ledger.open json d.ledger.file = some l := Ledger.open_eq_some hutf8
  obtain ⟨hfile, hloaded⟩ := Ledger.open_spec hopen
  have hwritten : l.written json = json.values d.ledger.file.bytes := by
    rw [Ledger.written, hfile]
  rw [hwritten] at hloaded
  refine ⟨l, hopen, fun e he ↦ ?_, fun id hid ↦ ?_, fun feed ↦ ?_⟩
  · exact decide_eq_true ((hloaded e.id).mpr ⟨e, h.due e he, rfl⟩)
  · obtain ⟨e, he, rfl⟩ := (hloaded id).mp (of_decide_eq_true hid)
    exact ⟨e, List.mem_append.mpr (h.only e he), rfl⟩
  · rw [trailers_open hopen, h.trailers]

/-- A ledger that is opened is in the place of the one before it. -/
theorem Sound.opened {n : ℕ} (honDisk : file ≠ .inMemory) (hutf8 : isUtf8 file.bytes)
    (hn : n ≤ file.bytes.length) (hreads : ∀ m, n ≤ m → Reads json a (file.bytes.take m)) :
    ∃ l, Ledger.open json file = some l ∧ Sound json ⟨l, n⟩ a := by
  obtain ⟨l, hopen⟩ : ∃ l, Ledger.open json file = some l := Ledger.open_eq_some hutf8
  obtain ⟨rfl, -⟩ := Ledger.open_spec hopen
  have hwhole := hreads _ hn
  rw [List.take_length] at hwhole
  exact ⟨l, hopen, honDisk, hutf8, hn, (trailers_open hopen).trans hwhole.trailers, hreads⟩

theorem Sound.reopen (h : Sound json d a) :
    ∃ d', d.step json .reopen = some d' ∧ Sound json d' (d.note json a .reopen) := by
  obtain ⟨l, hopen, hsound⟩ := Sound.opened h.onDisk h.utf8 h.synced h.reads
  exact ⟨⟨l, d.synced⟩, by rw [Disk.step, hopen, Option.map_some], hsound⟩

theorem bytes_cut (file : LedgerFile) (n : ℕ) : (Disk.cut file n).bytes = file.bytes.take n := by
  cases file with
  | text bytes => rfl
  | absent => exact List.take_nil.symm
  | inMemory => exact List.take_nil.symm

theorem Sound.crash (h : Sound json d a) {left : ℕ} (hcare : d.Careful json (.crash left)) :
    ∃ d', d.step json (.crash left) = some d' ∧ Sound json d' (d.note json a (.crash left)) := by
  have honDisk : Disk.cut d.ledger.file (max d.synced left) ≠ .inMemory := by
    intro hcut
    cases hfile : d.ledger.file with
    | inMemory => exact h.onDisk hfile
    | absent => rw [hfile] at hcut; cases hcut
    | text bytes => rw [hfile] at hcut; cases hcut
  obtain ⟨l, hopen, hsound⟩ := Sound.opened honDisk hcare (Nat.le_refl _) fun m hm ↦ by
    rw [List.take_of_length_le hm, bytes_cut]
    exact h.reads _ (Nat.le_max_left ..)
  exact ⟨⟨l, _⟩, by rw [Disk.step, hopen, Option.map_some], hsound⟩

/-! ### Recording -/

theorem appended_ne_inMemory (h : file ≠ .inMemory) : file.appended text ≠ .inMemory := by
  rw [LedgerFile.appended]
  split
  · exact h
  · exact LedgerFile.noConfusion

theorem Sound.record_written (h : Sound json d a)
    (hwhole : Whole d.ledger.file.bytes) :
    ∃ d', d.step json (.record e .written) = some d' ∧
      Sound json d' (d.note json a (.record e .written)) := by
  have hrecord : d.ledger.record json e .written =
      (Ledger.remember { d.ledger with file := d.ledger.file.appended (json.line e) } e, true) :=
    if_neg h.onDisk
  refine ⟨_, rfl, ?_⟩
  dsimp only [Disk.note]
  rw [hrecord, if_pos rfl, if_pos rfl]
  obtain ⟨hdue, honly, htrailers⟩ := h.whole
  refine sound_of_synced (appended_ne_inMemory h.onDisk) ?_ rfl ?_
  · rw [Ledger.file_remember, LedgerFile.bytes_appended]
    exact isUtf8_append h.utf8 (json.isUtf8_line e)
  · rw [Ledger.file_remember, LedgerFile.bytes_appended]
    have hvalues := json.values_append hwhole (json.line e)
    rw [json.values_line] at hvalues
    constructor
    · rw [hvalues]
      intro x hx
      rcases List.mem_append.mp hx with hx | hx
      · exact List.mem_append_left _ (hdue x hx)
      · exact List.mem_append_right _ hx
    · rw [hvalues]
      intro x hx
      rcases List.mem_append.mp hx with hx | hx
      · exact (honly x hx).imp_left (List.mem_append_left _)
      · exact .inl (List.mem_append_right _ hx)
    · rw [hvalues, trailersOf_append, run_cons, run_nil, htrailers, ← h.known]
      rfl

/-- What an append leaves that fails answers for the calls before it, and for an entry whose text is
whole. -/
theorem Reads.torn (h : Reads json a text) (hclosed : json.Closed) (hwhole : Whole text) {k : ℕ}
    (hk : (json.write e).length ≤ k → e ∈ a.stray ∧ noted a.known e = a.known) :
    Reads json a (text ++ (json.line e).take k) := by
  have hvalues := json.values_append hwhole ((json.line e).take k)
  rw [LineCodec.values_take_line hclosed] at hvalues
  split at hvalues
  next =>
      rw [List.append_nil] at hvalues
      exact ⟨by rw [hvalues]; exact h.due, by rw [hvalues]; exact h.only,
        by rw [hvalues]; exact h.trailers⟩
  next hlong =>
      obtain ⟨hstray, hnoted⟩ := hk (Nat.le_of_not_lt hlong)
      constructor
      · rw [hvalues]
        exact fun x hx ↦ List.mem_append_left _ (h.due x hx)
      · rw [hvalues]
        intro x hx
        rcases List.mem_append.mp hx with hx | hx
        · exact h.only x hx
        · rw [List.mem_singleton.mp hx]
          exact .inr hstray
      · rw [hvalues, trailersOf_append, run_cons, run_nil, h.trailers, hnoted]

theorem Reads.stray (h : Reads json a text) (e : Entry) :
    Reads json { a with stray := a.stray ++ [e] } text :=
  ⟨h.due, fun x hx ↦ (h.only x hx).imp_right (List.mem_append_left _), h.trailers⟩

/-- What a failed append leaves is in the file, and none of it is synced. -/
theorem Sound.appended (h : Sound json d a) (hutf8 : isUtf8 text)
    (hreads : ∀ k, Reads json a (d.ledger.file.bytes ++ text.take k)) :
    Sound json ⟨{ d.ledger with file := d.ledger.file.appended text }, d.synced⟩ a := by
  constructor
  · exact appended_ne_inMemory h.onDisk
  · rw [LedgerFile.bytes_appended]
    exact isUtf8_append h.utf8 hutf8
  · rw [LedgerFile.bytes_appended, List.length_append]
    exact h.synced.trans (Nat.le_add_right ..)
  · exact h.known
  · intro n hn
    rw [LedgerFile.bytes_appended, List.take_append]
    rcases Nat.le_total n d.ledger.file.bytes.length with hle | hle
    · rw [Nat.sub_eq_zero_of_le hle, List.take_zero, List.append_nil]
      exact h.reads n hn
    · rw [List.take_of_length_le hle]
      exact hreads _

theorem Sound.stray (h : Sound json d a) (e : Entry) :
    Sound json d { a with stray := a.stray ++ [e] } :=
  { h with reads := fun n hn ↦ (h.reads n hn).stray e }

theorem Sound.record_failed (h : Sound json d a) (hclosed : json.Closed) {left : ℕ}
    (hcare : d.Careful json (.record e (.failed left))) :
    ∃ d', d.step json (.record e (.failed left)) = some d' ∧
      Sound json d' (d.note json a (.record e (.failed left))) := by
  have hrecord : d.ledger.record json e (.failed left) =
      ({ d.ledger with file := d.ledger.file.appended ((json.line e).take left) }, false) :=
    if_neg h.onDisk
  refine ⟨_, rfl, ?_⟩
  dsimp only [Disk.note]
  rw [hrecord, if_neg Bool.false_ne_true, if_neg Bool.false_ne_true]
  rcases Nat.eq_zero_or_pos left with rfl | hleft
  · rw [if_neg (Nat.not_le_of_gt (List.length_pos_of_ne_nil (LineCodec.write_ne_nil hclosed e)))]
    exact h.appended rfl fun k ↦ by
      rw [List.take_zero, List.take_nil, List.append_nil]
      exact h.whole
  · obtain ⟨hwhole, hutf8, htrailers⟩ := hcare hleft
    have hnoted (hle : (json.write e).length ≤ left) : noted a.known e = a.known := by
      rw [← h.known]
      exact htrailers hle
    split
    next hle =>
        refine (h.stray e).appended hutf8 fun k ↦ ?_
        rw [List.take_take]
        exact (h.whole.stray e).torn hclosed hwhole fun _ ↦
          ⟨List.mem_append_right _ List.mem_cons_self, hnoted hle⟩
    next hshort =>
        refine h.appended hutf8 fun k ↦ ?_
        rw [List.take_take]
        exact h.whole.torn hclosed hwhole fun hle ↦
          absurd (hle.trans (Nat.min_le_right ..)) hshort

/-! ### Compaction -/

/-- A compaction that writes the file anew changes how many entries are counted. -/
theorem compact_of_entries {l : Ledger} {present : List ObjectId} {inScope : Option (List String)}
    {io : Compaction} : (l.compact json present inScope io).1.entries = l.entries →
      (l.compact json present inScope io).1 = l := by
  rw [Ledger.compact]
  split
  next => exact fun _ ↦ rfl
  next => exact fun _ ↦ rfl
  next =>
      dsimp only
      split
      next => exact fun _ ↦ rfl
      next =>
          split
          next => exact fun _ ↦ rfl
          next hcount =>
              split
              next => exact fun _ ↦ rfl
              next => exact fun hsame ↦ absurd hsame hcount

/-- The entries of the trailers are kept, and so the trailers are as they were. -/
theorem trailersOf_keeps {l : Ledger} (h : trailersOf (l.written json) = l.trailers)
    (present : List ObjectId) (inScope : Option (List String)) :
    trailersOf ((l.written json).filter (l.keeps present inScope)) = l.trailers := by
  rw [trailersOf_filter, h]
  intro e _ t ht hseq
  rw [h] at ht
  rw [Ledger.keeps, ht, Option.any_some, decide_eq_true hseq, Bool.or_true]

theorem Sound.compact (h : Sound json d a) (present : List ObjectId)
    (inScope : Option (List String)) (io : Compaction) :
    ∃ d', d.step json (.compact present inScope io) = some d' ∧
      Sound json d' (d.note json a (.compact present inScope io)) := by
  refine ⟨_, rfl, ?_⟩
  dsimp only [Disk.note]
  by_cases hsame : (d.ledger.compact json present inScope io).1.entries = d.ledger.entries
  · rw [if_pos hsame, if_pos hsame, compact_of_entries hsame]
    exact h
  · rw [if_neg hsame, if_neg hsame]
    rcases d.ledger.compact_cases json present inScope io with heq | ⟨hfile, heq⟩
    · exact absurd (congrArg Ledger.entries heq) hsame
    · rw [heq]
      obtain ⟨hdue, honly, htrailers⟩ := h.whole
      have hkept := trailersOf_keeps (htrailers.trans h.known.symm) present inScope
      refine sound_of_synced LedgerFile.noConfusion (json.isUtf8_lines _) h.known ?_
      rw [LedgerFile.bytes_text]
      constructor
      · rw [json.values_lines]
        intro e he
        obtain ⟨he, hkeeps⟩ := List.mem_filter.mp he
        exact List.mem_filter.mpr ⟨hdue e he, hkeeps⟩
      · rw [json.values_lines]
        intro e he
        obtain ⟨he, hkeeps⟩ := List.mem_filter.mp he
        exact (honly e he).imp_left fun he ↦ List.mem_filter.mpr ⟨he, hkeeps⟩
      · rw [json.values_lines, hkept, h.known]

/-! ### Runs -/

theorem Sound.step (h : Sound json d a) (hclosed : json.Closed) (hcare : d.Careful json c) :
    ∃ d', d.step json c = some d' ∧ Sound json d' (d.note json a c) := by
  cases c with
  | record e append =>
      cases append with
      | written => exact h.record_written hcare
      | failed left => exact h.record_failed hclosed hcare
  | compact present inScope io => exact h.compact present inScope io
  | reopen => exact h.reopen
  | crash left => exact h.crash hcare

theorem Sound.runs (h : Sound json d a) (hclosed : json.Closed) (hcare : d.CarefulRun json calls) :
    ∃ d' a', Disk.runs json (d, a) calls = some (d', a') ∧ Sound json d' a' := by
  induction calls generalizing d a with
  | nil => exact ⟨d, a, rfl, h⟩
  | cons c calls ih =>
      obtain ⟨hfirst, hrest⟩ := hcare
      obtain ⟨d', hstep, hsound⟩ := h.step hclosed hfirst
      obtain ⟨d'', a', hruns, hsound⟩ := ih hsound (hrest d' hstep)
      refine ⟨d'', a', ?_, hsound⟩
      rw [Disk.runs, hstep, Option.bind_some]
      exact hruns

theorem carefulRun_of_append (h : d.CarefulRun json (calls ++ post)) : d.CarefulRun json calls := by
  induction calls generalizing d with
  | nil => exact trivial
  | cons c calls ih => exact ⟨h.1, fun d' hstep ↦ ih (h.2 d' hstep)⟩

end Account

/-- In a run that is careful every ledger can be opened, answers for the calls so far, and loses no
entry of an object that is there, of a feed that was not scanned, or of a trailer to a compaction. -/
theorem ledger_accounted (json : LineCodec Entry) (hclosed : json.Closed) (calls : List Call)
    (hcare : Disk.start.CarefulRun json calls) (pre : List Call) (hpre : pre <+: calls) :
    ∃ d a, Disk.runs json (.start, {}) pre = some (d, a) ∧ d.Answers json a ∧
      ∀ present inScope io, ∀ e ∈ d.ledger.written json,
        (e.id ∈ present ∨ (∃ feeds ∈ inScope, e.feed ∉ feeds) ∨
          (∃ t ∈ d.ledger.trailers e.feed, t.segmentSeq = e.trailer.segmentSeq)) →
        e ∈ (d.ledger.compact json present inScope io).1.written json := by
  obtain ⟨post, rfl⟩ := hpre
  obtain ⟨d, a, hruns, hsound⟩ := sound_start.runs hclosed (carefulRun_of_append hcare)
  refine ⟨d, a, hruns, hsound.whole.answers hsound.utf8, fun present inScope io e he hkept ↦ ?_⟩
  refine Ledger.written_compact he ?_
  rw [Ledger.keeps, Bool.or_eq_true, Bool.or_eq_true, Option.any_eq_true, Option.any_eq_true]
  rcases hkept with hpresent | ⟨feeds, hfeeds, hfeed⟩ | ⟨t, ht, hseq⟩
  · exact .inl (.inr (decide_eq_true hpresent))
  · exact .inl (.inl ⟨feeds, hfeeds, decide_eq_true hfeed⟩)
  · exact .inr ⟨t, ht, decide_eq_true hseq⟩

/-! ## Torn lines of JSON -/

theorem closed_entryJson : entryJson.strict.Closed := by
  refine entryJson.closed_strict (fun e hnil ↦ List.cons_ne_nil _ _ hnil) fun a b rest h ↦ ?_
  have hboth : entryText a ++ [] = entryText b ++ rest := by
    rw [List.append_nil]
    exact h
  have hread := readEntry_entryText a []
  rw [hboth, readEntry_entryText b rest] at hread
  exact congrArg Prod.snd (Option.some.inj hread)

def earlierEntry : Entry := ⟨"a", "1", 0, ⟨0, 0, []⟩, "f"⟩

def laterEntry : Entry := ⟨"b", "2", 0, ⟨1, 0, []⟩, "f"⟩

/-- An append that is torn, and behind a crash the same once more. -/
def tornCalls : List Call :=
  [.record earlierEntry .written, .record laterEntry (.failed 1), .crash 0,
    .record laterEntry .written]

theorem carefulRun_tornCalls : Disk.start.CarefulRun entryJson.strict tornCalls := by
  refine ⟨.inl rfl, ?_⟩
  rintro d ⟨⟩
  refine ⟨fun _ ↦ ⟨.inr (by decide +kernel), by decide +kernel, fun h ↦ ?_⟩, ?_⟩
  · exact absurd h (by decide +kernel)
  rintro d ⟨⟩
  refine ⟨?_, fun d hd ↦ ⟨?_, fun _ _ ↦ trivial⟩⟩
  · show isUtf8 _ = true
    decide +kernel
  · rw [Disk.step, Option.map_eq_some_iff] at hd
    obtain ⟨l, hopen, hd⟩ := hd
    rw [← hd]
    show Whole l.file.bytes
    rw [(Ledger.open_spec hopen).1]
    exact .inr (by decide +kernel)

theorem ledger_accounted_tornCalls : ∃ d a,
    Disk.runs entryJson.strict (.start, {}) tornCalls = some (d, a) ∧
      d.Answers entryJson.strict a := by
  obtain ⟨d, a, hruns, hanswers, -⟩ := ledger_accounted entryJson.strict closed_entryJson tornCalls
    carefulRun_tornCalls tornCalls (List.prefix_refl _)
  exact ⟨d, a, hruns, hanswers⟩

/-- An entry that is recorded behind a torn line is swallowed with it. -/
theorem record_swallowed : ¬∀ calls, ∃ d a, Disk.runs entryJson (.start, {}) calls = some (d, a) ∧
    d.Answers entryJson a := by
  intro h
  obtain ⟨d, a, hruns, l, hopen, hdue, -⟩ :=
    h [.record earlierEntry (.failed 1), .record laterEntry .written]
  have hlost : (Disk.runs entryJson (.start, {})
      [.record earlierEntry (.failed 1), .record laterEntry .written]).any (fun s ↦
        s.2.due = [laterEntry] ∧ (Ledger.open entryJson s.1.ledger.file).any
          fun l ↦ l.isLoaded laterEntry.id = false) = true := by
    decide +kernel
  rw [hruns, Option.any_some, decide_eq_true_eq, hopen, Option.any_some, decide_eq_true_eq] at hlost
  have hloaded := hdue laterEntry (hlost.1 ▸ List.mem_singleton.mpr rfl)
  rw [hlost.2] at hloaded
  cases hloaded

end EdgeMulticast.Load
