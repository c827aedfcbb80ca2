import EdgeMulticast.Lib.Delimited
import EdgeMulticast.Lib.Durable

/-!
# The era store

`era.rs` (`dz-publisher-egress`): the `Reset Count` of each channel instance across restarts, one
small file for each in a state directory.  `beginEra` reads the era, and persists the one after it
before it hands it out: a temporary file that is synced, a rename, and a sync of the directory.

A call can stop at any step, on an error of the disk or with its process (`Stop`).
-/

namespace EdgeMulticast.Egress.Era

open EdgeMulticast.Lib

/-- The era of a channel instance that has no persisted history. -/
def FIRST_ERA : Byte := 1

/-- What every era file starts with. -/
def FORMAT_TAG : List Byte := ascii "era-v1"

def DOT : Byte := 0x2e

/-- The name of a file in the state directory. -/
abbrev FileName := List Byte

/-- Whose era it is: the name of a feed specification, and its shard unless that is the default
one. -/
structure Key where
  feed : List Byte
  shard : Option (List Byte)
deriving DecidableEq, Repr

/-- Why an era could not be read.  Every variant is a refusal to start. -/
inductive EraError where
  | unsafeFeedName (name : List Byte)
  | unsafeShardName (name : List Byte)
  | corrupt (path : FileName) (what : String)
deriving DecidableEq, Repr

/-! ## File names -/

/-- One lowercase path component, at most 64 bytes of `[a-z0-9-]`. -/
def isOnePathComponent (name : List Byte) : Bool :=
  !name.isEmpty && name.length ≤ 64 &&
    name.all fun b ↦ 0x61 ≤ b && b ≤ 0x7a || isDigit b || b == 0x2d

/-- The file a channel instance's era lives in. -/
def pathFor (k : Key) : Except EraError FileName :=
  if ¬isOnePathComponent k.feed then .error (.unsafeFeedName k.feed)
  else match k.shard with
    | none => .ok (k.feed ++ ascii ".era")
    | some shard =>
        if isOnePathComponent shard then .ok (k.feed ++ DOT :: (shard ++ ascii ".era"))
        else .error (.unsafeShardName shard)

/-- A file name without its extension. -/
def fileStem (file : FileName) : List Byte :=
  let before := ((file.reverse.dropWhile (· ≠ DOT)).drop 1).reverse
  if DOT ∉ file ∨ before = [] then file else before

def withExtension (file extension : List Byte) : FileName := fileStem file ++ DOT :: extension

/-- The temporary file of an era file. -/
def tmpOf (path : FileName) : FileName := withExtension path (ascii "era.tmp")

/-! ## Reading and writing -/

/-- Read an era file: `none` where there is no file, an error where it does not say an era. -/
def readEra (path : FileName) : Option (List Byte) → Except EraError (Option Byte)
  | none => .ok none
  | some bytes =>
      if ¬isUtf8 bytes then .error (.corrupt path "not UTF-8")
      else match splitWhitespace bytes with
        | [] => .error (.corrupt path "does not begin with the format tag")
        | tag :: fields =>
            if tag ≠ FORMAT_TAG then
              .error (.corrupt path "does not begin with the format tag")
            else match fields with
              | [] => .error (.corrupt path "holds no era")
              | number :: more =>
                  match parseUnsigned 255 number with
                  | none =>
                      .error (.corrupt path "holds an era that is not a number in 0..=255")
                  | some era =>
                      if more ≠ [] then
                        .error (.corrupt path "holds more than the format tag and an era")
                      else .ok (some (UInt8.ofNat era))

/-- The content of an era file. -/
def contents (era : Byte) : List Byte :=
  FORMAT_TAG ++ SPACE :: (decimal era.toNat ++ [NEWLINE])

/-- How far a call comes. -/
inductive Stop where
  /-- Before anything is written. -/
  | reading
  /-- While the temporary file is created or written. -/
  | writing (torn : List Byte)
  | written
  | synced
  | renamed
  /-- Behind the sync of the directory, and before the caller has the era. -/
  | recorded
  | returned
deriving DecidableEq, Repr

/-- Whether a call came as far as the rename. -/
def Stop.replaces : Stop → Bool
  | .renamed | .recorded | .returned => true
  | .reading | .writing _ | .written | .synced => false

variable (d : Disk FileName) (path : FileName) (era : Byte)

/-- The temporary file, written and synced. -/
def prepare : Disk FileName := (d.create (tmpOf path) (contents era)).sync (tmpOf path)

/-- Write via a temporary file and a rename, as far as the call comes. -/
def writeEra : Stop → Disk FileName
  | .reading => d
  | .writing torn => d.create (tmpOf path) torn
  | .written => d.create (tmpOf path) (contents era)
  | .synced => prepare d path era
  | .renamed => (prepare d path era).rename (tmpOf path) path
  | .recorded | .returned => ((prepare d path era).rename (tmpOf path) path).syncDir

/-- What a call comes to. -/
inductive Answer where
  | refused (e : EraError)
  | stopped
  | returned (era : Byte)
deriving DecidableEq, Repr

/-- The era after the one that is persisted. -/
def nextEra : Option Byte → Byte
  | none => FIRST_ERA
  | some previous => previous + 1

/-- Advance an era, persist it, and return it. -/
def beginEra (k : Key) (stop : Stop) : Disk FileName × Answer :=
  match pathFor k with
  | .error e => (d, .refused e)
  | .ok path =>
      match readEra path (d.read path) with
      | .error e => (d, .refused e)
      | .ok previous =>
          (writeEra d path (nextEra previous) stop,
            if stop = .returned then .returned (nextEra previous) else .stopped)

/-! ## What an era file says -/

variable {d path era} {k k' : Key} {path' : FileName}

/-- A file says an era: one tag and one number, and nothing else. -/
def Says (bytes : List Byte) (era : Byte) : Prop :=
  isUtf8 bytes ∧ ∃ number, splitWhitespace bytes = [FORMAT_TAG, number] ∧ Parses number era.toNat

theorem readEra_eq_ok_iff {bytes : List Byte} :
    readEra path (some bytes) = .ok (some era) ↔ Says bytes era := by
  rw [readEra]
  constructor
  · intro h
    split at h
    next => cases h
    next hutf8 =>
    split at h
    next => cases h
    next tag fields hwords =>
    split at h
    next => cases h
    next htag =>
    split at h
    next => cases h
    next number more =>
    split at h
    next => cases h
    next n hn =>
    split at h
    next => cases h
    next hmore =>
    obtain ⟨hparses, hle⟩ := parseUnsigned_eq_some_iff.mp hn
    obtain rfl := Option.some.inj (Except.ok.inj h)
    rw [not_not] at hutf8 htag hmore
    subst htag hmore
    refine ⟨hutf8, number, hwords, ?_⟩
    rwa [UInt8.toNat_ofNat', Nat.mod_eq_of_lt (Nat.lt_succ_of_le hle)]
  · rintro ⟨hutf8, number, hwords, hparses⟩
    have hn : parseUnsigned 255 number = some era.toNat :=
      parseUnsigned_eq_some_iff.mpr ⟨hparses, Nat.le_of_lt_succ (UInt8.toNat_lt era)⟩
    rw [if_neg (not_not.mpr hutf8), hwords]
    dsimp only
    rw [if_neg (not_not.mpr rfl), hn]
    dsimp only
    rw [if_neg (not_not.mpr rfl), UInt8.ofNat_toNat]

/-- A file is refused, or says an era. -/
theorem readEra_some (path : FileName) (bytes : List Byte) :
    (∃ what, readEra path (some bytes) = .error (.corrupt path what)) ∨
      ∃ era, readEra path (some bytes) = .ok (some era) := by
  rw [readEra]
  split
  · exact .inl ⟨_, rfl⟩
  split
  · exact .inl ⟨_, rfl⟩
  split
  · exact .inl ⟨_, rfl⟩
  split
  · exact .inl ⟨_, rfl⟩
  split
  · exact .inl ⟨_, rfl⟩
  split
  · exact .inl ⟨_, rfl⟩
  · exact .inr ⟨_, rfl⟩

theorem visible_tag : Visible FORMAT_TAG := by
  have hall : FORMAT_TAG.all (fun b ↦ 0x21 ≤ b && b < 0x80) := by decide
  intro b hb
  have hbounds := List.all_eq_true.mp hall b hb
  rwa [Bool.and_eq_true, decide_eq_true_eq, decide_eq_true_eq] at hbounds

/-- **What is written is read.** -/
theorem says_contents (era : Byte) : Says (contents era) era := by
  refine ⟨isUtf8_of_ascii fun b hb ↦ ?_, decimal era.toNat, ?_, .inl (digits_decimal _)⟩
  · rw [contents, List.mem_append, List.mem_cons, List.mem_append, List.mem_singleton] at hb
    rcases hb with hb | rfl | hb | rfl
    · exact (visible_tag b hb).2
    · decide
    · exact (visible_decimal _ b hb).2
    · decide
  · exact splitWhitespace_line visible_tag (visible_decimal _) (by decide) (decimal_ne_nil _)

theorem readEra_contents (path : FileName) (era : Byte) :
    readEra path (some (contents era)) = .ok (some era) := readEra_eq_ok_iff.mpr (says_contents era)

/-! ## No two instances share a file -/

theorem DOT_notMem_of_component {name : List Byte} (h : isOnePathComponent name) : DOT ∉ name := by
  intro hmem
  rw [isOnePathComponent, Bool.and_eq_true, Bool.and_eq_true] at h
  exact absurd (List.all_eq_true.mp h.2 DOT hmem) (by decide)

theorem ne_nil_of_component {name : List Byte} (h : isOnePathComponent name) : name ≠ [] := by
  rintro rfl
  exact absurd h (by decide)

theorem pathFor_eq_ok_iff : pathFor k = .ok path ↔ isOnePathComponent k.feed ∧
    ((k.shard = none ∧ path = k.feed ++ DOT :: ascii "era") ∨
      ∃ shard, k.shard = some shard ∧ isOnePathComponent shard ∧
        path = k.feed ++ DOT :: (shard ++ DOT :: ascii "era")) := by
  rw [pathFor]
  constructor
  · intro h
    split at h
    next => cases h
    next hfeed =>
    split at h
    next hshard => exact ⟨not_not.mp hfeed, .inl ⟨hshard, (Except.ok.inj h).symm⟩⟩
    next shard hshard =>
    split at h
    next hcomponent =>
        exact ⟨not_not.mp hfeed, .inr ⟨shard, hshard, hcomponent, (Except.ok.inj h).symm⟩⟩
    next => cases h
  · rintro ⟨hfeed, ⟨hshard, rfl⟩ | ⟨shard, hshard, hcomponent, rfl⟩⟩
    · rw [if_neg (not_not.mpr hfeed), hshard]
      rfl
    · rw [if_neg (not_not.mpr hfeed), hshard]
      dsimp only
      rw [if_pos hcomponent]
      rfl

/-- **Distinct instances have distinct files.** -/
theorem pathFor_inj (h : pathFor k = .ok path) (h' : pathFor k' = .ok path) : k = k' := by
  obtain ⟨hfeed, hshard⟩ := pathFor_eq_ok_iff.mp h
  obtain ⟨hfeed', hshard'⟩ := pathFor_eq_ok_iff.mp h'
  have hdot := DOT_notMem_of_component hfeed
  have hdot' := DOT_notMem_of_component hfeed'
  have hera : DOT ∉ ascii "era" := by decide
  obtain ⟨feed, shard⟩ := k
  obtain ⟨feed', shard'⟩ := k'
  rcases hshard with ⟨rfl, rfl⟩ | ⟨name, rfl, hname, rfl⟩ <;>
    rcases hshard' with ⟨rfl, heq⟩ | ⟨name', rfl, hname', heq⟩
  · obtain ⟨rfl, -⟩ := append_sep_inj hdot hdot' heq
    rfl
  · obtain ⟨-, htail⟩ := append_sep_inj hdot hdot' heq
    exact absurd (htail ▸ List.mem_append_right _ List.mem_cons_self) hera
  · obtain ⟨-, htail⟩ := append_sep_inj hdot hdot' heq
    exact absurd (htail ▸ List.mem_append_right _ List.mem_cons_self) hera
  · obtain ⟨rfl, htail⟩ := append_sep_inj hdot hdot' heq
    obtain ⟨rfl, -⟩ := append_sep_inj (DOT_notMem_of_component hname)
      (DOT_notMem_of_component hname') htail
    rfl

theorem fileStem_append {stem extension : List Byte} (hstem : stem ≠ [])
    (hextension : DOT ∉ extension) : fileStem (stem ++ DOT :: extension) = stem := by
  have hreverse : (stem ++ DOT :: extension).reverse =
      extension.reverse ++ DOT :: stem.reverse := by
    rw [List.reverse_append, List.reverse_cons, List.append_assoc, List.singleton_append]
  have hdrop : (extension.reverse ++ DOT :: stem.reverse).dropWhile (· ≠ DOT) =
      DOT :: stem.reverse := by
    rw [List.dropWhile_append_of_pos]
    · rw [List.dropWhile_cons_of_neg (by rw [decide_eq_true_eq]; exact not_not.mpr rfl)]
    · intro b hb
      rw [decide_eq_true_eq]
      rintro rfl
      exact hextension (List.mem_reverse.mp hb)
  rw [fileStem, hreverse, hdrop, List.drop_one, List.tail_cons, List.reverse_reverse, if_neg]
  rintro (hdot | hnil)
  · exact hdot (List.mem_append_right _ List.mem_cons_self)
  · exact hstem hnil

/-- The temporary file of an era file has a name of its own. -/
theorem tmpOf_eq (h : pathFor k = .ok path) : tmpOf path = path ++ DOT :: ascii "tmp" := by
  have hera : DOT ∉ ascii "era" := by decide
  obtain ⟨hfeed, ⟨-, rfl⟩ | ⟨shard, -, -, rfl⟩⟩ := pathFor_eq_ok_iff.mp h
  · rw [tmpOf, withExtension, fileStem_append (ne_nil_of_component hfeed) hera, List.append_assoc]
    rfl
  · have hstem : k.feed ++ DOT :: (shard ++ DOT :: ascii "era") =
        (k.feed ++ DOT :: shard) ++ DOT :: ascii "era" := by
      rw [List.append_assoc, List.cons_append]
    rw [tmpOf, withExtension, hstem,
      fileStem_append (List.append_ne_nil_of_left_ne_nil (ne_nil_of_component hfeed) _) hera,
      List.append_assoc (k.feed ++ DOT :: shard)]
    rfl

/-- An era file ends in `.era`. -/
theorem getLast?_path (h : pathFor k = .ok path) : path.getLast? = some 0x61 := by
  obtain ⟨-, ⟨-, rfl⟩ | ⟨shard, -, -, rfl⟩⟩ := pathFor_eq_ok_iff.mp h
  · rw [List.getLast?_append_cons]
    rfl
  · rw [List.getLast?_append_cons, ← List.cons_append, List.getLast?_append_cons]
    rfl

theorem path_ne_tmpOf (h : pathFor k = .ok path) (h' : pathFor k' = .ok path') :
    path ≠ tmpOf path' := by
  intro heq
  have hlast := getLast?_path h
  rw [heq, tmpOf_eq h', List.getLast?_append_cons] at hlast
  exact absurd hlast (by decide)

end EdgeMulticast.Egress.Era
