import Mathlib.Algebra.Group.Int.Defs
import Mathlib.Algebra.Group.Nat.Defs
import Mathlib.Data.List.Basic
import Mathlib.Order.Nat
import Mathlib.Tactic.Common

/-!
# Words in a buffer of bytes

A wire format writes numbers, least significant byte first, at fixed offsets of a buffer and
reads them back from there.  This file has the numbers (`toLE`, `ofLE`), the two things done to
a buffer (`slice` reads, `put` overwrites) and the two laws that connect them: a written slice
reads as it was written, and a slice apart from it reads as before.

A message is a list of `Field`s written in order.  `ReadsAs` says that a buffer has every field
of a list at its place; fields that share no byte all survive the writing (`readsAs_putAll`), and
later fields overwrite only what they overlap (`ReadsAs.putAll`).
-/

namespace EdgeMulticast.Lib

abbrev Byte := UInt8

/-! ## Numbers -/

/-- The `n` low bytes of a number, the least significant first. -/
def toLE : ℕ → ℕ → List Byte
  | 0, _ => []
  | n + 1, v => UInt8.ofNat v :: toLE n (v / 256)

/-- The number that bytes spell, the least significant first. -/
def ofLE : List Byte → ℕ
  | [] => 0
  | b :: bs => b.toNat + 256 * ofLE bs

@[simp] theorem length_toLE (n v : ℕ) : (toLE n v).length = n := by
  induction n generalizing v with
  | zero => rfl
  | succ n ih => simp [toLE, ih]

theorem ofLE_toLE (n v : ℕ) : ofLE (toLE n v) = v % 256 ^ n := by
  induction n generalizing v with
  | zero => simp [toLE, ofLE, Nat.mod_one]
  | succ n ih =>
      have hhead : (UInt8.ofNat v).toNat = v % 256 := by simp
      rw [toLE, ofLE, ih, hhead, Nat.pow_succ', Nat.mod_mul]

theorem ofLE_toLE_of_lt {n v : ℕ} (h : v < 256 ^ n) : ofLE (toLE n v) = v := by
  rw [ofLE_toLE, Nat.mod_eq_of_lt h]

theorem toLE_ofLE (bs : List Byte) : toLE bs.length (ofLE bs) = bs := by
  induction bs with
  | nil => rfl
  | cons b bs ih =>
      have hlow : UInt8.ofNat (b.toNat + 256 * ofLE bs) = b := by
        rw [← UInt8.toNat_inj, UInt8.toNat_ofNat', Nat.add_mul_mod_self_left]
        exact Nat.mod_eq_of_lt b.toNat_lt
      have hhigh : (b.toNat + 256 * ofLE bs) / 256 = ofLE bs := by
        have := b.toNat_lt
        omega
      rw [List.length_cons, toLE, ofLE, hlow, hhigh, ih]

theorem ofLE_lt (bs : List Byte) : ofLE bs < 256 ^ bs.length := by
  induction bs with
  | nil => exact Nat.one_pos
  | cons b bs ih =>
      have hb := b.toNat_lt
      rw [ofLE, List.length_cons, Nat.pow_succ]
      omega

/-! ## Reading and overwriting a buffer -/

/-- The `n` bytes from an offset on. -/
def slice (bs : List Byte) (pos n : ℕ) : List Byte := (bs.drop pos).take n

/-- The byte at an offset. -/
def byteAt (bs : List Byte) (pos : ℕ) : Byte := bs.getD pos 0

/-- Bytes that are written at an offset. -/
structure Field where
  pos : ℕ
  bytes : List Byte

namespace Field

/-- The offset behind the last byte. -/
def stop (f : Field) : ℕ := f.pos + f.bytes.length

/-- Two fields that share no byte. -/
def Apart (f g : Field) : Prop := f.stop ≤ g.pos ∨ g.stop ≤ f.pos

end Field

/-- Overwrite a buffer with a field. -/
def put (bs : List Byte) (f : Field) : List Byte := bs.take f.pos ++ f.bytes ++ bs.drop f.stop

/-- Overwrite a buffer with one field after the other. -/
def putAll (bs : List Byte) (fs : List Field) : List Byte := fs.foldl put bs

variable {bs : List Byte} {f g : Field} {fs : List Field} {pos n start stop : ℕ}

theorem length_slice (h : pos + n ≤ bs.length) : (slice bs pos n).length = n := by
  rw [slice, List.length_take, List.length_drop]
  omega

@[simp] theorem putAll_cons : putAll bs (f :: fs) = putAll (put bs f) fs := rfl

theorem slice_append (bs : List Byte) (pos m n : ℕ) :
    slice bs pos m ++ slice bs (pos + m) n = slice bs pos (m + n) := by
  rw [slice, slice, slice, List.take_add, List.drop_drop]

theorem slice_zero (bs : List Byte) : slice bs 0 bs.length = bs := by
  rw [slice, List.drop_zero, List.take_length]

theorem slice_drop (bs : List Byte) (k pos n : ℕ) :
    slice (bs.drop k) pos n = slice bs (k + pos) n := by
  rw [slice, List.drop_drop, slice]

theorem length_put (h : f.stop ≤ bs.length) : (put bs f).length = bs.length := by
  unfold Field.stop at h
  simp only [put, Field.stop, List.length_append, List.length_take, List.length_drop]
  omega

theorem length_putAll (h : ∀ f ∈ fs, f.stop ≤ bs.length) :
    (putAll bs fs).length = bs.length := by
  induction fs generalizing bs with
  | nil => rfl
  | cons f fs ih =>
      have hf : (put bs f).length = bs.length := length_put (h f (by simp))
      rw [putAll_cons, ih fun g hg ↦ hf ▸ h g (List.mem_cons_of_mem f hg), hf]

/-- What stands at an offset after a field was written. -/
theorem getElem?_put (h : f.stop ≤ bs.length) (i : ℕ) :
    (put bs f)[i]? = if f.pos ≤ i ∧ i < f.stop then f.bytes[i - f.pos]? else bs[i]? := by
  unfold Field.stop at h
  have htake : (bs.take f.pos).length = f.pos := by rw [List.length_take]; omega
  rw [put, List.append_assoc]
  by_cases hpos : i < f.pos
  · rw [List.getElem?_append_left (by omega), List.getElem?_take_of_lt hpos, if_neg (by omega)]
  · rw [List.getElem?_append_right (by omega), htake]
    by_cases hstop : i < f.stop
    · unfold Field.stop at hstop
      rw [List.getElem?_append_left (by omega), if_pos ⟨by omega, by unfold Field.stop; omega⟩]
    · unfold Field.stop at hstop
      rw [List.getElem?_append_right (by omega), List.getElem?_drop,
        if_neg (by unfold Field.stop; omega)]
      congr 1
      unfold Field.stop
      omega

theorem getElem?_slice (bs : List Byte) (pos n i : ℕ) :
    (slice bs pos n)[i]? = if i < n then bs[pos + i]? else none := by
  rw [slice, List.getElem?_take, List.getElem?_drop]

theorem slice_put_self (h : f.stop ≤ bs.length) :
    slice (put bs f) f.pos f.bytes.length = f.bytes := by
  ext1 i
  rw [getElem?_slice]
  split
  · rename_i hi
    rw [getElem?_put h, if_pos (by unfold Field.stop; omega), Nat.add_sub_cancel_left]
  · rename_i hi
    rw [List.getElem?_eq_none (by omega)]

theorem slice_put_of_apart (h : f.stop ≤ bs.length) (hd : pos + n ≤ f.pos ∨ f.stop ≤ pos) :
    slice (put bs f) pos n = slice bs pos n := by
  ext1 i
  rw [getElem?_slice, getElem?_slice]
  split
  · rw [getElem?_put h, if_neg (by omega)]
  · rfl

theorem slice_putAll_of_apart (h : ∀ f ∈ fs, f.stop ≤ bs.length)
    (hd : ∀ f ∈ fs, pos + n ≤ f.pos ∨ f.stop ≤ pos) :
    slice (putAll bs fs) pos n = slice bs pos n := by
  induction fs generalizing bs with
  | nil => rfl
  | cons f fs ih =>
      have hf : f.stop ≤ bs.length := h f (by simp)
      rw [putAll_cons, ih, slice_put_of_apart hf (hd f (by simp))]
      · intro g hg
        rw [length_put hf]
        exact h g (by simp [hg])
      · exact fun g hg ↦ hd g (by simp [hg])

/-- What lies behind every written field is as it was. -/
theorem drop_putAll {k : ℕ} (h : ∀ f ∈ fs, f.stop ≤ k) (hk : k ≤ bs.length) :
    (putAll bs fs).drop k = bs.drop k := by
  induction fs generalizing bs with
  | nil => rfl
  | cons f fs ih =>
      have hf : f.stop ≤ k := h f (by simp)
      have hlen : (put bs f).length = bs.length := length_put (hf.trans hk)
      rw [putAll_cons, ih (fun g hg ↦ h g (by simp [hg])) (by rwa [hlen])]
      ext1 i
      rw [List.getElem?_drop, List.getElem?_drop, getElem?_put (hf.trans hk), if_neg (by omega)]

/-! ## Words of a machine's widths -/

def le16 (x : UInt16) : List Byte := toLE 2 x.toNat

def le32 (x : UInt32) : List Byte := toLE 4 x.toNat

def le64 (x : UInt64) : List Byte := toLE 8 x.toNat

def u16At (bs : List Byte) (pos : ℕ) : UInt16 := UInt16.ofNat (ofLE (slice bs pos 2))

def u32At (bs : List Byte) (pos : ℕ) : UInt32 := UInt32.ofNat (ofLE (slice bs pos 4))

def u64At (bs : List Byte) (pos : ℕ) : UInt64 := UInt64.ofNat (ofLE (slice bs pos 8))

/-- A fixed number of bytes from an offset on. -/
def bytesAt (n : ℕ) (bs : List Byte) (pos : ℕ) : Vector Byte n :=
  Vector.ofFn fun i ↦ byteAt bs (pos + i)

/-- A signed word is written and read as the unsigned word of the same bits. -/
def i64At (bs : List Byte) (pos : ℕ) : Int64 := (u64At bs pos).toInt64

@[simp] theorem length_le16 (x : UInt16) : (le16 x).length = 2 := length_toLE 2 _

@[simp] theorem length_le32 (x : UInt32) : (le32 x).length = 4 := length_toLE 4 _

@[simp] theorem length_le64 (x : UInt64) : (le64 x).length = 8 := length_toLE 8 _

theorem le16_ofLE {bs : List Byte} (h : bs.length = 2) : le16 (UInt16.ofNat (ofLE bs)) = bs := by
  have hlt := ofLE_lt bs
  rw [h] at hlt
  rw [le16, UInt16.toNat_ofNat_of_lt' hlt, ← h, toLE_ofLE]

theorem le32_ofLE {bs : List Byte} (h : bs.length = 4) : le32 (UInt32.ofNat (ofLE bs)) = bs := by
  have hlt := ofLE_lt bs
  rw [h] at hlt
  rw [le32, UInt32.toNat_ofNat_of_lt' hlt, ← h, toLE_ofLE]

theorem le64_ofLE {bs : List Byte} (h : bs.length = 8) : le64 (UInt64.ofNat (ofLE bs)) = bs := by
  have hlt := ofLE_lt bs
  rw [h] at hlt
  rw [le64, UInt64.toNat_ofNat_of_lt' hlt, ← h, toLE_ofLE]

theorem le16_u16At (h : pos + 2 ≤ bs.length) : le16 (u16At bs pos) = slice bs pos 2 :=
  le16_ofLE (length_slice h)

theorem le32_u32At (h : pos + 4 ≤ bs.length) : le32 (u32At bs pos) = slice bs pos 4 :=
  le32_ofLE (length_slice h)

theorem le64_u64At (h : pos + 8 ≤ bs.length) : le64 (u64At bs pos) = slice bs pos 8 :=
  le64_ofLE (length_slice h)

theorem ofLE_le16 (x : UInt16) : UInt16.ofNat (ofLE (le16 x)) = x := by
  rw [le16, ofLE_toLE_of_lt x.toNat_lt, UInt16.ofNat_toNat]

theorem ofLE_le32 (x : UInt32) : UInt32.ofNat (ofLE (le32 x)) = x := by
  rw [le32, ofLE_toLE_of_lt x.toNat_lt, UInt32.ofNat_toNat]

theorem ofLE_le64 (x : UInt64) : UInt64.ofNat (ofLE (le64 x)) = x := by
  rw [le64, ofLE_toLE_of_lt x.toNat_lt, UInt64.ofNat_toNat]

theorem byteAt_drop (bs : List Byte) (k pos : ℕ) :
    byteAt (bs.drop k) pos = byteAt bs (k + pos) := by
  rw [byteAt, byteAt, List.getD_eq_getElem?_getD, List.getD_eq_getElem?_getD, List.getElem?_drop]

theorem byteAt_take {k : ℕ} (h : pos < k) : byteAt (bs.take k) pos = byteAt bs pos := by
  rw [byteAt, byteAt, List.getD_eq_getElem?_getD, List.getD_eq_getElem?_getD,
    List.getElem?_take_of_lt h]

theorem u16At_take {k : ℕ} (h : pos + 2 ≤ k) : u16At (bs.take k) pos = u16At bs pos := by
  rw [u16At, u16At, slice, slice, List.drop_take, List.take_take, Nat.min_eq_left (by omega)]

theorem u16At_drop (bs : List Byte) (k pos : ℕ) : u16At (bs.drop k) pos = u16At bs (k + pos) := by
  rw [u16At, slice_drop, u16At]

theorem u32At_drop (bs : List Byte) (k pos : ℕ) : u32At (bs.drop k) pos = u32At bs (k + pos) := by
  rw [u32At, slice_drop, u32At]

theorem u64At_drop (bs : List Byte) (k pos : ℕ) : u64At (bs.drop k) pos = u64At bs (k + pos) := by
  rw [u64At, slice_drop, u64At]

theorem i64At_drop (bs : List Byte) (k pos : ℕ) : i64At (bs.drop k) pos = i64At bs (k + pos) := by
  rw [i64At, u64At_drop, i64At]

theorem byteAt_eq {b : Byte} (h : slice bs pos 1 = [b]) : byteAt bs pos = b := by
  have hget : (slice bs pos 1)[0]? = some b := by rw [h]; rfl
  rw [getElem?_slice, if_pos Nat.one_pos, Nat.add_zero] at hget
  rw [byteAt, List.getD_eq_getElem?_getD, hget, Option.getD_some]

theorem bytesAt_eq {v : Vector Byte n} (h : slice bs pos n = v.toList) : bytesAt n bs pos = v := by
  ext i hi
  have hget : (slice bs pos n)[i]? = some v[i] := by
    rw [h, Vector.getElem?_toList, Vector.getElem?_eq_getElem hi]
  rw [getElem?_slice, if_pos hi] at hget
  rw [bytesAt, Vector.getElem_ofFn, byteAt, List.getD_eq_getElem?_getD, hget, Option.getD_some]

theorem toList_bytesAt (h : pos + n ≤ bs.length) : (bytesAt n bs pos).toList = slice bs pos n := by
  have hlen : (slice bs pos n).length = n := length_slice h
  obtain ⟨v, hv⟩ : ∃ v : Vector Byte n, slice bs pos n = v.toList :=
    ⟨⟨(slice bs pos n).toArray, by simpa using hlen⟩, rfl⟩
  rw [hv, bytesAt_eq hv]

theorem u16At_eq {x : UInt16} (h : slice bs pos 2 = le16 x) : u16At bs pos = x := by
  rw [u16At, h, le16, ofLE_toLE_of_lt x.toNat_lt, UInt16.ofNat_toNat]

theorem u32At_eq {x : UInt32} (h : slice bs pos 4 = le32 x) : u32At bs pos = x := by
  rw [u32At, h, le32, ofLE_toLE_of_lt x.toNat_lt, UInt32.ofNat_toNat]

theorem u64At_eq {x : UInt64} (h : slice bs pos 8 = le64 x) : u64At bs pos = x := by
  rw [u64At, h, le64, ofLE_toLE_of_lt x.toNat_lt, UInt64.ofNat_toNat]

theorem i64At_eq {x : Int64} (h : slice bs pos 8 = le64 x.toUInt64) : i64At bs pos = x := by
  rw [i64At, u64At_eq h, Int64.toInt64_toUInt64]

/-! ## Words with the most significant byte first -/

def be16 (x : UInt16) : List Byte := (le16 x).reverse

def be32 (x : UInt32) : List Byte := (le32 x).reverse

def u16BeAt (bs : List Byte) (pos : ℕ) : UInt16 := UInt16.ofNat (ofLE (slice bs pos 2).reverse)

def u32BeAt (bs : List Byte) (pos : ℕ) : UInt32 := UInt32.ofNat (ofLE (slice bs pos 4).reverse)

theorem u16BeAt_eq {x : UInt16} (h : slice bs pos 2 = be16 x) : u16BeAt bs pos = x := by
  rw [u16BeAt, h, be16, List.reverse_reverse, ofLE_le16]

theorem u32BeAt_eq {x : UInt32} (h : slice bs pos 4 = be32 x) : u32BeAt bs pos = x := by
  rw [u32BeAt, h, be32, List.reverse_reverse, ofLE_le32]

/-! ## Fields in a buffer -/

/-- A buffer has every field of a list at its place. -/
def ReadsAs (bs : List Byte) (fs : List Field) : Prop :=
  ∀ f ∈ fs, slice bs f.pos f.bytes.length = f.bytes

/-- Fields that lie one behind the other, with nothing between them. -/
def Packed : ℕ → List Field → ℕ → Prop
  | start, [], stop => start = stop
  | start, f :: fs, stop => f.pos = start ∧ Packed f.stop fs stop

theorem ReadsAs.append {gs : List Field} (h : ReadsAs bs fs) (h' : ReadsAs bs gs) :
    ReadsAs bs (fs ++ gs) := by
  intro f hf
  rcases List.mem_append.mp hf with hf | hf
  · exact h f hf
  · exact h' f hf

/-- Fields that share no byte can all be read back. -/
theorem readsAs_putAll (h : ∀ f ∈ fs, f.stop ≤ bs.length) (hd : fs.Pairwise Field.Apart) :
    ReadsAs (putAll bs fs) fs := by
  induction fs generalizing bs with
  | nil => simp [ReadsAs]
  | cons f fs ih =>
      have hf : f.stop ≤ bs.length := h f (by simp)
      have hrest : ∀ g ∈ fs, g.stop ≤ (put bs f).length := by
        intro g hg
        rw [length_put hf]
        exact h g (by simp [hg])
      intro g hg
      rcases List.mem_cons.mp hg with rfl | hg
      · rw [putAll_cons, slice_putAll_of_apart hrest (List.pairwise_cons.mp hd).1,
          slice_put_self hf]
      · exact ih hrest hd.of_cons g hg

/-- Later fields leave the fields apart from them. -/
theorem ReadsAs.putAll {gs : List Field} (h : ReadsAs bs fs) (hg : ∀ g ∈ gs, g.stop ≤ bs.length)
    (hd : ∀ f ∈ fs, ∀ g ∈ gs, Field.Apart f g) : ReadsAs (putAll bs gs) fs := by
  intro f hf
  rw [slice_putAll_of_apart hg (hd f hf), h f hf]

theorem Packed.start_le (h : Packed start fs stop) : start ≤ stop := by
  induction fs generalizing start with
  | nil => exact h.le
  | cons f fs ih =>
      obtain ⟨rfl, h⟩ := h
      exact (Nat.le_add_right _ _).trans (ih h)

theorem Packed.inside (h : Packed start fs stop) :
    ∀ f ∈ fs, start ≤ f.pos ∧ f.stop ≤ stop := by
  induction fs generalizing start with
  | nil => simp
  | cons g fs ih =>
      obtain ⟨rfl, h⟩ := h
      intro f hf
      rcases List.mem_cons.mp hf with rfl | hf
      · exact ⟨le_rfl, h.start_le⟩
      · obtain ⟨hle, hstop⟩ := ih h f hf
        exact ⟨(Nat.le_add_right _ _).trans hle, hstop⟩

theorem Packed.pairwise (h : Packed start fs stop) : fs.Pairwise Field.Apart := by
  induction fs generalizing start with
  | nil => exact .nil
  | cons f fs ih =>
      obtain ⟨-, h⟩ := h
      exact .cons (fun g hg ↦ .inl (h.inside g hg).1) (ih h)

/-!
## Decimal numbers as text

How a program reads a number that is written in decimal digits.
-/

def isDigit (b : Byte) : Bool := 48 ≤ b && b ≤ 57

/-- The number that digits spell, after those before it. -/
def ofDigits (v : ℕ) (digits : List Byte) : ℕ :=
  digits.foldl (fun v b ↦ v * 10 + (b.toNat - 48)) v

/-- `str::parse` of an unsigned number that is at most `max`: one sign `+` may precede the digits,
of which there is at least one. -/
def parseUnsigned (max : ℕ) (text : List Byte) : Option ℕ :=
  let digits := if text.head? = some 43 then text.tail else text
  if digits ≠ [] ∧ digits.all isDigit ∧ ofDigits 0 digits ≤ max then some (ofDigits 0 digits)
  else none

/-!
## Accesses that may be out of bounds

Indexing a buffer, taking a range of it, subtracting and adding unsigned numbers panic where they
are not defined.  Here such a panic is `none`; each access has one lemma that says when it does not panic
and what it gives then.
-/

variable {bs : List Byte} {a b i : ℕ}

/-- `bs[i]` -/
def access (bs : List Byte) (i : ℕ) : Option Byte := bs[i]?

/-- `&bs[a..b]` -/
def accessRange (bs : List Byte) (a b : ℕ) : Option (List Byte) :=
  if a ≤ b ∧ b ≤ bs.length then some (slice bs a (b - a)) else none

/-- `a - b` -/
def lower (a b : ℕ) : Option ℕ := if b ≤ a then some (a - b) else none

/-- `a + b`, in unsigned numbers up to `max` -/
def upper (max a b : ℕ) : Option ℕ := if a + b ≤ max then some (a + b) else none

theorem access_eq (h : i < bs.length) : access bs i = some (byteAt bs i) := by
  rw [access, byteAt, List.getD_eq_getElem?_getD, List.getElem?_eq_getElem h, Option.getD_some]

theorem accessRange_eq (hab : a ≤ b) (hb : b ≤ bs.length) :
    accessRange bs a b = some (slice bs a (b - a)) := if_pos ⟨hab, hb⟩

theorem lower_eq (h : b ≤ a) : lower a b = some (a - b) := if_pos h

theorem upper_eq {max : ℕ} (h : a + b ≤ max) : upper max a b = some (a + b) := if_pos h

/-- `&bs[a..]` -/
theorem accessRange_drop (h : a ≤ bs.length) : accessRange bs a bs.length = some (bs.drop a) := by
  rw [accessRange_eq h le_rfl, slice, List.take_of_length_le (List.length_drop ..).le]

/-- `&bs[..b]` -/
theorem accessRange_take (h : b ≤ bs.length) : accessRange bs 0 b = some (bs.take b) := by
  rw [accessRange_eq (Nat.zero_le b) h]
  rfl

/-- Two bytes that are read one by one. -/
theorem slice_two {pos : ℕ} (h : pos + 2 ≤ bs.length) :
    slice bs pos 2 = [byteAt bs pos, byteAt bs (pos + 1)] := by
  have hget {j : ℕ} (hj : j < bs.length) : bs[j] = byteAt bs j := by
    have haccess := access_eq hj
    rw [access, List.getElem?_eq_getElem hj] at haccess
    exact Option.some.inj haccess
  rw [slice, List.drop_eq_getElem_cons (show pos < bs.length by omega),
    List.drop_eq_getElem_cons (show pos + 1 < bs.length by omega), hget, hget]
  rfl

end EdgeMulticast.Lib
