import EdgeMulticast.Lib.Bytes
import EdgeMulticast.Lib.Except

/-!
# Values read off the front of bytes

A reading takes a value off the front of some bytes and leaves the rest, or fails.  It is *exact* for a
way of writing the values when it succeeds on nothing but a value as it is written, and succeeds there
whatever follows: what is written is read back, and what is read is written again as the same bytes.

Readings are put together with `do`, and `stateT_bind_ok` takes them apart again.
-/

namespace EdgeMulticast.Lib

/-- A way of taking a value off the front of some bytes. -/
abbrev Reading (ε α : Type) := StateT (List Byte) (Except ε) α

namespace Reading

variable {ε α β : Type} {bs rest : List Byte}

/-- The reading succeeds on what is written of the values that `Good` admits, and on nothing else. -/
def Exact (r : Reading ε α) (write : α → List Byte) (Good : α → Prop) : Prop :=
  ∀ bs a rest, r bs = .ok (a, rest) ↔ Good a ∧ bs = write a ++ rest

section

variable {r : Reading ε α} {write : α → List Byte} {Good : α → Prop}

/-- What is written is read back. -/
theorem Exact.read (h : r.Exact write Good) {a : α} (ha : Good a) (rest : List Byte) :
    r (write a ++ rest) = .ok (a, rest) := (h _ _ _).mpr ⟨ha, rfl⟩

/-- A reading goes on from what is written as from the value. -/
theorem Exact.bind (h : r.Exact write Good) {a : α} (ha : Good a) (f : α → Reading ε β)
    (rest : List Byte) : (r >>= f) (write a ++ rest) = f a rest := by
  change (r (write a ++ rest) >>= fun p ↦ f p.1 p.2) = f a rest
  rw [h.read ha]
  rfl

/-- What is read has been written. -/
theorem Exact.of_bind (h : r.Exact write Good) {f : α → Reading ε β} {b : β}
    (hb : (r >>= f) bs = .ok (b, rest)) :
    ∃ a mid, Good a ∧ bs = write a ++ mid ∧ f a mid = .ok (b, rest) := by
  obtain ⟨a, mid, ha, hf⟩ := stateT_bind_ok.mp hb
  obtain ⟨hgood, rfl⟩ := (h _ _ _).mp ha
  exact ⟨a, mid, hgood, rfl, hf⟩

/-- Reading through a value that stands for another. -/
theorem Exact.map {f : α → β} {g : β → α} (h : r.Exact write Good) (hfg : ∀ b, f (g b) = b)
    (hgf : ∀ a, g (f a) = a) : (f <$> r).Exact (fun b ↦ write (g b)) fun b ↦ Good (g b) := by
  intro bs b rest
  rw [map_eq_pure_bind, stateT_bind_ok]
  constructor
  · rintro ⟨a, mid, ha, hf⟩
    obtain ⟨rfl, rfl⟩ := stateT_pure_ok.mp hf
    show Good (g (f a)) ∧ bs = write (g (f a)) ++ mid
    rw [hgf]
    exact (h _ _ _).mp ha
  · intro hb
    exact ⟨g b, rest, (h _ _ _).mpr hb, stateT_pure_ok.mpr ⟨(hfg b).symm, rfl⟩⟩

end

/-! ## Bytes and words -/

section

variable (short : ε)

/-- The next `n` bytes. -/
def take (n : ℕ) : Reading ε (List Byte) := fun bs ↦
  if n ≤ bs.length then .ok (bs.take n, bs.drop n) else .error short

theorem take_exact (n : ℕ) : (take short n).Exact id fun bytes ↦ bytes.length = n := by
  intro bs bytes rest
  rw [take]
  constructor
  · intro h
    split at h
    next hle =>
        cases h
        exact ⟨List.length_take_of_le hle, (List.take_append_drop n bs).symm⟩
    next => cases h
  · rintro ⟨rfl, rfl⟩
    rw [id, if_pos (by rw [List.length_append]; omega), List.take_left, List.drop_left]

/-- The next byte. -/
def byte : Reading ε Byte := do
  let b ← take short 1
  pure (b.getD 0 0)

def word16 : Reading ε UInt16 := do
  let b ← take short 2
  pure (UInt16.ofNat (ofLE b))

def word64 : Reading ε UInt64 := do
  let b ← take short 8
  pure (UInt64.ofNat (ofLE b))

variable {short}

/-- A value that is made of a fixed number of bytes, and tells what they were. -/
theorem exact_of_take {n : ℕ} {f : List Byte → α} {write : α → List Byte}
    (hlength : ∀ a, (write a).length = n) (hread : ∀ a, f (write a) = a)
    (hwrite : ∀ b : List Byte, b.length = n → write (f b) = b) :
    (do let b ← take short n; pure (f b)).Exact write fun _ ↦ True := by
  intro bs a rest
  rw [stateT_bind_ok]
  constructor
  · rintro ⟨b, mid, hb, hf⟩
    obtain ⟨hlen, rfl⟩ := (take_exact short n _ _ _).mp hb
    obtain ⟨rfl, rfl⟩ := stateT_pure_ok.mp hf
    exact ⟨trivial, by rw [hwrite b hlen, id]⟩
  · rintro ⟨-, rfl⟩
    exact ⟨write a, rest, (take_exact short n).read (hlength a) rest,
      stateT_pure_ok.mpr ⟨(hread a).symm, rfl⟩⟩

theorem byte_exact : (byte short).Exact (fun b ↦ [b]) fun _ ↦ True := by
  refine exact_of_take (fun _ ↦ rfl) (fun _ ↦ rfl) fun b hb ↦ ?_
  obtain ⟨x, rfl⟩ := List.length_eq_one_iff.mp hb
  rfl

theorem word16_exact : (word16 short).Exact le16 fun _ ↦ True :=
  exact_of_take length_le16 ofLE_le16 fun _ ↦ le16_ofLE

theorem word64_exact : (word64 short).Exact le64 fun _ ↦ True :=
  exact_of_take length_le64 ofLE_le64 fun _ ↦ le64_ofLE

/-! ## Tags -/

/-- A value that one byte stands for. -/
def tagged (short : ε) (parse : Byte → Option α) (bad : ε) : Reading ε α := do
  match parse (← byte short) with
  | some a => pure a
  | none => throw bad

theorem tagged_exact {parse : Byte → Option α} {bad : ε} {tag : α → Byte}
    (h : ∀ b a, parse b = some a ↔ b = tag a) :
    (tagged short parse bad).Exact (fun a ↦ [tag a]) fun _ ↦ True := by
  intro bs a rest
  rw [tagged]
  constructor
  · intro ha
    obtain ⟨b, mid, -, rfl, hf⟩ := byte_exact.of_bind ha
    cases hb : parse b with
    | none =>
        rw [hb] at hf
        exact absurd hf stateT_throw_ok
    | some a' =>
        rw [hb] at hf
        obtain ⟨rfl, rfl⟩ := stateT_pure_ok.mp hf
        rw [(h b a).mp hb]
        exact ⟨trivial, rfl⟩
  · rintro ⟨-, rfl⟩
    rw [byte_exact.bind trivial, (h _ a).mpr rfl]
    rfl

end

/-! ## Failures -/

/-- Whatever the reading fails with is one of the errors that `P` admits. -/
def FailsOnly (P : ε → Prop) (r : Reading ε α) : Prop := ∀ bs e, r bs = .error e → P e

namespace FailsOnly

variable {P : ε → Prop}

theorem pure (a : α) : FailsOnly P (Pure.pure a : Reading ε α) := by
  intro bs e h
  cases h

theorem throw {e : ε} (he : P e) : FailsOnly P (MonadExcept.throw e : Reading ε α) := by
  intro bs e' h
  cases h
  exact he

theorem bind {r : Reading ε α} {f : α → Reading ε β} (hr : FailsOnly P r)
    (hf : ∀ a, FailsOnly P (f a)) : FailsOnly P (r >>= f) := by
  intro bs e h
  change (r bs >>= fun p ↦ f p.1 p.2) = .error e at h
  cases hrun : r bs with
  | error e' =>
      rw [hrun] at h
      obtain rfl := Except.error.inj h
      exact hr bs e' hrun
  | ok p =>
      rw [hrun] at h
      exact hf p.1 p.2 e h

theorem ite {c : Prop} [Decidable c] {r r' : Reading ε α} (hr : FailsOnly P r)
    (hr' : FailsOnly P r') : FailsOnly P (if c then r else r') := by
  split
  · exact hr
  · exact hr'

theorem map {r : Reading ε α} {f : α → β} (hr : FailsOnly P r) : FailsOnly P (f <$> r) := by
  rw [map_eq_pure_bind]
  exact hr.bind fun a ↦ pure (f a)

variable {short : ε}

theorem take (h : P short) (n : ℕ) : FailsOnly P (Reading.take short n) := by
  intro bs e hrun
  rw [Reading.take] at hrun
  split at hrun
  · cases hrun
  · cases hrun
    exact h

theorem byte (h : P short) : FailsOnly P (Reading.byte short) := (take h 1).bind fun _ ↦ pure _

theorem word16 (h : P short) : FailsOnly P (Reading.word16 short) :=
  (take h 2).bind fun _ ↦ pure _

theorem word64 (h : P short) : FailsOnly P (Reading.word64 short) :=
  (take h 8).bind fun _ ↦ pure _

theorem tagged {parse : Byte → Option α} {bad : ε} (h : P short) (hbad : P bad) :
    FailsOnly P (Reading.tagged short parse bad) := by
  refine (byte h).bind fun b ↦ ?_
  cases parse b with
  | none => exact throw hbad
  | some a => exact pure a

end FailsOnly

end Reading

end EdgeMulticast.Lib
