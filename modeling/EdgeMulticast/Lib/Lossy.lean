import EdgeMulticast.Lib.Text

/-!
# Text out of bytes that may not be any

`String::from_utf8_lossy`: where bytes are not UTF-8, the longest beginning of a character that is
there is replaced by one replacement character.  Text is kept (`lossy_of_isUtf8`), and what comes
out is text (`isUtf8_lossy`).  No other byte comes in (`notMem_lossy`).
-/

namespace EdgeMulticast.Lib

/-- U+FFFD -/
def REPLACEMENT : List Byte := [0xef, 0xbf, 0xbd]

/-- The text of bytes, where `pending` has begun a character and these are expected next. -/
def lossyFrom : List (Byte × Byte) → List Byte → List Byte → List Byte
  | [], _, [] => []
  | _ :: _, _, [] => REPLACEMENT
  | [], _, b :: bs =>
      match continuation b with
      | none => REPLACEMENT ++ lossyFrom [] [] bs
      | some [] => b :: lossyFrom [] [] bs
      | some expected => lossyFrom expected [b] bs
  | (low, high) :: expected, pending, b :: bs =>
      if low ≤ b && b ≤ high then
        if expected = [] then pending ++ b :: lossyFrom [] [] bs
        else lossyFrom expected (pending ++ [b]) bs
      else
        REPLACEMENT ++
          match continuation b with
          | none => REPLACEMENT ++ lossyFrom [] [] bs
          | some [] => b :: lossyFrom [] [] bs
          | some expected => lossyFrom expected [b] bs

def lossy (bs : List Byte) : List Byte := lossyFrom [] [] bs

theorem lossyFrom_of_isUtf8From {expected : List (Byte × Byte)} {bs : List Byte}
    (pending : List Byte) (h : isUtf8From expected bs) :
    lossyFrom expected pending bs = (if expected = [] then [] else pending) ++ bs := by
  induction bs generalizing expected pending with
  | nil =>
      cases expected with
      | nil => rfl
      | cons bound expected => cases h
  | cons b bs ih =>
      cases expected with
      | nil =>
          rw [isUtf8From] at h
          rw [lossyFrom, if_pos rfl, List.nil_append]
          split at h
          next => cases h
          next expected hcontinuation =>
          rw [hcontinuation]
          cases expected with
          | nil => exact congrArg (b :: ·) (ih [] h)
          | cons bound expected => exact ih [b] h
      | cons bound expected =>
          obtain ⟨low, high⟩ := bound
          rw [isUtf8From, Bool.and_eq_true] at h
          rw [lossyFrom, if_pos h.1, if_neg (List.cons_ne_nil _ _)]
          split
          next hexpected =>
              subst hexpected
              rw [ih [] h.2, if_pos rfl, List.nil_append]
          next hexpected =>
              rw [ih _ h.2, if_neg hexpected, List.append_assoc, List.singleton_append]

/-- Text is kept. -/
theorem lossy_of_isUtf8 {bs : List Byte} (h : isUtf8 bs) : lossy bs = bs := by
  rw [lossy, lossyFrom_of_isUtf8From [] h, if_pos rfl, List.nil_append]

theorem isUtf8_replacement {bs : List Byte} (h : isUtf8 bs) : isUtf8 (REPLACEMENT ++ bs) :=
  isUtf8_append (by decide) h

/-- What has begun a character, and what is expected behind it. -/
def Begun (expected : List (Byte × Byte)) (pending : List Byte) : Prop :=
  expected = [] ∨ ∀ rest, isUtf8From expected rest → isUtf8 (pending ++ rest)

theorem begun_singleton {b : Byte} {expected : List (Byte × Byte)}
    (h : continuation b = some expected) : Begun expected [b] := by
  refine .inr fun rest hrest ↦ ?_
  rw [List.singleton_append, isUtf8, isUtf8From, h]
  exact hrest

theorem isUtf8_lossyFrom {expected : List (Byte × Byte)} {pending : List Byte} (bs : List Byte)
    (h : Begun expected pending) : isUtf8 (lossyFrom expected pending bs) := by
  induction bs generalizing expected pending with
  | nil =>
      cases expected with
      | nil => rfl
      | cons bound expected =>
          have hnil : isUtf8 [] := rfl
          exact isUtf8_replacement hnil
  | cons b bs ih =>
      have hstart : isUtf8 (lossyFrom [] [] bs) := ih (.inl rfl)
      have hfirst : isUtf8 (match continuation b with
          | none => REPLACEMENT ++ lossyFrom [] [] bs
          | some [] => b :: lossyFrom [] [] bs
          | some expected => lossyFrom expected [b] bs) := by
        cases hcontinuation : continuation b with
        | none => exact isUtf8_replacement hstart
        | some expected =>
            cases expected with
            | nil =>
                dsimp only
                rw [isUtf8, isUtf8From, hcontinuation]
                exact hstart
            | cons bound expected => exact ih (begun_singleton hcontinuation)
      cases expected with
      | nil => exact hfirst
      | cons bound expected =>
          obtain ⟨low, high⟩ := bound
          rcases h with hnil | h
          · cases hnil
          rw [lossyFrom]
          split
          next hin =>
              have hnext (rest : List Byte) (hrest : isUtf8From expected rest) :
                  isUtf8 (pending ++ b :: rest) := by
                refine h (b :: rest) ?_
                rw [isUtf8From, hin, Bool.true_and]
                exact hrest
              split
              next hexpected =>
                  subst hexpected
                  exact hnext _ hstart
              next =>
                  refine ih (.inr fun rest hrest ↦ ?_)
                  rw [List.append_assoc, List.singleton_append]
                  exact hnext rest hrest
          next => exact isUtf8_replacement hfirst

/-- What comes out is text. -/
theorem isUtf8_lossy (bs : List Byte) : isUtf8 (lossy bs) := isUtf8_lossyFrom bs (.inl rfl)

theorem lossy_eq_iff {bs : List Byte} : lossy bs = bs ↔ isUtf8 bs := by
  constructor
  · intro h
    rw [← h]
    exact isUtf8_lossy bs
  · exact lossy_of_isUtf8

/-- No byte comes out that did not go in, but for those of a replacement. -/
theorem notMem_lossyFrom {c : Byte} (hc : c ∉ REPLACEMENT) {expected : List (Byte × Byte)}
    {pending bs : List Byte} (hpending : c ∉ pending) (h : c ∉ bs) :
    c ∉ lossyFrom expected pending bs := by
  induction bs generalizing expected pending with
  | nil =>
      cases expected with
      | nil => exact List.not_mem_nil
      | cons bound expected => exact hc
  | cons b bs ih =>
      obtain ⟨hb, h⟩ := not_or.mp (mt List.mem_cons.mpr h)
      have hstart : c ∉ lossyFrom [] [] bs := ih List.not_mem_nil h
      have hreplaced {out : List Byte} (hout : c ∉ out) : c ∉ REPLACEMENT ++ out :=
        fun hmem ↦ (List.mem_append.mp hmem).elim hc hout
      have hone : c ∉ [b] := mt List.mem_singleton.mp hb
      have hfirst : c ∉ (match continuation b with
          | none => REPLACEMENT ++ lossyFrom [] [] bs
          | some [] => b :: lossyFrom [] [] bs
          | some expected => lossyFrom expected [b] bs) := by
        split
        next => exact hreplaced hstart
        next => exact fun hmem ↦ (List.mem_cons.mp hmem).elim hb hstart
        next => exact ih hone h
      cases expected with
      | nil => exact hfirst
      | cons bound expected =>
          obtain ⟨low, high⟩ := bound
          have hlonger {out : List Byte} (hout : c ∉ out) : c ∉ pending ++ b :: out :=
            fun hmem ↦ (List.mem_append.mp hmem).elim hpending
              fun hmem ↦ (List.mem_cons.mp hmem).elim hb hout
          rw [lossyFrom]
          split
          next =>
              split
              next => exact hlonger hstart
              next => exact ih (hlonger List.not_mem_nil) h
          next => exact hreplaced hfirst

theorem notMem_lossy {c : Byte} (hc : c ∉ REPLACEMENT) {bs : List Byte} (h : c ∉ bs) :
    c ∉ lossy bs := notMem_lossyFrom hc List.not_mem_nil h

end EdgeMulticast.Lib
