import EdgeMulticast.Lib.Ranges
import EdgeMulticast.Loss.Sequence
import Mathlib.Data.List.TakeWhile

/-!
# The delivered values of one era

`Era.deliver` keeps the sequence values an era was delivered as a list of ranges, with the
receive stamps of the datagrams at the ends of each.  It refuses a value that would make the era
span more than any outage explains, and a range beyond the limit.

`Holds` says that the ranges stand for a set; every delivery keeps it, with the value added when
the answer is `recorded` (`Holds.deliver`), and no sum on the way reaches the width of a word
(`Holds.no_overflow`).
-/

namespace EdgeMulticast.Loss

open EdgeMulticast.Lib
open EdgeMulticast.Lib.Ranges (covered Separated width gaps)

/-! ## Words -/

def U64_MAX : ℕ := 18446744073709551615

/-- `u64::saturating_add`. -/
def saturatingAdd (a b : ℕ) : ℕ := min (a + b) U64_MAX

/-- `slice::partition_point`, of a list on which the predicate holds up to a point. -/
def partitionPoint {α : Type*} (p : α → Bool) (l : List α) : ℕ := (l.takeWhile p).length

/-- What one window may hold. -/
structure DeriverLimits where
  maxInstances : ℕ := 4096
  maxErasPerInstance : ℕ := 256
  maxRangesPerEra : ℕ := 4096

/-! ## Delivered ranges -/

/-- A contiguous run of values that were delivered, with the stamp of the datagram at each end. -/
structure Delivered where
  start : ℕ
  «end» : ℕ
  startTsNs : ℕ
  endTsNs : ℕ
deriving DecidableEq

namespace Delivered

def single (seq tsNs : ℕ) : Delivered := ⟨seq, seq, tsNs, tsNs⟩

def width (d : Delivered) : ℕ := saturatingAdd (d.end - d.start) 1

/-- The range, without its stamps. -/
def span (d : Delivered) : ℕ × ℕ := (d.start, d.end)

@[simp] theorem span_single (seq tsNs : ℕ) : (single seq tsNs).span = (seq, seq) := rfl

end Delivered

/-- What became of one attempt to record a value as delivered. -/
inductive Delivery where
  | recorded
  | tooManyRanges
  | tooDistant
deriving DecidableEq

/-- The sequence space of one era. -/
structure Era where
  ordinal : ℕ
  resetCount : ℕ
  anchorSeq : ℕ
  anchorTsNs : ℕ
  /-- Disjoint and non-adjacent, ascending. -/
  delivered : List Delivered
deriving DecidableEq

/-- One era, as the report has it. -/
structure EraCoverage where
  ordinal : ℕ
  resetCount : ℕ
  anchorSeq : ℕ
  anchorTsNs : ℕ
  firstSeq : ℕ
  lastSeq : ℕ
  delivered : ℕ
deriving DecidableEq

namespace EraCoverage

def referenceSeqs (c : EraCoverage) : ℕ := saturatingAdd (c.lastSeq - c.firstSeq) 1

def missing (c : EraCoverage) : ℕ := c.referenceSeqs - c.delivered

end EraCoverage

namespace Era

def opened (ordinal resetCount seq tsNs : ℕ) : Era where
  ordinal := ordinal
  resetCount := resetCount
  anchorSeq := seq
  anchorTsNs := tsNs
  delivered := [.single seq tsNs]

/-- The ranges of an era, without their stamps. -/
def spans (e : Era) : List (ℕ × ℕ) := e.delivered.map Delivered.span

/-- The first range that reaches `seq - 1` or beyond. -/
def slot (e : Era) (seq : ℕ) : ℕ :=
  partitionPoint (fun range ↦ decide (saturatingAdd range.end 1 < seq)) e.delivered

/-- Whether the value is further from the span of the era than any outage explains. -/
def distant (e : Era) (seq : ℕ) : Bool :=
  match e.delivered.head?, e.delivered.getLast? with
  | some first, some last => decide (MAX_FORWARD_JUMP < max last.end seq - min first.start seq)
  | _, _ => false

/-- Record a value as delivered, or say why it was not. -/
def deliver (e : Era) (seq tsNs : ℕ) (limits : DeriverLimits) : Era × Delivery :=
  if e.distant seq then (e, .tooDistant)
  else
    let index := e.slot seq
    match e.delivered[index]? with
    | none =>
        if limits.maxRangesPerEra ≤ e.delivered.length then (e, .tooManyRanges)
        else ({ e with delivered := e.delivered ++ [.single seq tsNs] }, .recorded)
    | some range =>
        if range.start ≤ seq ∧ seq ≤ range.end then (e, .recorded)
        else if saturatingAdd range.end 1 = seq then
          let extended :=
            e.delivered.modify index fun r ↦ { r with «end» := seq, endTsNs := tsNs }
          match extended[index + 1]? with
          | some next =>
              if next.start = saturatingAdd seq 1 then
                -- the value was all that was missing between the two
                ({ e with delivered := (extended.eraseIdx (index + 1)).modify index fun r ↦
                    { r with «end» := next.end, endTsNs := next.endTsNs } }, .recorded)
              else ({ e with delivered := extended }, .recorded)
          | none => ({ e with delivered := extended }, .recorded)
        else if range.start = saturatingAdd seq 1 then
          ({ e with delivered := e.delivered.modify index fun r ↦
              { r with start := seq, startTsNs := tsNs } }, .recorded)
        else if limits.maxRangesPerEra ≤ e.delivered.length then (e, .tooManyRanges)
        else ({ e with delivered := e.delivered.insertIdx index (.single seq tsNs) }, .recorded)

def coverage (e : Era) : EraCoverage where
  ordinal := e.ordinal
  resetCount := e.resetCount
  anchorSeq := e.anchorSeq
  anchorTsNs := e.anchorTsNs
  -- an era opens with a datagram, so there is a first range and a last
  firstSeq := (e.delivered.head?.map Delivered.start).getD 0
  lastSeq := (e.delivered.getLast?.map Delivered.end).getD 0
  delivered := (e.delivered.map Delivered.width).sum

/-! ## What the ranges stand for -/

/-- The ranges of an era stand for a set of values, none further from another than a jump. -/
structure Holds (e : Era) (S : Finset ℕ) : Prop where
  separated : Separated e.spans
  covered_eq : covered e.spans = S
  nonempty : e.delivered ≠ []
  le_max : ∀ m ∈ S, m ≤ U64_MAX
  near : ∀ m ∈ S, ∀ m' ∈ S, m ≤ m' + MAX_FORWARD_JUMP

theorem holds_opened (ordinal resetCount tsNs : ℕ) {seq : ℕ} (hseq : seq ≤ U64_MAX) :
    (opened ordinal resetCount seq tsNs).Holds {seq} where
  separated := ⟨by simp [spans, opened], by simp [spans, opened]⟩
  covered_eq := by simp [spans, opened, covered]
  nonempty := by simp [opened]
  le_max := by simpa using hseq
  near := by simp

/-! ## What a delivery does -/

section

variable {α : Type*} (pre post : List α) (x y : α)

theorem modify_length_append (f : α → α) :
    (pre ++ x :: post).modify pre.length f = pre ++ f x :: post :=
  List.modifyTailIdx_add _ 0 pre (x :: post)

theorem insertIdx_length_append : (pre ++ post).insertIdx pre.length x = pre ++ x :: post :=
  List.modifyTailIdx_add _ 0 pre post

theorem eraseIdx_succ_length_append :
    (pre ++ x :: y :: post).eraseIdx (pre.length + 1) = pre ++ x :: post := by
  rw [List.eraseIdx_eq_modifyTailIdx]
  exact List.modifyTailIdx_add _ 1 pre (x :: y :: post)

theorem getElem?_length_append : (pre ++ x :: post)[pre.length]? = some x := by simp

theorem getElem?_succ_length_append : (pre ++ x :: post)[pre.length + 1]? = post.head? := by
  cases post <;> simp

end

/-- The outcomes of a delivery, told apart by where the value falls among the ranges. -/
inductive Delivers (e : Era) (seq tsNs : ℕ) : Era × Delivery → Prop where
  | refused (d : Delivery) (h : d ≠ .recorded) : Delivers e seq tsNs (e, d)
  | inside (r : Delivered) (hr : r ∈ e.delivered) (hle : r.start ≤ seq) (hle' : seq ≤ r.end) :
      Delivers e seq tsNs (e, .recorded)
  | right (pre post : List Delivered) (r : Delivered) (h : e.delivered = pre ++ r :: post)
      (hnear : e.distant seq = false) (hnext : seq = r.end + 1)
      (hpost : ∀ s ∈ post, s.start ≠ seq + 1) :
      Delivers e seq tsNs
        ({ e with delivered := pre ++ { r with «end» := seq, endTsNs := tsNs } :: post }, .recorded)
  | bridge (pre post : List Delivered) (r s : Delivered) (h : e.delivered = pre ++ r :: s :: post)
      (hnear : e.distant seq = false) (hleft : seq = r.end + 1) (hright : s.start = seq + 1) :
      Delivers e seq tsNs
        ({ e with delivered := pre ++ { r with «end» := s.end, endTsNs := s.endTsNs } :: post },
          .recorded)
  | left (pre post : List Delivered) (r : Delivered) (h : e.delivered = pre ++ r :: post)
      (hnear : e.distant seq = false) (hnext : r.start = seq + 1)
      (hpre : ∀ s ∈ pre, s.end + 1 < seq) :
      Delivers e seq tsNs
        ({ e with delivered := pre ++ { r with start := seq, startTsNs := tsNs } :: post },
          .recorded)
  | new (pre post : List Delivered) (h : e.delivered = pre ++ post)
      (hnear : e.distant seq = false) (hpre : ∀ s ∈ pre, s.end + 1 < seq)
      (hpost : ∀ s ∈ post, seq + 1 < s.start) :
      Delivers e seq tsNs ({ e with delivered := pre ++ .single seq tsNs :: post }, .recorded)

theorem saturatingAdd_one_lt {a b : ℕ} (hb : b ≤ U64_MAX) : saturatingAdd a 1 < b ↔ a + 1 < b := by
  rw [saturatingAdd, min_lt_iff]
  omega

/-- The list of ranges, cut at the slot of a value. -/
theorem exists_slot (e : Era) {seq : ℕ} (hseq : seq ≤ U64_MAX) :
    ∃ pre post, e.delivered = pre ++ post ∧ e.slot seq = pre.length ∧
      (∀ s ∈ pre, s.end + 1 < seq) ∧ ∀ s ∈ post.head?, seq ≤ s.end + 1 := by
  refine ⟨_, _, (List.takeWhile_append_dropWhile (l := e.delivered)
    (p := fun range ↦ decide (saturatingAdd range.end 1 < seq))).symm, rfl, fun s hs ↦ ?_,
    fun s hs ↦ ?_⟩
  · have hp := List.mem_takeWhile_imp hs
    exact (saturatingAdd_one_lt hseq).mp (of_decide_eq_true hp)
  · have hp := List.head?_dropWhile_not
      (fun range : Delivered ↦ decide (saturatingAdd range.end 1 < seq)) e.delivered
    rw [Option.mem_def.mp hs] at hp
    have hnot : ¬saturatingAdd s.end 1 < seq := by simpa using hp
    rw [saturatingAdd_one_lt hseq] at hnot
    omega

theorem Holds.mem_iff {e : Era} {S : Finset ℕ} (h : e.Holds S) {m : ℕ} :
    m ∈ S ↔ ∃ r ∈ e.delivered, r.start ≤ m ∧ m ≤ r.end := by
  rw [← h.covered_eq, Ranges.mem_covered, spans]
  simp [Delivered.span]

/-- The ends of a range are in order, and are delivered. -/
theorem Holds.ends {e : Era} {S : Finset ℕ} (h : e.Holds S) {r : Delivered}
    (hr : r ∈ e.delivered) : r.start ≤ r.end ∧ r.start ∈ S ∧ r.end ∈ S := by
  have hle : r.start ≤ r.end := h.separated.le r.span (List.mem_map_of_mem hr)
  exact ⟨hle, h.mem_iff.mpr ⟨r, hr, Nat.le_refl _, hle⟩, h.mem_iff.mpr ⟨r, hr, hle, Nat.le_refl _⟩⟩

/-- Later ranges lie beyond the one after an earlier one's end. -/
theorem Holds.after {e : Era} {S : Finset ℕ} (h : e.Holds S) {pre post : List Delivered}
    {r : Delivered} (hcut : e.delivered = pre ++ r :: post) :
    ∀ s ∈ post, r.end + 1 < s.start := by
  have hapart := List.pairwise_map.mp h.separated.apart
  rw [hcut] at hapart
  exact (List.pairwise_cons.mp (List.pairwise_append.mp hapart).2.1).1

theorem Holds.delivers {e : Era} {S : Finset ℕ} (h : e.Holds S) {seq : ℕ} (hseq : seq ≤ U64_MAX)
    (tsNs : ℕ) (limits : DeriverLimits) : e.Delivers seq tsNs (e.deliver seq tsNs limits) := by
  obtain ⟨pre, post, hcut, hslot, hpre, hpost⟩ := e.exists_slot hseq
  unfold deliver
  split
  next => exact .refused _ (by simp)
  next hnear =>
      rw [Bool.not_eq_true] at hnear
      dsimp only
      rw [hslot, hcut]
      cases post with
      | nil =>
          rw [List.append_nil, List.getElem?_eq_none (Nat.le_refl _)]
          dsimp only
          split
          next => exact .refused _ (by simp)
          next => exact .new pre [] hcut hnear hpre (by simp)
      | cons r post =>
          have hr : r ∈ e.delivered := by simp [hcut]
          have hends := (h.ends hr).1
          have hmax := h.le_max _ (h.ends hr).2.2
          have hafter := h.after hcut
          have hreach := hpost r (by simp)
          rw [getElem?_length_append]
          dsimp only
          split
          next hinside => exact .inside r hr hinside.1 hinside.2
          next hinside =>
              split
              next hright =>
                  have hnext : seq = r.end + 1 := by
                    unfold saturatingAdd at hright
                    omega
                  rw [modify_length_append, getElem?_succ_length_append]
                  cases post with
                  | nil => exact .right pre [] r hcut hnear hnext (by simp)
                  | cons s post =>
                      have hs : s ∈ e.delivered := by simp [hcut]
                      have hends' := (h.ends hs).1
                      have hmax' := h.le_max _ (h.ends hs).2.2
                      have hbeyond := hafter s List.mem_cons_self
                      -- there is a range beyond the value, so its successor is a word
                      have hsucc : saturatingAdd seq 1 = seq + 1 := by
                        unfold saturatingAdd
                        omega
                      rw [List.head?_cons, hsucc]
                      dsimp only
                      split
                      next hbridge =>
                          rw [eraseIdx_succ_length_append, modify_length_append]
                          exact .bridge pre post r s hcut hnear hnext hbridge
                      next hbridge =>
                          have hlater := h.after (hcut.trans (List.append_cons pre r (s :: post)))
                          refine .right pre (s :: post) r hcut hnear hnext ?_
                          refine List.forall_mem_cons.mpr ⟨hbridge, fun t ht ↦ ?_⟩
                          have := hlater t ht
                          omega
              next hright =>
                  have hbefore : seq < r.start := by
                    unfold saturatingAdd at hright
                    omega
                  have hsucc : saturatingAdd seq 1 = seq + 1 := by
                    unfold saturatingAdd
                    omega
                  rw [hsucc]
                  split
                  next hleft =>
                      rw [modify_length_append]
                      exact .left pre post r hcut hnear hleft hpre
                  next hleft =>
                      split
                      next => exact .refused _ (by simp)
                      next =>
                          rw [insertIdx_length_append]
                          refine .new pre (r :: post) hcut hnear hpre ?_
                          refine List.forall_mem_cons.mpr ⟨by omega, fun s hs ↦ ?_⟩
                          have := hafter s hs
                          omega

/-! ## Every delivery keeps the set -/

/-- The set, once the answer to a delivery is known. -/
def record (S : Finset ℕ) (seq : ℕ) : Delivery → Finset ℕ
  | .recorded => insert seq S
  | .tooManyRanges | .tooDistant => S

theorem spans_eq {e : Era} {pre post : List Delivered} (h : e.delivered = pre ++ post) :
    e.spans = pre.map Delivered.span ++ post.map Delivered.span := by
  rw [spans, h, List.map_append]

theorem forall_mem_map_span {l : List Delivered} {P : ℕ × ℕ → Prop} :
    (∀ r ∈ l.map Delivered.span, P r) ↔ ∀ r ∈ l, P (r.start, r.end) := by
  simp [Delivered.span]

/-- The first range of an era and the last. -/
theorem Holds.exists_ends {e : Era} {S : Finset ℕ} (h : e.Holds S) :
    ∃ first last, e.delivered.head? = some first ∧ e.delivered.getLast? = some last ∧
      first.start ∈ S ∧ last.end ∈ S ∧ ∀ m ∈ S, first.start ≤ m ∧ m ≤ last.end := by
  obtain ⟨first, rest, hcut⟩ := List.exists_cons_of_ne_nil h.nonempty
  obtain ⟨last, hlast⟩ : ∃ last, e.delivered.getLast h.nonempty = last := ⟨_, rfl⟩
  have hmem : last ∈ e.delivered := hlast ▸ List.getLast_mem h.nonempty
  have hne : e.spans ≠ [] := by simpa [spans] using h.nonempty
  have hspans : e.spans.getLast hne = last.span := by
    rw [← hlast]
    exact List.getLast_map ..
  refine ⟨first, last, by rw [hcut, List.head?_cons], ?_, (h.ends (by simp [hcut])).2.1,
    (h.ends hmem).2.2, fun m hm ↦ ?_⟩
  · rw [List.getLast?_eq_some_getLast h.nonempty, hlast]
  · rw [← h.covered_eq] at hm
    have hle := Ranges.le_last_of_mem_covered h.separated hne hm
    rw [hspans] at hle
    have hsep := h.separated
    rw [spans, hcut, List.map_cons] at hsep hm
    exact ⟨Ranges.le_of_mem_covered hsep hm, hle⟩

/-- A value that is not too distant is within a jump of every other. -/
theorem Holds.near_of_not_distant {e : Era} {S : Finset ℕ} (h : e.Holds S) {seq : ℕ}
    (hnear : e.distant seq = false) :
    ∀ m ∈ S, m ≤ seq + MAX_FORWARD_JUMP ∧ seq ≤ m + MAX_FORWARD_JUMP := by
  obtain ⟨first, last, hfirst, hlast, -, -, hends⟩ := h.exists_ends
  rw [distant, hfirst, hlast] at hnear
  intro m hm
  have := hends m hm
  have hspan := of_decide_eq_false hnear
  omega

/-- Adding a value that is near enough. -/
theorem Holds.adopt {e e' : Era} {S : Finset ℕ} (h : e.Holds S) {seq : ℕ} (hseq : seq ≤ U64_MAX)
    (hnear : e.distant seq = false) (hne : e'.delivered ≠ [])
    (hadd : Separated e'.spans ∧ covered e'.spans = insert seq (covered e.spans)) :
    e'.Holds (insert seq S) where
  separated := hadd.1
  covered_eq := by rw [hadd.2, h.covered_eq]
  nonempty := hne
  le_max := (Finset.forall_mem_insert _ _ _).mpr ⟨hseq, h.le_max⟩
  near := by
    have hdist := h.near_of_not_distant hnear
    refine (Finset.forall_mem_insert _ _ _).mpr ⟨?_, fun m hm ↦ ?_⟩
    · exact (Finset.forall_mem_insert _ _ _).mpr ⟨Nat.le_add_right _ _, fun m hm ↦ (hdist m hm).2⟩
    · exact (Finset.forall_mem_insert _ _ _).mpr ⟨(hdist m hm).1, h.near m hm⟩

theorem Holds.deliver {e : Era} {S : Finset ℕ} (h : e.Holds S) {seq : ℕ} (hseq : seq ≤ U64_MAX)
    (tsNs : ℕ) (limits : DeriverLimits) :
    (e.deliver seq tsNs limits).1.Holds (record S seq (e.deliver seq tsNs limits).2) := by
  have hsep := h.separated
  generalize e.deliver seq tsNs limits = out, h.delivers hseq tsNs limits = hout
  cases hout with
  | refused d hd => cases d <;> first | exact h | exact absurd rfl hd
  | inside r hr hle hle' =>
      have hmem : seq ∈ S := by
        rw [← h.covered_eq]
        exact Ranges.mem_covered.mpr ⟨_, List.mem_map_of_mem hr, hle, hle'⟩
      show e.Holds (insert seq S)
      rwa [Finset.insert_eq_of_mem hmem]
  | right pre post r hcut hnear hnext hpost =>
      refine h.adopt hseq hnear (by simp) ?_
      rw [spans_eq hcut] at hsep ⊢
      rw [spans_eq rfl]
      exact Ranges.add_right hsep hnext (forall_mem_map_span.mpr hpost)
  | bridge pre post r s hcut hnear hleft hright =>
      refine h.adopt hseq hnear (by simp) ?_
      rw [spans_eq hcut] at hsep ⊢
      rw [spans_eq rfl]
      exact Ranges.add_bridge hsep hleft hright
  | left pre post r hcut hnear hnext hpre =>
      refine h.adopt hseq hnear (by simp) ?_
      rw [spans_eq hcut] at hsep ⊢
      rw [spans_eq rfl]
      exact Ranges.add_left hsep hnext (forall_mem_map_span.mpr hpre)
  | new pre post hcut hnear hpre hpost =>
      refine h.adopt hseq hnear (by simp) ?_
      rw [spans_eq hcut] at hsep ⊢
      rw [spans_eq rfl]
      exact Ranges.add_new hsep (forall_mem_map_span.mpr hpre) (forall_mem_map_span.mpr hpost)

/-- A delivery moves the ranges of an era and nothing else. -/
theorem Holds.deliver_resetCount {e : Era} {S : Finset ℕ} (h : e.Holds S) {seq : ℕ}
    (hseq : seq ≤ U64_MAX) (tsNs : ℕ) (limits : DeriverLimits) :
    (e.deliver seq tsNs limits).1.resetCount = e.resetCount := by
  generalize e.deliver seq tsNs limits = out, h.delivers hseq tsNs limits = hout
  cases hout <;> rfl

theorem Holds.deliver_ordinal {e : Era} {S : Finset ℕ} (h : e.Holds S) {seq : ℕ}
    (hseq : seq ≤ U64_MAX) (tsNs : ℕ) (limits : DeriverLimits) :
    (e.deliver seq tsNs limits).1.ordinal = e.ordinal := by
  generalize e.deliver seq tsNs limits = out, h.delivers hseq tsNs limits = hout
  cases hout <;> rfl

/-- What is refused changes nothing. -/
theorem Holds.deliver_refused {e : Era} {S : Finset ℕ} (h : e.Holds S) {seq : ℕ}
    (hseq : seq ≤ U64_MAX) {tsNs : ℕ} {limits : DeriverLimits}
    (hd : (e.deliver seq tsNs limits).2 ≠ .recorded) : (e.deliver seq tsNs limits).1 = e := by
  generalize e.deliver seq tsNs limits = out, h.delivers hseq tsNs limits = hout at hd ⊢
  cases hout with
  | refused => rfl
  | inside | right | bridge | left | new => exact absurd rfl hd

/-! ## What the report says of an era -/

/-- A range of an era is as wide as its numbers are many. -/
theorem Holds.width_eq {e : Era} {S : Finset ℕ} (h : e.Holds S) {r : Delivered}
    (hr : r ∈ e.delivered) : r.width = width r.span := by
  have hnear := h.near _ (h.ends hr).2.2 _ (h.ends hr).2.1
  have hjump : MAX_FORWARD_JUMP + 1 ≤ U64_MAX := by decide
  rw [Delivered.width, saturatingAdd, min_eq_left (by omega)]
  rfl

/-- The figures of an era are those of its set, and none of the sums is cut off. -/
structure Exact (e : Era) (S : Finset ℕ) : Prop where
  first_mem : e.coverage.firstSeq ∈ S
  last_mem : e.coverage.lastSeq ∈ S
  ends : ∀ m ∈ S, e.coverage.firstSeq ≤ m ∧ m ≤ e.coverage.lastSeq
  delivered : e.coverage.delivered = S.card
  referenceSeqs : e.coverage.referenceSeqs = e.coverage.lastSeq - e.coverage.firstSeq + 1
  bounded : e.coverage.referenceSeqs ≤ MAX_FORWARD_JUMP + 1
  missing : e.coverage.missing = ((gaps e.spans).map width).sum
  account : e.coverage.missing + e.coverage.delivered = e.coverage.referenceSeqs

theorem Holds.exact {e : Era} {S : Finset ℕ} (h : e.Holds S) : e.Exact S := by
  obtain ⟨first, last, hfirst, hlast, hmem, hmem', hends⟩ := h.exists_ends
  have hfirstSeq : e.coverage.firstSeq = first.start := by
    rw [Era.coverage, hfirst]
    rfl
  have hlastSeq : e.coverage.lastSeq = last.end := by
    rw [Era.coverage, hlast]
    rfl
  have hnear := h.near _ hmem' _ hmem
  have hjump : MAX_FORWARD_JUMP + 1 ≤ U64_MAX := by decide
  have href : e.coverage.referenceSeqs = last.end - first.start + 1 := by
    rw [EraCoverage.referenceSeqs, hfirstSeq, hlastSeq, saturatingAdd, min_eq_left (by omega)]
  have hdelivered : e.coverage.delivered = (e.spans.map width).sum := by
    show (e.delivered.map Delivered.width).sum = ((e.delivered.map Delivered.span).map width).sum
    rw [List.map_map]
    exact congrArg List.sum (List.map_congr_left fun r hr ↦ h.width_eq hr)
  have hspan : ((gaps e.spans).map width).sum + (e.spans.map width).sum =
      last.end - first.start + 1 := by
    refine Ranges.sum_width_gaps (r := first.span) (s := last.span) h.separated ?_ ?_
    · rw [spans, List.head?_map, hfirst, Option.map_some]
    · rw [spans, List.getLast?_map, hlast, Option.map_some]
  refine ⟨by rwa [hfirstSeq], by rwa [hlastSeq], by rwa [hfirstSeq, hlastSeq], ?_, ?_, ?_, ?_, ?_⟩
  · rw [hdelivered, ← Ranges.card_covered h.separated, h.covered_eq]
  · rw [href, hlastSeq, hfirstSeq]
  · omega
  · rw [EraCoverage.missing]
    omega
  · rw [EraCoverage.missing]
    omega

end Era

end EdgeMulticast.Loss
