import EdgeMulticast.Loss.Window

/-!
# What looked absent and what is

`missingOnArrival` counts the values that a datagram skipped when it arrived, and `missing` those
that no era ends up holding.  A value that was counted and arrives late is the difference of the
two, as long as nothing is missing that was not counted: an arrival below the value that opened
an era, or a straggler beyond the previous one, leaves a space that no datagram skipped, and an era
that is refused is a reset without a transition (`disordered`).

`Late` follows which values have been counted and which of these have arrived.  `ordered` says that
in a run of ordinary datagrams the two figures differ by the number of the latter.
-/

namespace EdgeMulticast.Loss

open EdgeMulticast.Lib
open EdgeMulticast.Lib.Ranges (covered)
open EdgeMulticast.Recorder (ChannelInstance PortRole)

/-! ## The figures of an era that is delivered one value more -/

namespace Era

variable {e e' : Era} {S : Finset ℕ} {n : ℕ}

/-- The ends of an era are the ends of its set. -/
theorem Exact.ends_unique (h : e.Exact S) {lo hi : ℕ} (hlo : lo ∈ S) (hhi : hi ∈ S)
    (hall : ∀ m ∈ S, lo ≤ m ∧ m ≤ hi) : e.coverage.firstSeq = lo ∧ e.coverage.lastSeq = hi :=
  ⟨le_antisymm (h.ends lo hlo).1 (hall _ h.first_mem).1,
    le_antisymm (hall _ h.last_mem).2 (h.ends hi hhi).2⟩

/-- A value beyond the last leaves the values between them missing. -/
theorem Exact.above (h : e.Exact S) (h' : e'.Exact (insert n S))
    (hn : e.coverage.lastSeq < n) :
    e'.coverage.firstSeq = e.coverage.firstSeq ∧ e'.coverage.lastSeq = n ∧
      e'.coverage.missing = e.coverage.missing + (n - e.coverage.lastSeq - 1) := by
  have hnot : n ∉ S := fun hin ↦ absurd (h.ends n hin).2 (Nat.not_le.mpr hn)
  have hspan := (h.ends _ h.last_mem).1
  obtain ⟨hfirst, hlast⟩ := h'.ends_unique (Finset.mem_insert_of_mem h.first_mem)
    (Finset.mem_insert_self n S) fun m hm ↦ by
      rcases Finset.mem_insert.mp hm with rfl | hm
      · exact ⟨hspan.trans hn.le, Nat.le_refl _⟩
      · exact ⟨(h.ends m hm).1, (h.ends m hm).2.trans hn.le⟩
  have haccount := h.account
  have haccount' := h'.account
  rw [h.delivered, h.referenceSeqs] at haccount
  rw [h'.delivered, h'.referenceSeqs, Finset.card_insert_of_notMem hnot, hfirst, hlast] at haccount'
  exact ⟨hfirst, hlast, by omega⟩

/-- A value right below the first. -/
theorem Exact.below (h : e.Exact S) (h' : e'.Exact (insert n S))
    (hn : n + 1 = e.coverage.firstSeq) :
    e'.coverage.firstSeq = n ∧ e'.coverage.lastSeq = e.coverage.lastSeq ∧
      e'.coverage.missing = e.coverage.missing := by
  have hnot : n ∉ S := fun hin ↦ absurd (h.ends n hin).1 (by omega)
  have hspan := (h.ends _ h.last_mem).1
  obtain ⟨hfirst, hlast⟩ := h'.ends_unique (Finset.mem_insert_self n S)
    (Finset.mem_insert_of_mem h.last_mem) fun m hm ↦ by
      rcases Finset.mem_insert.mp hm with rfl | hm
      · omega
      · have := h.ends m hm
        omega
  have haccount := h.account
  have haccount' := h'.account
  rw [h.delivered, h.referenceSeqs] at haccount
  rw [h'.delivered, h'.referenceSeqs, Finset.card_insert_of_notMem hnot, hfirst, hlast] at haccount'
  exact ⟨hfirst, hlast, by omega⟩

/-- A value that was missing. -/
theorem Exact.between (h : e.Exact S) (h' : e'.Exact (insert n S)) (hnot : n ∉ S)
    (hlo : e.coverage.firstSeq ≤ n) (hhi : n ≤ e.coverage.lastSeq) :
    e'.coverage.firstSeq = e.coverage.firstSeq ∧ e'.coverage.lastSeq = e.coverage.lastSeq ∧
      e'.coverage.missing + 1 = e.coverage.missing := by
  obtain ⟨hfirst, hlast⟩ := h'.ends_unique (Finset.mem_insert_of_mem h.first_mem)
    (Finset.mem_insert_of_mem h.last_mem) fun m hm ↦ by
      rcases Finset.mem_insert.mp hm with rfl | hm
      · exact ⟨hlo, hhi⟩
      · exact h.ends m hm
  have haccount := h.account
  have haccount' := h'.account
  rw [h.delivered, h.referenceSeqs] at haccount
  rw [h'.delivered, h'.referenceSeqs, Finset.card_insert_of_notMem hnot, hfirst, hlast] at haccount'
  have hle : S.card + 1 ≤ e.coverage.lastSeq - e.coverage.firstSeq + 1 := by
    rw [← Finset.card_insert_of_notMem hnot, ← h'.delivered, ← hfirst, ← hlast, ← h'.referenceSeqs]
    exact Nat.le.intro ((Nat.add_comm _ _).trans h'.account)
  exact ⟨hfirst, hlast, by omega⟩

/-- A value that was there already. -/
theorem Exact.inside (h : e.Exact S) (h' : e'.Exact S) :
    e'.coverage.firstSeq = e.coverage.firstSeq ∧ e'.coverage.lastSeq = e.coverage.lastSeq ∧
      e'.coverage.missing = e.coverage.missing := by
  obtain ⟨hfirst, hlast⟩ := h'.ends_unique h.first_mem h.last_mem h.ends
  have haccount := h.account
  have haccount' := h'.account
  rw [h.delivered, h.referenceSeqs] at haccount
  rw [h'.delivered, h'.referenceSeqs, hfirst, hlast] at haccount'
  exact ⟨hfirst, hlast, by omega⟩

end Era

/-! ## What has been counted, and what of it has arrived -/

/-- The values counted missing when a later one arrived, and those of them that arrived after
all.  A value goes with the index of its era. -/
structure Late where
  counted : Finset (ℕ × ℕ)
  filled : Finset (ℕ × ℕ)

namespace Late

/-- A value arrives in an era. -/
def arrive (g : Late) (index seq : ℕ) : Late :=
  if (index, seq) ∈ g.counted then { g with filled := insert (index, seq) g.filled } else g

/-- The values after one and before another are counted missing. -/
def skip (g : Late) (index low high : ℕ) : Late :=
  { g with counted := g.counted ∪ (Finset.Ioo low high).image (Prod.mk index) }

theorem arrive_of_notMem {g : Late} {index seq : ℕ} (h : (index, seq) ∉ g.counted) :
    g.arrive index seq = g := if_neg h

theorem mem_skip {g : Late} {index low high j m : ℕ} :
    (j, m) ∈ (g.skip index low high).counted ↔
      (j, m) ∈ g.counted ∨ (j = index ∧ low < m ∧ m < high) := by
  simp only [skip, Finset.mem_union, Finset.mem_image, Finset.mem_Ioo, Prod.mk.injEq]
  constructor
  · rintro (h | ⟨v, hv, rfl, rfl⟩)
    · exact .inl h
    · exact .inr ⟨rfl, hv⟩
  · rintro (h | ⟨rfl, hv⟩)
    · exact .inl h
    · exact .inr ⟨m, hv, rfl, rfl⟩

end Late

namespace InstanceState

/-- What a datagram adds to the values counted and to those filled. -/
def note (s : InstanceState) (g : Late) (dg : RecordedDatagram) : Late :=
  match s.eraOfStraggler dg.resetCount dg.sequenceNumber with
  | some index => g.arrive index dg.sequenceNumber
  | none =>
      match (s.sequence.observe dg.sequenceNumber dg.resetCount).2 with
      | .gap _ => g.skip (s.eras.length - 1) s.sequence.highest dg.sequenceNumber
      | .inOrder | .duplicate | .reordered _ | .backward _ =>
          g.arrive (s.eras.length - 1) dg.sequenceNumber
      | .opened | .reset _ | .forwardJump _ => g

/-- The sum of what the eras have missing. -/
def missingOf (eras : List Era) : ℕ := (eras.map fun era ↦ era.coverage.missing).sum

theorem missingOf_set {eras : List Era} {i : ℕ} {e f : Era} (h : eras[i]? = some e) :
    missingOf (eras.set i f) + e.coverage.missing = missingOf eras + f.coverage.missing := by
  induction eras generalizing i with
  | nil => exact absurd h (by simp)
  | cons a eras ih =>
      cases i with
      | zero =>
          obtain rfl : a = e := by simpa using h
          simp only [missingOf, List.set_cons_zero, List.map_cons, List.sum_cons]
          omega
      | succ i =>
          have hrest := ih (i := i) (by simpa using h)
          simp only [missingOf, List.set_cons_succ, List.map_cons, List.sum_cons] at hrest ⊢
          omega

/-- The eras account for what has been counted: whatever they have missing has been counted and
has not arrived, and nothing else that was counted lies outside them. -/
structure Accounts (eras : List Era) (g : Late) (total : ℕ) : Prop where
  sub : g.filled ⊆ g.counted
  inside : ∀ i m, (i, m) ∈ g.counted →
    ∃ e, eras[i]? = some e ∧ e.coverage.firstSeq ≤ m ∧ m ≤ e.coverage.lastSeq
  missing : ∀ i e, eras[i]? = some e → ∀ m, e.coverage.firstSeq ≤ m → m ≤ e.coverage.lastSeq →
    m ∉ covered e.spans → (i, m) ∈ g.counted ∧ (i, m) ∉ g.filled
  filled : ∀ i e, eras[i]? = some e → ∀ m ∈ covered e.spans, (i, m) ∈ g.counted → (i, m) ∈ g.filled
  total : missingOf eras + g.filled.card = total

variable {eras : List Era} {g : Late} {total i n : ℕ} {e e' : Era} {S : Finset ℕ}

theorem getElem?_append_singleton {α : Type*} {l : List α} {a b : α} {j : ℕ}
    (h : (l ++ [a])[j]? = some b) : l[j]? = some b ∨ j = l.length ∧ a = b := by
  rcases Nat.lt_trichotomy j l.length with hlt | heq | hgt
  · rw [List.getElem?_append_left hlt] at h
    exact .inl h
  · rw [heq, List.getElem?_concat_length] at h
    exact .inr ⟨heq, Option.some.inj h⟩
  · rw [List.getElem?_eq_none (by simp; omega)] at h
    exact absurd h (by simp)

/-- A new era has nothing missing. -/
theorem Accounts.push (h : Accounts eras g total) (he : e.Holds {n}) :
    Accounts (eras ++ [e]) g total := by
  have hfirst := Finset.mem_singleton.mp he.exact.first_mem
  have hlast := Finset.mem_singleton.mp he.exact.last_mem
  have haccount := he.exact.account
  rw [he.exact.delivered, he.exact.referenceSeqs, Finset.card_singleton, hfirst, hlast] at haccount
  -- the index of the new era is that of no era that was there
  have hnot : ∀ m, (eras.length, m) ∉ g.counted := by
    intro m hm
    obtain ⟨e', he', -⟩ := h.inside _ _ hm
    exact absurd he' (by simp)
  refine ⟨h.sub, ?_, ?_, ?_, ?_⟩
  · intro j m hm
    obtain ⟨e', he', hends⟩ := h.inside j m hm
    exact ⟨e', by rwa [List.getElem?_append_left (List.getElem?_eq_some_iff.mp he').1], hends⟩
  · intro j e' he' m hlo hhi hm
    rcases getElem?_append_singleton he' with he' | ⟨rfl, rfl⟩
    · exact h.missing j e' he' m hlo hhi hm
    · rw [he.covered_eq, Finset.mem_singleton] at hm
      omega
  · intro j e' he' m hm hcounted
    rcases getElem?_append_singleton he' with he' | ⟨rfl, rfl⟩
    · exact h.filled j e' he' m hm hcounted
    · exact absurd hcounted (hnot m)
  · have htotal := h.total
    simp only [missingOf, List.map_append, List.sum_append, List.map_cons, List.map_nil,
      List.sum_cons, List.sum_nil] at htotal ⊢
    omega

/-- An era may be replaced by one that accounts for its own part. -/
theorem Accounts.set {g' : Late} {total' : ℕ} (h : Accounts eras g total) (hi : eras[i]? = some e)
    (hsub : g'.filled ⊆ g'.counted)
    (hothers : ∀ j m, j ≠ i → ((j, m) ∈ g'.counted ↔ (j, m) ∈ g.counted) ∧
      ((j, m) ∈ g'.filled ↔ (j, m) ∈ g.filled))
    (hinside : ∀ m, (i, m) ∈ g'.counted →
      e'.coverage.firstSeq ≤ m ∧ m ≤ e'.coverage.lastSeq)
    (hmissing : ∀ m, e'.coverage.firstSeq ≤ m → m ≤ e'.coverage.lastSeq → m ∉ covered e'.spans →
      (i, m) ∈ g'.counted ∧ (i, m) ∉ g'.filled)
    (hfilled : ∀ m ∈ covered e'.spans, (i, m) ∈ g'.counted → (i, m) ∈ g'.filled)
    (htotal : e'.coverage.missing + g'.filled.card + total =
      e.coverage.missing + g.filled.card + total') :
    Accounts (eras.set i e') g' total' := by
  have hlt : i < eras.length := (List.getElem?_eq_some_iff.mp hi).1
  refine ⟨hsub, ?_, ?_, ?_, ?_⟩
  · intro j m hm
    by_cases hj : j = i
    · subst hj
      exact ⟨e', List.getElem?_set_self hlt, hinside m hm⟩
    · rw [List.getElem?_set_ne fun heq ↦ hj heq.symm]
      exact h.inside j m ((hothers j m hj).1.mp hm)
  · intro j e'' he'' m hlo hhi hm
    by_cases hj : j = i
    · subst hj
      rw [List.getElem?_set_self hlt] at he''
      obtain rfl := Option.some.inj he''
      exact hmissing m hlo hhi hm
    · rw [List.getElem?_set_ne fun heq ↦ hj heq.symm] at he''
      rw [(hothers j m hj).1, (hothers j m hj).2]
      exact h.missing j e'' he'' m hlo hhi hm
  · intro j e'' he'' m hm
    by_cases hj : j = i
    · subst hj
      rw [List.getElem?_set_self hlt] at he''
      obtain rfl := Option.some.inj he''
      exact hfilled m hm
    · rw [List.getElem?_set_ne fun heq ↦ hj heq.symm] at he''
      rw [(hothers j m hj).1, (hothers j m hj).2]
      exact h.filled j e'' he'' m hm
  · have hold := h.total
    have hset := missingOf_set (f := e') hi
    omega

/-- What is counted of an era lies in it. -/
theorem Accounts.ends (h : Accounts eras g total) (hi : eras[i]? = some e) {m : ℕ}
    (hm : (i, m) ∈ g.counted) : e.coverage.firstSeq ≤ m ∧ m ≤ e.coverage.lastSeq := by
  obtain ⟨e'', he'', hends⟩ := h.inside i m hm
  obtain rfl := Option.some.inj (hi.symm.trans he'')
  exact hends

/-- A value beyond the last of its era, with the values between counted. -/
theorem Accounts.above (h : Accounts eras g total) (hi : eras[i]? = some e) (he : e.Holds S)
    (he' : e'.Holds (insert n S)) (hn : e.coverage.lastSeq < n) :
    Accounts (eras.set i e') (g.skip i e.coverage.lastSeq n)
      (total + (n - e.coverage.lastSeq - 1)) := by
  obtain ⟨hfirst, hlast, hmiss⟩ := he.exact.above he'.exact hn
  have hspan := (he.exact.ends _ he.exact.last_mem).1
  refine h.set hi (h.sub.trans Finset.subset_union_left) (fun j m hj ↦ ⟨?_, Iff.rfl⟩)
    (fun m hm ↦ ?_) (fun m hlo hhi hm ↦ ?_) (fun m hm hcounted ↦ ?_) ?_
  · rw [Late.mem_skip]
    exact or_iff_left fun hand ↦ hj hand.1
  · rw [hfirst, hlast]
    rcases Late.mem_skip.mp hm with hm | ⟨-, hlo, hhi⟩
    · have := h.ends hi hm
      omega
    · omega
  · rw [he'.covered_eq, Finset.mem_insert, not_or] at hm
    rw [hfirst] at hlo
    rw [hlast] at hhi
    rw [Late.mem_skip]
    by_cases hle : m ≤ e.coverage.lastSeq
    · obtain ⟨hcounted, hnot⟩ := h.missing i e hi m hlo hle (he.covered_eq ▸ hm.2)
      exact ⟨.inl hcounted, hnot⟩
    · exact ⟨.inr ⟨rfl, by omega, by omega⟩, fun hin ↦ hle (h.ends hi (h.sub hin)).2⟩
  · rw [he'.covered_eq, Finset.mem_insert] at hm
    rcases Late.mem_skip.mp hcounted with hold | ⟨-, hlo, hhi⟩
    · rcases hm with rfl | hm
      · exact absurd (h.ends hi hold).2 (Nat.not_le.mpr hn)
      · exact h.filled i e hi m (he.covered_eq ▸ hm) hold
    · rcases hm with rfl | hm
      · exact absurd hhi (Nat.lt_irrefl _)
      · exact absurd (he.exact.ends m hm).2 (Nat.not_le.mpr hlo)
  · rw [hmiss]
    show _ + g.filled.card + _ = _
    omega

/-- A value right below the first of its era. -/
theorem Accounts.below (h : Accounts eras g total) (hi : eras[i]? = some e) (he : e.Holds S)
    (he' : e'.Holds (insert n S)) (hn : n + 1 = e.coverage.firstSeq) :
    Accounts (eras.set i e') (g.arrive i n) total := by
  obtain ⟨hfirst, hlast, hmiss⟩ := he.exact.below he'.exact hn
  have hnot : (i, n) ∉ g.counted := by
    intro hin
    have := (h.ends hi hin).1
    omega
  rw [Late.arrive_of_notMem hnot]
  refine h.set hi h.sub (fun j m hj ↦ ⟨Iff.rfl, Iff.rfl⟩) (fun m hm ↦ ?_)
    (fun m hlo hhi hm ↦ ?_) (fun m hm hcounted ↦ ?_) (by rw [hmiss])
  · have := h.ends hi hm
    omega
  · rw [he'.covered_eq, Finset.mem_insert, not_or] at hm
    exact h.missing i e hi m (by omega) (by omega) (he.covered_eq ▸ hm.2)
  · rw [he'.covered_eq, Finset.mem_insert] at hm
    rcases hm with rfl | hm
    · exact absurd hcounted hnot
    · exact h.filled i e hi m (he.covered_eq ▸ hm) hcounted

/-- A value that was counted arrives. -/
theorem Accounts.between (h : Accounts eras g total) (hi : eras[i]? = some e) (he : e.Holds S)
    (he' : e'.Holds (insert n S)) (hnot : n ∉ S) (hlo : e.coverage.firstSeq ≤ n)
    (hhi : n ≤ e.coverage.lastSeq) : Accounts (eras.set i e') (g.arrive i n) total := by
  obtain ⟨hfirst, hlast, hmiss⟩ := he.exact.between he'.exact hnot hlo hhi
  obtain ⟨hcounted, hunfilled⟩ := h.missing i e hi n hlo hhi (by rwa [he.covered_eq])
  rw [Late.arrive, if_pos hcounted]
  refine h.set hi (Finset.insert_subset hcounted h.sub) (fun j m hj ↦ ⟨Iff.rfl, ?_⟩)
    (fun m hm ↦ ?_) (fun m hlo' hhi' hm ↦ ?_) (fun m hm hcounted' ↦ ?_) ?_
  · rw [Finset.mem_insert, Prod.mk.injEq]
    exact or_iff_right fun hand ↦ hj hand.1
  · rw [hfirst, hlast]
    exact h.ends hi hm
  · rw [he'.covered_eq, Finset.mem_insert, not_or] at hm
    obtain ⟨hin, hout⟩ := h.missing i e hi m (by omega) (by omega) (he.covered_eq ▸ hm.2)
    refine ⟨hin, ?_⟩
    rw [Finset.mem_insert, Prod.mk.injEq]
    exact not_or.mpr ⟨fun hand ↦ hm.1 hand.2, hout⟩
  · rw [he'.covered_eq, Finset.mem_insert] at hm
    rcases hm with rfl | hm
    · exact Finset.mem_insert_self _ _
    · exact Finset.mem_insert_of_mem (h.filled i e hi m (he.covered_eq ▸ hm) hcounted')
  · show _ + (insert (i, n) g.filled).card + _ = _
    rw [Finset.card_insert_of_notMem hunfilled]
    omega

/-- A value that the era holds arrives again. -/
theorem Accounts.again (h : Accounts eras g total) (hi : eras[i]? = some e) (he : e.Holds S)
    (he' : e'.Holds S) (hin : n ∈ S) : Accounts (eras.set i e') (g.arrive i n) total := by
  obtain ⟨hfirst, hlast, hmiss⟩ := he.exact.inside he'.exact
  have harrive : g.arrive i n = g := by
    unfold Late.arrive
    split
    next hcounted =>
        rw [Finset.insert_eq_of_mem (h.filled i e hi n (he.covered_eq ▸ hin) hcounted)]
    next => rfl
  rw [harrive]
  refine h.set hi h.sub (fun j m hj ↦ ⟨Iff.rfl, Iff.rfl⟩) (fun m hm ↦ ?_)
    (fun m hlo hhi hm ↦ ?_) (fun m hm ↦ ?_) (by rw [hmiss])
  · rw [hfirst, hlast]
    exact h.ends hi hm
  · rw [hfirst] at hlo
    rw [hlast] at hhi
    rw [he'.covered_eq, ← he.covered_eq] at hm
    exact h.missing i e hi m hlo hhi hm
  · rw [he'.covered_eq, ← he.covered_eq] at hm
    exact h.filled i e hi m hm

/-- A value right beyond the last of its era. -/
theorem Accounts.next (h : Accounts eras g total) (hi : eras[i]? = some e) (he : e.Holds S)
    (he' : e'.Holds (insert n S)) (hn : n = e.coverage.lastSeq + 1) :
    Accounts (eras.set i e') (g.arrive i n) total := by
  have hempty : Finset.Ioo e.coverage.lastSeq n = ∅ := by
    refine Finset.eq_empty_of_forall_notMem fun m hm ↦ ?_
    have := Finset.mem_Ioo.mp hm
    omega
  have hskip : g.skip i e.coverage.lastSeq n = g := by
    rw [Late.skip, hempty, Finset.image_empty, Finset.union_empty]
  have hnot : (i, n) ∉ g.counted := by
    intro hin
    have := (h.ends hi hin).2
    omega
  have habove := h.above hi he he' (by omega)
  rw [hskip, show n - e.coverage.lastSeq - 1 = 0 by omega, Nat.add_zero] at habove
  rwa [Late.arrive_of_notMem hnot]

/-! ## What every datagram keeps -/

/-- No backward motion, no forward jump and no refusal has been counted. -/
structure Clean (s : InstanceState) : Prop where
  backward : s.backward = 0
  forwardJumps : s.forwardJumps = 0
  erasRefused : s.erasRefused = 0
  rangesRefused : s.rangesRefused = 0
  implausible : s.implausibleDeliveries = 0

variable {s : InstanceState} {dg : RecordedDatagram} {limits : DeriverLimits}

theorem deliver_eq {index : ℕ} {era : Era} (hera : s.eras[index]? = some era) :
    s.deliver index dg limits =
      { s with
        eras := s.eras.set index (era.deliver dg.sequenceNumber dg.recvTsNs limits).1
        rangesRefused := s.rangesRefused +
          if (era.deliver dg.sequenceNumber dg.recvTsNs limits).2 = .tooManyRanges then 1 else 0
        implausibleDeliveries := s.implausibleDeliveries +
          if (era.deliver dg.sequenceNumber dg.recvTsNs limits).2 = .tooDistant then 1 else 0 } := by
  unfold InstanceState.deliver
  rw [hera]
  dsimp only
  cases (era.deliver dg.sequenceNumber dg.recvTsNs limits).2 <;> rfl

/-- A delivery after which no refusal has been counted. -/
theorem clean_of_deliver {index : ℕ} {era : Era} (hera : s.eras[index]? = some era)
    (h : (s.deliver index dg limits).Clean) :
    s.Clean ∧ (era.deliver dg.sequenceNumber dg.recvTsNs limits).2 = .recorded := by
  rw [deliver_eq hera] at h
  obtain ⟨hbackward, hforward, heras, hranges, himplausible⟩ := h
  dsimp only at hbackward hforward heras hranges himplausible
  cases hd : (era.deliver dg.sequenceNumber dg.recvTsNs limits).2 with
  | recorded =>
      simp only [hd, reduceCtorEq, if_false, Nat.add_zero] at hranges himplausible
      exact ⟨⟨hbackward, hforward, heras, hranges, himplausible⟩, rfl⟩
  | tooManyRanges => simp [hd] at hranges
  | tooDistant => simp [hd] at himplausible

/-- What holds of an instance after every datagram of an ordinary run. -/
structure Kept (s : InstanceState) (g : Late) : Prop where
  holds : ∀ era ∈ s.eras, ∃ S, era.Holds S
  fresh : s.sequence.opened = false → s.eras = [] ∧ s.resets = 0
  transitions : s.sequence.opened = true → s.eras.length = s.resets + 1
  tracks : s.Clean → ∀ era, s.eras[s.eras.length - 1]? = some era →
    s.sequence.Tracks (covered era.spans)
  accounts : s.Clean → Accounts s.eras g s.missingOnArrival
  word : s.missingOnArrival ≤ U64_MAX

/-- The datagrams of an ordinary run: a reset finds room for its era, and as long as nothing has
been refused, a straggler carries the value right after the last of its era, a value below the
first of its era is the one right below it, and the count of skipped values stays a word. -/
structure Ordinary (s : InstanceState) (limits : DeriverLimits) (dg : RecordedDatagram) : Prop where
  room : s.eraOfStraggler dg.resetCount dg.sequenceNumber = none → s.sequence.opened = true →
    dg.resetCount ≠ s.sequence.resetCount → s.eras.length < limits.maxErasPerInstance
  straggler : s.Clean → ∀ index era,
    s.eraOfStraggler dg.resetCount dg.sequenceNumber = some index → s.eras[index]? = some era →
    dg.sequenceNumber = era.coverage.lastSeq + 1
  below : s.Clean → s.GoesOn dg → ∀ era, s.eras[s.eras.length - 1]? = some era →
    s.sequence.highest < dg.sequenceNumber + REORDER_WINDOW →
    era.coverage.firstSeq ≤ dg.sequenceNumber + 1
  counter : s.Clean → s.GoesOn dg →
    s.missingOnArrival + (dg.sequenceNumber - s.sequence.highest - 1) ≤ U64_MAX

/-- A delivery keeps the eras standing for sets. -/
theorem holds_set {index : ℕ} {era : Era} (h : ∀ era ∈ s.eras, ∃ S, era.Holds S)
    (hera : s.eras[index]? = some era) :
    ∀ era' ∈ s.eras.set index (era.deliver dg.sequenceNumber dg.recvTsNs limits).1,
      ∃ S, era'.Holds S := by
  intro era' hera'
  rcases List.mem_or_eq_of_mem_set hera' with hera' | rfl
  · exact h era' hera'
  · obtain ⟨S, hS⟩ := h era (List.mem_of_getElem? hera)
    exact ⟨_, hS.deliver dg.word dg.recvTsNs limits⟩

/-- An era that takes a value. -/
theorem holds_recorded {era : Era} (h : ∃ S, era.Holds S)
    (hd : (era.deliver dg.sequenceNumber dg.recvTsNs limits).2 = .recorded) :
    era.Holds (covered era.spans) ∧
      (era.deliver dg.sequenceNumber dg.recvTsNs limits).1.Holds
        (insert dg.sequenceNumber (covered era.spans)) := by
  obtain ⟨S, hS⟩ := h
  rw [hS.covered_eq]
  have hnext := hS.deliver dg.word dg.recvTsNs limits
  rw [hd] at hnext
  exact ⟨hS, hnext⟩

/-- The datagrams that are delivered into an era: what is left to show is what becomes of the
accounts when the era takes the value. -/
theorem Kept.delivered {t : InstanceState} {g g' : Late} (h : s.Kept g) {index : ℕ} {era : Era}
    (hera : s.eras[index]? = some era) (heras : t.eras = s.eras) (hresets : t.resets = s.resets)
    (hopened : t.sequence.opened = true ∧ s.sequence.opened = true)
    (hword : t.missingOnArrival ≤ U64_MAX) (hclean : t.Clean → s.Clean)
    (htakes : ∀ era', s.Clean → t.Clean → era.Holds (covered era.spans) →
      era'.Holds (insert dg.sequenceNumber (covered era.spans)) →
      (∀ last, (s.eras.set index era')[s.eras.length - 1]? = some last →
        t.sequence.Tracks (covered last.spans)) ∧
      Accounts (s.eras.set index era') g' t.missingOnArrival) :
    (t.deliver index dg limits).Kept g' := by
  rw [← heras] at hera
  have hdelivered := @clean_of_deliver _ dg limits _ _ hera
  have hholds : ∀ era ∈ t.eras, ∃ S, era.Holds S := heras ▸ h.holds
  rw [deliver_eq hera] at hdelivered ⊢
  have htakes' := fun hc ↦ by
    obtain ⟨hS, hS'⟩ := holds_recorded (hholds era (List.mem_of_getElem? hera)) (hdelivered hc).2
    exact htakes _ (hclean (hdelivered hc).1) (hdelivered hc).1 hS hS'
  refine ⟨holds_set hholds hera, fun ho ↦ ?_, fun _ ↦ ?_, fun hc last hlast ↦ ?_, fun hc ↦ ?_,
    hword⟩
  · exact absurd (hopened.1.symm.trans ho) (by simp)
  · show (t.eras.set _ _).length = t.resets + 1
    rw [List.length_set, heras, hresets]
    exact h.transitions hopened.2
  · refine (htakes' hc).1 last ?_
    have hget : (t.eras.set index (era.deliver dg.sequenceNumber dg.recvTsNs limits).1)[
        (t.eras.set index (era.deliver dg.sequenceNumber dg.recvTsNs limits).1).length - 1]? =
          some last := hlast
    rwa [List.length_set, heras] at hget
  · have haccounts := (htakes' hc).2
    rwa [← heras] at haccounts

theorem Kept.straggler {g : Late} (h : s.Kept g) (hord : s.Ordinary limits dg) {index : ℕ}
    (hindex : s.eraOfStraggler dg.resetCount dg.sequenceNumber = some index) :
    ({ s.count dg with stragglers := s.stragglers + 1 }.deliver index dg limits).Kept
      (s.note g dg) := by
  obtain ⟨hlen, era, last, hera, -⟩ := eraOfStraggler_eq_some hindex
  have hnote : s.note g dg = g.arrive index dg.sequenceNumber := by rw [note, hindex]
  have hopened : s.sequence.opened = true := by
    by_contra hfresh
    have hnil := (h.fresh (Bool.not_eq_true _ ▸ hfresh)).1
    simp [hnil] at hlen
  rw [hnote]
  refine h.delivered (t := { s.count dg with stragglers := s.stragglers + 1 }) hera rfl rfl
    ⟨hopened, hopened⟩ h.word (fun ⟨hb, hf, he, hr, hi⟩ ↦ ⟨hb, hf, he, hr, hi⟩)
    fun era' hc _ hS hS' ↦ ⟨fun last' hlast' ↦ h.tracks hc last' ?_,
      (h.accounts hc).next hera hS hS' (hord.straggler hc index era hindex hera)⟩
  rwa [List.getElem?_set_ne (by omega)] at hlast'

/-- The datagrams that open an era. -/
theorem Kept.opens {g : Late} {s' : InstanceState} (h : s.Kept g)
    (hsequence : s'.sequence = s.sequence.open dg.sequenceNumber dg.resetCount)
    (heras : s'.eras = s.eras ++ [.opened (s.sequence.eraOrdinal + 1) dg.resetCount
      dg.sequenceNumber dg.recvTsNs])
    (htransitions : s'.eras.length = s'.resets + 1)
    (hmissing : s'.missingOnArrival = s.missingOnArrival) (hclean : s'.Clean → s.Clean) :
    s'.Kept g := by
  have hnew := Era.holds_opened (s.sequence.eraOrdinal + 1) dg.resetCount dg.recvTsNs dg.word
  refine ⟨fun era hera ↦ ?_, fun ho ↦ ?_, fun _ ↦ htransitions, fun _ era hera ↦ ?_, fun hc ↦ ?_,
    hmissing ▸ h.word⟩
  · rw [heras] at hera
    rcases List.mem_append.mp hera with hera | hera
    · exact h.holds era hera
    · rw [List.mem_singleton.mp hera]
      exact ⟨_, hnew⟩
  · rw [hsequence] at ho
    exact Bool.noConfusion ho
  · rw [heras, List.length_append, List.length_singleton, Nat.add_sub_cancel,
      List.getElem?_concat_length] at hera
    rw [← Option.some.inj hera, hnew.covered_eq, hsequence]
    exact SequenceTracker.tracks_open _ _ _
  · rw [heras, hmissing]
    exact (h.accounts (hclean hc)).push hnew

/-- The highest value of the tracker is the last of the era it is in. -/
theorem highest_eq {era : Era} (hS : era.Holds (covered era.spans))
    (ht : s.sequence.Tracks (covered era.spans)) (ho : s.sequence.opened = true) :
    era.coverage.lastSeq = s.sequence.highest :=
  le_antisymm (ht.le ho _ hS.exact.last_mem) (hS.exact.ends _ (ht.mem ho)).2

theorem Kept.goesOn {g : Late} (h : s.Kept g) (hord : s.Ordinary limits dg) (hgoes : s.GoesOn dg) :
    (({ s.count dg with
        sequence := (s.sequence.observe dg.sequenceNumber dg.resetCount).1 }.tally
      (s.sequence.observe dg.sequenceNumber dg.resetCount).2).deliverLast dg limits).Kept
      (s.note g dg) := by
  have hlen := h.transitions hgoes.opened
  obtain ⟨era, hera⟩ : ∃ era, s.eras[s.eras.length - 1]? = some era :=
    ⟨_, List.getElem?_eq_getElem (by omega)⟩
  have hne : s.eras ≠ [] := by
    intro hnil
    simp [hnil] at hlen
  -- the era that takes the value is the last, so the tracker has to follow it
  have hlast : ∀ {era' last : Era} {t : SequenceTracker},
      (s.eras.set (s.eras.length - 1) era')[s.eras.length - 1]? = some last →
      t.Tracks (covered era'.spans) → t.Tracks (covered last.spans) := by
    intro era' last t hget ht
    rw [List.getElem?_set_self (by omega)] at hget
    rwa [← Option.some.inj hget]
  have hstep : s.Clean → (s.sequence.observe dg.sequenceNumber dg.resetCount).1.Tracks
      (s.sequence.adopt (covered era.spans) dg.sequenceNumber dg.resetCount) := fun hc ↦
    (h.tracks hc era hera).step _ _
  unfold deliverLast
  simp only [tally_eras, count_eras]
  rw [if_neg hne]
  unfold note
  rw [hgoes.stays]
  dsimp only
  unfold SequenceTracker.adopt at hstep
  have hbelow := hord.below
  generalize s.sequence.observe dg.sequenceNumber dg.resetCount = out,
    s.sequence.observe_cases dg.sequenceNumber dg.resetCount = hobs at hstep ⊢
  cases hobs with
  | opened hnot => exact absurd (hgoes.opened.symm.trans hnot) (by simp)
  | reset _ hreset => exact absurd hgoes.reset hreset
  | forwardJump _ _ hfar => exact absurd hgoes.near (Nat.not_le.mpr hfar)
  | inOrder ho _ hnext =>
      refine h.delivered hera rfl rfl ⟨ho, ho⟩ h.word
        (fun ⟨hb, hf, he, hr, hi⟩ ↦ ⟨hb, hf, he, hr, hi⟩) fun era' hc _ hS hS' ↦ ⟨fun last hget ↦
          hlast hget (hS'.covered_eq ▸ hstep hc), ?_⟩
      refine (h.accounts hc).next hera hS hS' ?_
      rw [highest_eq hS (h.tracks hc era hera) ho, hnext]
  | gap ho _ hlt _ =>
      refine h.delivered hera rfl rfl ⟨ho, ho⟩ (Nat.le_of_lt_succ (Nat.mod_lt _ (Nat.succ_pos _)))
        (fun ⟨hb, hf, he, hr, hi⟩ ↦ ⟨hb, hf, he, hr, hi⟩) fun era' hc _ hS hS' ↦ ⟨fun last hget ↦
          hlast hget (hS'.covered_eq ▸ hstep hc), ?_⟩
      have heq := highest_eq hS (h.tracks hc era hera) ho
      have habove := (h.accounts hc).above hera hS hS' (by omega)
      rw [heq] at habove
      show Accounts _ _ (wrappingAdd s.missingOnArrival (dg.sequenceNumber - s.sequence.highest - 1))
      rwa [wrappingAdd, Nat.mod_eq_of_lt (Nat.lt_succ_of_le (hord.counter hc hgoes))]
  | backward ho _ _ =>
      have hdirty {P : Prop} (hc : { s.count dg with backward := s.backward + 1 }.Clean) : P :=
        absurd hc.backward (Nat.succ_ne_zero _)
      exact h.delivered (t := { s.count dg with backward := s.backward + 1 }) hera rfl rfl ⟨ho, ho⟩
        h.word (fun hc ↦ hdirty hc) fun _ _ hc _ _ ↦ hdirty hc
  | duplicate ho _ hle hnear hseen =>
      refine h.delivered (t := { s.count dg with duplicates := s.duplicates + 1 }) hera rfl rfl
        ⟨ho, ho⟩ h.word (fun ⟨hb, hf, he, hr, hi⟩ ↦ ⟨hb, hf, he, hr, hi⟩) fun era' hc _ hS hS' ↦ ?_
      have hmem := ((h.tracks hc era hera).contains_iff ho hle hnear).mp hseen
      rw [Finset.insert_eq_of_mem hmem] at hS'
      exact ⟨fun last hget ↦ hlast hget (hS'.covered_eq ▸ hstep hc),
        (h.accounts hc).again hera hS hS' hmem⟩
  | reordered ho _ hle hnear hunseen =>
      refine h.delivered hera rfl rfl ⟨ho, ho⟩ h.word
        (fun ⟨hb, hf, he, hr, hi⟩ ↦ ⟨hb, hf, he, hr, hi⟩) fun era' hc _ hS hS' ↦ ⟨fun last hget ↦
          hlast hget (hS'.covered_eq ▸ hstep hc), ?_⟩
      have heq := highest_eq hS (h.tracks hc era hera) ho
      have hnot : dg.sequenceNumber ∉ covered era.spans := fun hmem ↦ by
        rw [((h.tracks hc era hera).contains_iff ho hle hnear).mpr hmem] at hunseen
        exact Bool.noConfusion hunseen
      have hfirst := hbelow hc hgoes era hera (by omega)
      by_cases hlo : era.coverage.firstSeq ≤ dg.sequenceNumber
      · exact (h.accounts hc).between hera hS hS' hnot hlo (heq ▸ hle)
      · exact (h.accounts hc).below hera hS hS' (by omega)

/-- A datagram that opens an era or is too far ahead adds nothing to what has been counted. -/
theorem note_eq_self {g : Late} (h : s.eraOfStraggler dg.resetCount dg.sequenceNumber = none)
    (hnot : ¬s.GoesOn dg) : s.note g dg = g := by
  unfold note
  rw [h]
  dsimp only
  generalize s.sequence.observe dg.sequenceNumber dg.resetCount = out,
    s.sequence.observe_cases dg.sequenceNumber dg.resetCount = hobs
  cases hobs with
  | opened | reset | forwardJump => rfl
  | inOrder ho hreset hnext =>
      exact absurd ⟨h, ho, hreset, hnext ▸ Nat.add_le_add_left (by decide) _⟩ hnot
  | gap ho hreset _ hnear => exact absurd ⟨h, ho, hreset, hnear⟩ hnot
  | backward ho hreset hfar => exact absurd ⟨h, ho, hreset, by omega⟩ hnot
  | duplicate ho hreset hle | reordered ho hreset hle =>
      exact absurd ⟨h, ho, hreset, by omega⟩ hnot

theorem Kept.observe {g : Late} (h : s.Kept g) (hord : s.Ordinary limits dg) :
    (s.observe limits dg).Kept (s.note g dg) := by
  have hgoes' := h.goesOn hord
  generalize s.observe limits dg = s', s.observe_cases limits dg = hobs
  cases hobs with
  | straggler index hindex => exact h.straggler hord hindex
  | opened hnone hopened =>
      obtain ⟨hnil, hresets⟩ := h.fresh hopened
      rw [note_eq_self hnone fun hgoes ↦ absurd (hgoes.opened.symm.trans hopened) (by simp)]
      refine h.opens rfl rfl ?_ rfl fun ⟨hb, hf, he, hr, hi⟩ ↦ ⟨hb, hf, he, hr, hi⟩
      show (s.eras ++ _).length = s.resets + 1
      rw [hnil, hresets]
      rfl
  | refused hnone hopened hreset hfull =>
      exact absurd (hord.room hnone hopened hreset) (Nat.not_lt.mpr hfull)
  | reset hnone hopened hreset hroom =>
      rw [note_eq_self hnone fun hgoes ↦ hreset hgoes.reset]
      refine h.opens rfl rfl ?_ rfl fun ⟨hb, hf, he, hr, hi⟩ ↦ ⟨hb, hf, he, hr, hi⟩
      show (s.eras ++ _).length = s.resets + 1 + 1
      rw [List.length_append, h.transitions hopened]
      rfl
  | forwardJump hnone hopened hreset hfar =>
      rw [note_eq_self hnone fun hgoes ↦ absurd hgoes.near (Nat.not_le.mpr hfar)]
      have hdirty {P : Prop} (hc : { s.count dg with forwardJumps := s.forwardJumps + 1 }.Clean) :
          P := absurd hc.forwardJumps (Nat.succ_ne_zero _)
      exact ⟨h.holds, h.fresh, h.transitions, fun hc ↦ hdirty hc, fun hc ↦ hdirty hc, h.word⟩
  | goesOn hgoes => exact hgoes' hgoes

/-- After any datagram the tracker has opened an era. -/
theorem opened_observe {g : Late} (h : s.Kept g) (dg : RecordedDatagram) :
    (s.observe limits dg).sequence.opened = true := by
  have hdeliver (s : InstanceState) (index : ℕ) :
      (s.deliver index dg limits).sequence = s.sequence := by
    unfold InstanceState.deliver
    split
    next => dsimp only; split <;> rfl
    next => rfl
  generalize s.observe limits dg = s', s.observe_cases limits dg = hobs
  cases hobs with
  | straggler index hindex =>
      rw [hdeliver]
      by_contra hfresh
      have hnil := (h.fresh (Bool.not_eq_true _ ▸ hfresh)).1
      have hlen := (eraOfStraggler_eq_some hindex).1
      simp [hnil] at hlen
  | opened | refused | reset => rfl
  | forwardJump _ hopened => exact hopened
  | goesOn =>
      have htracker := s.sequence.opened_observe dg.sequenceNumber dg.resetCount
      unfold deliverLast
      split
      · cases (s.sequence.observe dg.sequenceNumber dg.resetCount).2 <;> exact htracker
      · rw [hdeliver]
        cases (s.sequence.observe dg.sequenceNumber dg.resetCount).2 <;> exact htracker

/-! ## The two figures -/

/-- What the report says of arrivals and of transitions. -/
structure Ordered (s : InstanceState) (g : Late) (i : ChannelInstance) : Prop where
  transitions : (s.finish i).eraTransitions = (s.finish i).resets + 1
  le : s.Clean → (s.finish i).missing ≤ (s.finish i).missingOnArrival
  late : s.Clean → (s.finish i).missingOnArrival - (s.finish i).missing = g.filled.card

theorem Kept.inOrder {g : Late} (h : s.Kept g) (hopened : s.sequence.opened = true)
    (i : ChannelInstance) : s.Ordered g i := by
  have hmissing := finish_missing (i := i) h.holds
  have hfigures : s.Clean → (s.finish i).missing + g.filled.card = s.missingOnArrival := by
    intro hc
    have htotal := (h.accounts hc).total
    have hword := h.word
    unfold missingOf at htotal
    omega
  refine ⟨h.transitions hopened, fun hc ↦ ?_, fun hc ↦ ?_⟩
  · have := hfigures hc
    show _ ≤ s.missingOnArrival
    omega
  · have := hfigures hc
    show s.missingOnArrival - _ = _
    omega

theorem kept_new (group : ℕ) (role : PortRole) : (new group role).Kept ⟨∅, ∅⟩ where
  holds era hera := absurd hera List.not_mem_nil
  fresh _ := ⟨rfl, rfl⟩
  transitions h := Bool.noConfusion h
  tracks _ era hera := absurd hera (by simp [new])
  accounts _ := ⟨Finset.Subset.refl _, by simp, by simp [new], by simp [new], rfl⟩
  word := Nat.zero_le _

/-- **What is missing is what looked absent, less the late arrivals**, in every run of ordinary
datagrams, and its transitions are one more than its resets. -/
theorem ordered (group : ℕ) (role : PortRole) (limits : DeriverLimits) (i : ChannelInstance)
    (dgs : List RecordedDatagram)
    (hrun : ∀ pre dg, pre ++ [dg] <+: dgs →
      (run (observe · limits) (new group role) pre).Ordinary limits dg) :
    ∀ pre dg, pre ++ [dg] <+: dgs →
      (run (observe · limits) (new group role) (pre ++ [dg])).Ordered
        (ghost (observe · limits) note (new group role) ⟨∅, ∅⟩ (pre ++ [dg])) i := by
  intro pre dg hpre
  have hkept : (run (observe · limits) (new group role) pre).Kept
      (ghost (observe · limits) note (new group role) ⟨∅, ∅⟩ pre) :=
    run_ghost (P := Kept) pre (kept_new group role) fun pre' dg' hpre' h ↦
      h.observe (hrun pre' dg' (hpre'.trans ((List.prefix_append pre [dg]).trans hpre)))
  rw [run_snoc, ghost_snoc]
  exact (hkept.observe (hrun pre dg hpre)).inOrder (opened_observe hkept dg) i

/-- Two values skipped, one of which arrives late, the one before the first, and a reset. -/
def late : List RecordedDatagram :=
  [⟨10, 0, 3, 0, 1, 0, by decide⟩, ⟨13, 0, 3, 0, 2, 0, by decide⟩, ⟨12, 0, 3, 0, 3, 0, by decide⟩,
    ⟨9, 0, 3, 0, 4, 0, by decide⟩]

theorem ordinary_of_stays (hstays : s.eraOfStraggler dg.resetCount dg.sequenceNumber = none)
    (hroom : s.eras.length < limits.maxErasPerInstance)
    (hbelow : dg.resetCount = s.sequence.resetCount → ∀ era ∈ s.eras[s.eras.length - 1]?,
      era.coverage.firstSeq ≤ dg.sequenceNumber + 1)
    (hcounter : s.missingOnArrival + (dg.sequenceNumber - s.sequence.highest - 1) ≤ U64_MAX) :
    s.Ordinary limits dg where
  room _ _ _ := hroom
  straggler _ _ _ h _ := absurd (h.symm.trans hstays) (by simp)
  below _ hgoes era hera _ := hbelow hgoes.reset era hera
  counter _ _ := hcounter

theorem ordered_late :
    let s := run (observe · {}) (new 0 .mktdata) (late ++ [⟨0, 1, 3, 0, 5, 0, by decide⟩])
    (s.finish ⟨1, 2, 3⟩).missing = 1 ∧ (s.finish ⟨1, 2, 3⟩).missingOnArrival = 2 ∧
      s.Ordered (ghost (observe · {}) note (new 0 .mktdata) ⟨∅, ∅⟩
        (late ++ [⟨0, 1, 3, 0, 5, 0, by decide⟩])) ⟨1, 2, 3⟩ := by
  refine ⟨by decide +kernel, by decide +kernel, ordered 0 .mktdata {} ⟨1, 2, 3⟩
    (late ++ [⟨0, 1, 3, 0, 5, 0, by decide⟩]) ?_ late _ (List.prefix_refl _)⟩
  rw [late]
  simp only [List.cons_append, List.nil_append, forall_prefix_cons]
  refine ⟨?_, ?_, ?_, ?_, ?_, forall_prefix_nil⟩ <;>
    apply ordinary_of_stays <;> decide +kernel

/-- A value two below the one that opened the era. -/
def belowOpening : List RecordedDatagram :=
  [⟨10, 0, 3, 0, 1, 0, by decide⟩, ⟨8, 0, 3, 0, 2, 0, by decide⟩]

/-- A value beyond the end of the era before the last. -/
def beyondEra : List RecordedDatagram :=
  [⟨5, 0, 3, 0, 1, 0, by decide⟩, ⟨0, 1, 3, 0, 2, 0, by decide⟩, ⟨8, 0, 3, 0, 3, 0, by decide⟩]

/-- The spaces these leave are missing and were never counted, and an era that is refused is a
reset without a transition. -/
theorem disordered :
    let s := run (observe · {}) (new 0 .mktdata) belowOpening
    let t := run (observe · {}) (new 0 .mktdata) beyondEra
    let u := run (observe · { maxErasPerInstance := 1 }) (new 0 .mktdata)
      [⟨0, 0, 3, 0, 1, 0, by decide⟩, ⟨100, 1, 3, 0, 2, 0, by decide⟩]
    (s.Clean ∧ (s.finish ⟨1, 2, 3⟩).missing = 1 ∧ (s.finish ⟨1, 2, 3⟩).missingOnArrival = 0) ∧
      (t.Clean ∧ (t.finish ⟨1, 2, 3⟩).missing = 2 ∧ (t.finish ⟨1, 2, 3⟩).missingOnArrival = 0) ∧
      (u.finish ⟨1, 2, 3⟩).eraTransitions = 1 ∧ (u.finish ⟨1, 2, 3⟩).resets = 1 := by
  refine ⟨⟨⟨?_, ?_, ?_, ?_, ?_⟩, ?_, ?_⟩, ⟨⟨?_, ?_, ?_, ?_, ?_⟩, ?_, ?_⟩, ?_, ?_⟩ <;> decide

end InstanceState

end EdgeMulticast.Loss
