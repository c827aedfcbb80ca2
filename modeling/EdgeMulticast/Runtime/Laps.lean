import EdgeMulticast.Runtime.Rotation
import Mathlib.Data.List.Chain
import Mathlib.Data.List.Perm.Subperm

/-!
# Laps of the snapshot rotation

The instruments of a shard come round in the order of their slots, whatever the calls.  Each of
them falls due a tick after the call that served the one before it, so what a call comes late stays
in the lap: a lap of `n` takes up to `n * (tick + (d - 1))`, and no less for some schedule.

`honours_iff` says when that is still within the cycle and `d`.
-/

namespace EdgeMulticast.Runtime

open EdgeMulticast.Lib
open EdgeMulticast.Lowering

variable {S : List ℕ} {d : ℕ} {c : DueCall} {calls : List DueCall} {r : SnapshotRotation}

/-! ## The order -/

theorem slots_mono {a b : DueCall}
    (h : a.instruments.slots.length ≤ b.instruments.slots.length) : a.slots ≤ b.slots := by
  rw [DueCall.slots, DueCall.slots]
  omega

theorem Growing.slots_le (h : Growing (c :: calls)) : ∀ b ∈ calls, c.slots ≤ b.slots := by
  induction calls generalizing c with
  | nil => exact fun b hb ↦ absurd hb List.not_mem_nil
  | cons a calls ih =>
      intro b hb
      have hca : c.slots ≤ a.slots := slots_mono (List.isChain_cons_cons.mp h).1
      rcases List.mem_cons.mp hb with rfl | hb
      · exact hca
      · exact hca.trans (ih (List.isChain_cons_cons.mp h).2 b hb)

theorem cursor_due (hcursor : r.cursor = 0 ∨ r.cursor < c.slots) :
    (r.due c).2.cursor = r.cursor ∨ (r.due c).2.cursor < c.slots := by
  rw [SnapshotRotation.due]
  split
  · exact .inl rfl
  next hslots =>
      split
      · exact .inl rfl
      · split
        · exact .inl rfl
        · refine .inr (seek_lt _ ?_)
          rcases hcursor with hzero | hlt
          · rw [hzero]
            exact Nat.pos_of_ne_zero hslots
          · exact hlt

/-- The cursor stays inside the slots. -/
theorem cursor_after (earlier : List DueCall) (r : SnapshotRotation)
    (hgrowing : Growing (earlier ++ calls))
    (hcursor : r.cursor = 0 ∨ ∀ c ∈ earlier ++ calls, r.cursor < c.slots) :
    (r.after earlier).cursor = 0 ∨ ∀ c ∈ calls, (r.after earlier).cursor < c.slots := by
  induction earlier generalizing r with
  | nil => exact hcursor
  | cons a earlier ih =>
      refine ih (r.due a).2 hgrowing.of_cons ?_
      have hhead : r.cursor = 0 ∨ r.cursor < a.slots :=
        hcursor.imp_right fun h ↦ h a List.mem_cons_self
      rcases cursor_due hhead with hsame | hlt
      · rw [hsame]
        exact hcursor.imp_right fun h c hc ↦ h c (List.mem_cons_of_mem a hc)
      · exact .inr fun c hc ↦ hlt.trans_le (hgrowing.slots_le c hc)

/-- What is served follows the turn of the cursor. -/
theorem served_in_order (hS : S.Pairwise (· < ·)) (hne : S ≠ []) (hreach : ∀ i ∈ S, i < U32_MAX)
    (hgrowing : Growing calls) (hschedule : Schedule S d calls)
    (hcursor : ∀ c ∈ calls, r.cursor < c.slots) (i : ℕ) (h : InstrumentRef)
    (hserved : ((r.served calls).map Prod.snd)[i]? = some h) :
    S[(turn S r.cursor + i) % S.length]? = some h.index.toNat := by
  induction calls generalizing r i with
  | nil => cases hserved
  | cons c calls ih =>
      have hsees := hschedule.sees hreach List.mem_cons_self
      have hdoes := does_due hS hne hsees (hcursor c List.mem_cons_self)
      have hinside : ∀ b ∈ calls, r.cursor < b.slots :=
        fun b hb ↦ hcursor b (List.mem_cons_of_mem c hb)
      rw [SnapshotRotation.served] at hserved
      generalize r.due c = outcome at hdoes hserved
      cases hdoes with
      | schedules _ =>
          exact ih (r := { r with nextDueNs := some (r.rebased c) }) hgrowing.of_cons
            hschedule.tail hinside i hserved
      | waits _ _ => exact ih hgrowing.of_cons hschedule.tail hinside i hserved
      | serves _ _ next inside round =>
          cases i with
          | zero =>
              obtain rfl := Option.some.inj hserved
              rw [Nat.add_zero, turn, Nat.mod_mod]
              exact next
          | succ i =>
              have hlater := ih hgrowing.of_cons hschedule.tail
                (fun b hb ↦ inside.trans_le (hgrowing.slots_le b hb)) i hserved
              rw [show turn S _ = _ from round, Nat.mod_add_mod, Nat.add_assoc,
                Nat.add_comm 1 i] at hlater
              exact hlater

/-! ## How long a lap takes at most -/

/-- From one start to the next. -/
def Gap (g : ℕ) (a b : ℕ) : Prop := b ≤ a + g

theorem le_of_isChain {g : ℕ} {times : List ℕ} (h : times.IsChain (Gap g)) {i n a b : ℕ}
    (ha : times[i]? = some a) (hb : times[i + n]? = some b) : b ≤ a + n * g := by
  induction n generalizing b with
  | zero =>
      rw [Nat.add_zero, ha] at hb
      rw [← Option.some.inj hb]
      exact Nat.le_add_right _ _
  | succ n ih =>
      obtain ⟨hlt, rfl⟩ := List.getElem?_eq_some_iff.mp hb
      have hmid : times[i + n]? = some times[i + n] := List.getElem?_eq_getElem (by omega)
      have hgap : times[i + n + 1] ≤ times[i + n] + g :=
        List.isChain_iff_getElem.mp h (i + n) hlt
      have := ih hmid
      rw [Nat.succ_mul]
      exact hgap.trans (by omega)

theorem tick_pos (cycle n : ℕ) : 0 < tick cycle n := 
  Nat.lt_of_lt_of_le (by decide) (Nat.le_max_right _ MIN_TICK)

section

variable {cycleNs : ℕ}

/-- After a start at `a`, with the last call at `p`, the next start is a tick and a call away. -/
theorem isChain_served (hS : S.Pairwise (· < ·)) (hne : S ≠ []) (hreach : ∀ i ∈ S, i < U32_MAX)
    (hgrowing : Growing calls) (hschedule : Schedule S d calls)
    (hcursor : ∀ c ∈ calls, r.cursor < c.slots) {a p due : ℕ}
    (hdue : r.nextDueNs = some due) (hstart : due ≤ a + tick r.cycleNs S.length)
    (hlast : p < a + tick r.cycleNs S.length)
    (hfirst : ∀ c ∈ calls.head?, p < c.nowNs ∧ c.nowNs ≤ p + d) :
    (a :: (r.served calls).map Prod.fst).IsChain (Gap (tick r.cycleNs S.length + (d - 1))) := by
  induction calls generalizing r a p due with
  | nil => exact .singleton a
  | cons c calls ih =>
      have hsees := hschedule.sees hreach List.mem_cons_self
      have hdoes := does_due hS hne hsees (hcursor c List.mem_cons_self)
      have hinside : ∀ b ∈ calls, r.cursor < b.slots :=
        fun b hb ↦ hcursor b (List.mem_cons_of_mem c hb)
      have hnow := hfirst c rfl
      have hnext : ∀ b ∈ calls.head?, c.nowNs < b.nowNs ∧ b.nowNs ≤ c.nowNs + d :=
        fun b hb ↦ hschedule.times.rel_head? hb
      rw [SnapshotRotation.served]
      generalize r.due c = outcome at hdoes
      cases hdoes with
      | schedules unscheduled => cases unscheduled.symm.trans hdue
      | waits scheduled early =>
          obtain rfl := Option.some.inj (scheduled.symm.trans hdue)
          exact ih hgrowing.of_cons hschedule.tail hinside hdue hstart (early.trans_le hstart) hnext
      | @serves _ _ cursor _ _ _ inside _ =>
          refine List.isChain_cons_cons.mpr ⟨?_, ?_⟩
          · change c.nowNs ≤ a + _
            omega
          · refine ih (r := { r with cursor, nextDueNs := some (r.rebased c) }) hgrowing.of_cons
              hschedule.tail (fun b hb ↦ inside.trans_le (hgrowing.slots_le b hb)) rfl ?_ ?_ hnext
            · rw [SnapshotRotation.rebased, hsees.published]
              exact min_le_left _ _
            · exact Nat.lt_add_of_pos_right (tick_pos _ _)

/-- The starts of a schedule are no further apart than a tick and what a call can come late. -/
theorem isChain_starts (hS : S.Pairwise (· < ·)) (hne : S ≠ []) (hreach : ∀ i ∈ S, i < U32_MAX)
    (hgrowing : Growing calls) (hschedule : Schedule S d calls)
    (hcursor : ∀ c ∈ calls, r.cursor < c.slots) :
    (r.starts calls).IsChain (Gap (tick r.cycleNs S.length + (d - 1))) := by
  rw [SnapshotRotation.starts]
  induction calls with
  | nil =>
      split
      · exact .nil
      · exact .nil
  | cons c calls ih =>
      have hsees := hschedule.sees hreach List.mem_cons_self
      have hdoes := does_due hS hne hsees (hcursor c List.mem_cons_self)
      have hinside : ∀ b ∈ calls, r.cursor < b.slots :=
        fun b hb ↦ hcursor b (List.mem_cons_of_mem c hb)
      have hnext : ∀ b ∈ calls.head?, c.nowNs < b.nowNs ∧ b.nowNs ≤ c.nowNs + d :=
        fun b hb ↦ hschedule.times.rel_head? hb
      have hlate : c.nowNs < c.nowNs + tick r.cycleNs S.length :=
        Nat.lt_add_of_pos_right (tick_pos _ _)
      have hrebased : r.rebased c ≤ c.nowNs + tick r.cycleNs S.length := by
        rw [SnapshotRotation.rebased, hsees.published]
        exact min_le_left _ _
      rw [SnapshotRotation.served]
      generalize r.due c = outcome at hdoes
      cases hdoes with
      | schedules unscheduled =>
          rw [if_pos unscheduled]
          exact isChain_served (r := { r with nextDueNs := some (r.rebased c) }) hS hne hreach
            hgrowing.of_cons hschedule.tail hinside rfl hrebased hlate hnext
      | waits scheduled early =>
          have hsome : r.nextDueNs ≠ none := by
            rw [scheduled]
            exact Option.some_ne_none _
          have hrest := ih hgrowing.of_cons hschedule.tail hinside
          rw [if_neg hsome] at hrest ⊢
          exact hrest
      | @serves _ _ cursor scheduled _ _ inside _ =>
          have hsome : r.nextDueNs ≠ none := by
            rw [scheduled]
            exact Option.some_ne_none _
          rw [if_neg hsome]
          exact isChain_served (r := { r with cursor, nextDueNs := some (r.rebased c) }) hS hne
            hreach hgrowing.of_cons hschedule.tail
            (fun b hb ↦ inside.trans_le (hgrowing.slots_le b hb)) rfl hrebased hlate hnext

end

/-! ## How long a lap can take -/

/-- An amount is shared out over `n` parts of at most `k`. -/
theorem exists_parts (n k amount : ℕ) (h : amount ≤ n * k) :
    ∃ parts : List ℕ, parts.length = n ∧ (∀ l ∈ parts, l ≤ k) ∧ parts.sum = amount := by
  induction n generalizing amount with
  | zero =>
      rw [Nat.zero_mul, Nat.le_zero] at h
      exact ⟨[], rfl, fun l hl ↦ absurd hl List.not_mem_nil, h.symm⟩
  | succ n ih =>
      rw [Nat.succ_mul] at h
      obtain ⟨parts, hlength, hparts, hsum⟩ := ih (amount - min amount k) (by omega)
      refine ⟨min amount k :: parts, congrArg (· + 1) hlength, ?_, ?_⟩
      · intro l hl
        rcases List.mem_cons.mp hl with rfl | hl
        · exact Nat.min_le_right _ _
        · exact hparts l hl
      · rw [List.sum_cons, hsum]
        omega

/-- The times of calls from a start: one at every nanosecond until just before the next instrument
falls due, and one that comes late by what is listed. -/
def callTimes (tick : ℕ) : ℕ → List ℕ → List ℕ
  | _, [] => []
  | s, l :: late =>
      List.range' (s + 1) (tick - 1) ++ (s + tick + l) :: callTimes tick (s + tick + l) late

/-- The starts that these calls bring about. -/
def startTimes (tick : ℕ) : ℕ → List ℕ → List ℕ
  | _, [] => []
  | s, l :: late => (s + tick + l) :: startTimes tick (s + tick + l) late

/-- A process whose table holds an instrument in every slot, those in `S` on the shard. -/
def processCall (S : List ℕ) (nowNs : ℕ) : DueCall where
  nowNs := nowNs
  instruments := {
    slots := List.replicate U32_MAX (some ⟨0, 0, 0, none⟩)
    held := U32_MAX
    held_eq := by rw [Lib.held, List.countP_replicate]; rfl }
  published := S.length
  onShard h := decide (h.index.toNat ∈ S)

theorem slots_processCall (S : List ℕ) (t : ℕ) : (processCall S t).slots = U32_MAX := by
  rw [DueCall.slots, processCall, List.length_replicate, Nat.min_self]

theorem holds_processCall (t : ℕ) (h : InstrumentRef) (hlt : h.index.toNat < U32_MAX) :
    (processCall S t).instruments.holds h = true := by
  rw [InstrumentTable.holds, processCall, slotAt, List.getElem?_replicate, if_pos hlt]
  rfl

theorem schedule_processCall {times : List ℕ} (hreach : ∀ i ∈ S, i < U32_MAX)
    (hclock : ∀ t ∈ times, t ≤ U64_MAX)
    (htimes : times.IsChain fun a b ↦ a < b ∧ b ≤ a + d) :
    Schedule S d (times.map (processCall S)) where
  times := (List.isChain_map (processCall S)).mpr htimes
  clock c hc := by
    obtain ⟨t, ht, rfl⟩ := List.mem_map.mp hc
    exact hclock t ht
  published c hc := by
    obtain ⟨t, ht, rfl⟩ := List.mem_map.mp hc
    rfl
  steady c hc h := by
    obtain ⟨t, ht, rfl⟩ := List.mem_map.mp hc
    have hshard : (processCall S t).onShard h = decide (h.index.toNat ∈ S) := rfl
    rw [Bool.and_eq_true, hshard, decide_eq_true_eq]
    exact ⟨And.right, fun hmem ↦ ⟨holds_processCall t h (hreach _ hmem), hmem⟩⟩

theorem growing_processCall (S : List ℕ) (times : List ℕ) : Growing (times.map (processCall S)) :=
  List.isChain_map_of_isChain (R := fun _ _ ↦ True) _ (fun _ _ _ ↦ le_rfl)
    (List.isChain_iff_getElem.mpr fun _ _ ↦ trivial)

theorem served_append (r : SnapshotRotation) (xs ys : List DueCall) :
    r.served (xs ++ ys) = r.served xs ++ (r.after xs).served ys := by
  induction xs generalizing r with
  | nil => rfl
  | cons x xs ih =>
      rw [List.cons_append, SnapshotRotation.served, SnapshotRotation.served, ih, List.append_assoc]
      rfl

theorem after_cons (r : SnapshotRotation) (c : DueCall) (calls : List DueCall) :
    r.after (c :: calls) = (r.due c).2.after calls := rfl

/-- Calls before an instrument falls due do nothing. -/
theorem early_calls {due : ℕ} (hdue : r.nextDueNs = some due) (times : List ℕ)
    (hearly : ∀ t ∈ times, t < due) :
    r.served (times.map (processCall S)) = [] ∧ r.after (times.map (processCall S)) = r := by
  induction times with
  | nil => exact ⟨rfl, rfl⟩
  | cons t times ih =>
      have hnone : r.due (processCall S t) = (none, r) := by
        rw [SnapshotRotation.due, slots_processCall, if_neg (by decide), hdue]
        exact if_pos (hearly t List.mem_cons_self)
      obtain ⟨hserved, hafter⟩ := ih fun t ht ↦ hearly t (List.mem_cons_of_mem _ ht)
      rw [List.map_cons, SnapshotRotation.served, after_cons, hnone]
      exact ⟨hserved, hafter⟩

theorem served_callTimes (hS : S.Pairwise (· < ·)) (hne : S ≠ []) (hreach : ∀ i ∈ S, i < U32_MAX)
    (late : List ℕ) {s : ℕ} (hcursor : r.cursor < U32_MAX)
    (hdue : r.nextDueNs = some (min (s + tick r.cycleNs S.length) U64_MAX))
    (hclock : ∀ t ∈ startTimes (tick r.cycleNs S.length) s late, t ≤ U64_MAX) :
    (r.served ((callTimes (tick r.cycleNs S.length) s late).map (processCall S))).map Prod.fst =
      startTimes (tick r.cycleNs S.length) s late := by
  induction late generalizing r s with
  | nil => rfl
  | cons l late ih =>
      have hnow := hclock _ List.mem_cons_self
      rw [Nat.min_eq_left (by omega)] at hdue
      obtain ⟨hnothing, hsame⟩ := early_calls (S := S) hdue
        (List.range' (s + 1) (tick r.cycleNs S.length - 1)) fun t ht ↦ by
          have := List.mem_range'_1.mp ht
          omega
      have hschedule : Schedule S 0 ([s + tick r.cycleNs S.length + l].map (processCall S)) :=
        schedule_processCall hreach
          (fun t ht ↦ List.eq_of_mem_singleton ht ▸ hnow) (.singleton _)
      have hsees := hschedule.sees hreach List.mem_cons_self
      have hdoes := does_due hS hne hsees (by rwa [slots_processCall])
      rw [callTimes, List.map_append, served_append, hnothing, hsame, List.nil_append, List.map_cons,
        SnapshotRotation.served]
      generalize r.due _ = outcome at hdoes
      cases hdoes with
      | schedules unscheduled => cases unscheduled.symm.trans hdue
      | waits scheduled early =>
          obtain rfl := Option.some.inj (scheduled.symm.trans hdue)
          exact absurd early (Nat.not_lt.mpr (Nat.le_add_right _ l))
      | @serves _ _ cursor _ _ _ inside _ =>
          rw [slots_processCall] at inside
          refine congrArg (List.cons _) (ih (r := { r with cursor, nextDueNs := _ }) inside rfl ?_)
          exact fun t ht ↦ hclock t (List.mem_cons_of_mem _ ht)

theorem isChain_callTimes {tick : ℕ} (htick : 0 < tick) (late : List ℕ) (s : ℕ)
    (hlate : ∀ l ∈ late, l + 1 ≤ d) :
    (s :: callTimes tick s late).IsChain fun a b ↦ a < b ∧ b ≤ a + d := by
  induction late generalizing s with
  | nil => exact .singleton s
  | cons l late ih =>
      have hl := hlate l List.mem_cons_self
      have hrest := ih (s + tick + l) fun l hl ↦ hlate l (List.mem_cons_of_mem _ hl)
      rw [callTimes, ← List.cons_append, ← List.range'_succ, Nat.sub_add_cancel htick]
      refine List.isChain_append.mpr ⟨?_, hrest, ?_⟩
      · refine (List.isChain_range' s tick 1).imp fun a b hb ↦ ?_
        have := hlate l List.mem_cons_self
        omega
      · intro a ha b hb
        rw [List.getLast?_range', if_neg (Nat.ne_of_gt htick)] at ha
        rw [List.head?_cons] at hb
        obtain rfl := Option.some.inj ha
        obtain rfl := Option.some.inj hb
        omega

theorem le_end (tick : ℕ) (late : List ℕ) (s : ℕ) :
    (∀ t ∈ callTimes tick s late, t ≤ s + late.length * tick + late.sum) ∧
      ∀ t ∈ startTimes tick s late, t ≤ s + late.length * tick + late.sum := by
  induction late generalizing s with
  | nil => exact ⟨fun t ht ↦ absurd ht List.not_mem_nil, fun t ht ↦ absurd ht List.not_mem_nil⟩
  | cons l late ih =>
      obtain ⟨hcalls, hstarts⟩ := ih (s + tick + l)
      rw [List.length_cons, Nat.succ_mul, List.sum_cons]
      constructor
      · intro t ht
        rcases List.mem_append.mp ht with hearly | hlate
        · have := List.mem_range'_1.mp hearly
          omega
        · rcases List.mem_cons.mp hlate with rfl | hlate
          · omega
          · have := hcalls t hlate
            omega
      · intro t ht
        rcases List.mem_cons.mp ht with rfl | ht
        · omega
        · have := hstarts t ht
          omega

theorem startTimes_last (tick : ℕ) (late : List ℕ) (s : ℕ) :
    (s :: startTimes tick s late)[late.length]? =
      some (s + late.length * tick + late.sum) := by
  induction late generalizing s with
  | nil => simp
  | cons l late ih =>
      rw [startTimes, List.length_cons, List.getElem?_cons_succ, ih, Nat.succ_mul, List.sum_cons]
      exact congrArg some (by omega)

/-- Where the latest calls make a lap longer than the cycle and `d`, some schedule does. -/
theorem not_honours {cycle : ℕ} (hS : S.Pairwise (· < ·)) (hne : S ≠ [])
    (hreach : ∀ i ∈ S, i < U32_MAX) (hlap : S.length * tick (cycle % 2 ^ 64) S.length ≤ cycle)
    (hlong : cycle + d < S.length * (tick (cycle % 2 ^ 64) S.length + (d - 1)))
    (hclock : cycle + d < U64_MAX) : ¬Honours cycle S d := by
  intro h
  rw [Nat.mul_add] at hlong
  obtain ⟨late, hlength, hparts, hsum⟩ := exists_parts S.length (d - 1)
    (cycle + d + 1 - S.length * tick (cycle % 2 ^ 64) S.length) (by omega)
  have hpos : 0 < d := by
    rcases Nat.eq_zero_or_pos d with rfl | hd
    · rw [Nat.zero_sub, Nat.mul_zero] at hlong
      omega
    · exact hd
  have hend : 0 + late.length * tick (cycle % 2 ^ 64) S.length + late.sum = cycle + d + 1 := by
    rw [hlength, hsum]
    omega
  obtain ⟨hcalls, hstarts⟩ := le_end (tick (cycle % 2 ^ 64) S.length) late 0
  rw [hend] at hcalls hstarts
  have hbound (t : ℕ) (ht : t ∈ 0 :: callTimes (tick (cycle % 2 ^ 64) S.length) 0 late) :
      t ≤ U64_MAX := by
    rcases List.mem_cons.mp ht with rfl | ht
    · exact Nat.zero_le _
    · have := hcalls t ht
      omega
  have hlate (l : ℕ) (hl : l ∈ late) : l + 1 ≤ d := by
    have := hparts l hl
    omega
  have hschedule := schedule_processCall hreach hbound
    (isChain_callTimes (tick_pos _ _) late 0 hlate)
  have hlapped := (h [] _ (growing_processCall S _) hschedule).2 0 0 (cycle + d + 1)
  have hstart : (SnapshotRotation.new cycle).starts
      ((0 :: callTimes (tick (cycle % 2 ^ 64) S.length) 0 late).map (processCall S)) =
      0 :: startTimes (tick (cycle % 2 ^ 64) S.length) 0 late := by
    have hfirst : (SnapshotRotation.new cycle).due (processCall S 0) =
        (none, { SnapshotRotation.new cycle with
          nextDueNs := some ((SnapshotRotation.new cycle).rebased (processCall S 0)) }) := by
      rw [SnapshotRotation.due, slots_processCall, if_neg (by decide)]
      rfl
    rw [List.map_cons, SnapshotRotation.starts, SnapshotRotation.served, hfirst]
    have hzero : 0 < U32_MAX := by decide
    refine congrArg (List.cons 0) (served_callTimes (r := { SnapshotRotation.new cycle with
      nextDueNs := _ }) hS hne hreach late hzero rfl fun t ht ↦ ?_)
    have := hstarts t ht
    omega
  have hlast := startTimes_last (tick (cycle % 2 ^ 64) S.length) late 0
  rw [hend, hlength] at hlast
  have hrun : (SnapshotRotation.new cycle).after [] = SnapshotRotation.new cycle := rfl
  rw [hrun, hstart, Nat.zero_add, hlast] at hlapped
  have := hlapped rfl rfl
  omega

/-! ## When the cycle is honoured -/

theorem cycleNs_due (r : SnapshotRotation) (c : DueCall) : (r.due c).2.cycleNs = r.cycleNs := by
  rw [SnapshotRotation.due]
  split
  · rfl
  · split
    · rfl
    · split <;> rfl

theorem cycleNs_after (r : SnapshotRotation) (calls : List DueCall) :
    (r.after calls).cycleNs = r.cycleNs :=
  run_induction (P := fun (r' : SnapshotRotation) ↦ r'.cycleNs = r.cycleNs) calls rfl
    fun r' c _ h ↦ (cycleNs_due r' c).trans h

theorem mem_served (calls : List DueCall) (r : SnapshotRotation) {t : ℕ}
    (h : t ∈ (r.served calls).map Prod.fst) : ∃ c ∈ calls, c.nowNs = t := by
  induction calls generalizing r with
  | nil => cases h
  | cons c calls ih =>
      rw [SnapshotRotation.served, List.map_append, List.mem_append] at h
      rcases h with h | h
      · cases hdue : (r.due c).1 with
        | none =>
            rw [hdue] at h
            cases h
        | some served =>
            rw [hdue] at h
            exact ⟨c, List.mem_cons_self, (List.eq_of_mem_singleton h).symm⟩
      · obtain ⟨b, hb, rfl⟩ := ih _ h
        exact ⟨b, List.mem_cons_of_mem c hb, rfl⟩

theorem mem_starts {t : ℕ} (h : t ∈ r.starts calls) : ∃ c ∈ calls, c.nowNs = t := by
  rcases List.mem_append.mp h with h | h
  · split at h
    · obtain ⟨c, hc, rfl⟩ := Option.map_eq_some_iff.mp (Option.mem_toList.mp h)
      exact ⟨c, List.mem_of_mem_head? hc, rfl⟩
    · cases h
  · exact mem_served calls r h

theorem length_le_of_bound (hS : S.Pairwise (· < ·)) {m : ℕ} (h : ∀ i ∈ S, i < m) :
    S.length ≤ m := by
  have hnodup : S.Nodup := hS.imp Nat.ne_of_lt
  have hsub : S ⊆ List.range m := fun i hi ↦ List.mem_range.mpr (h i hi)
  simpa using (List.subperm_of_subset hnodup hsub).length_le

/-- **The cycle is honoured** exactly when the latest calls do not make a lap longer than the cycle
and `d`, or the clock ends before it could be. -/
theorem honours_iff (cycle d : ℕ) (S : List ℕ) (hS : S.Pairwise (· < ·)) (hne : S ≠ [])
    (hreach : ∀ i ∈ S, i < U32_MAX) (hcycle : MIN_TICK ≤ cycle / S.length) :
    Honours cycle S d ↔
      S.length * (tick (cycle % 2 ^ 64) S.length + (d - 1)) ≤ cycle + d ∨
        U64_MAX ≤ cycle + d := by
  have hpos : 0 < S.length := List.length_pos_iff.mpr hne
  have hlap : S.length * tick (cycle % 2 ^ 64) S.length ≤ cycle := by
    have hlength := length_le_of_bound hS hreach
    have htick : tick (cycle % 2 ^ 64) S.length ≤ cycle / S.length := by
      rw [tick, Nat.max_eq_left hpos, Nat.min_eq_left hlength]
      exact Nat.max_le.mpr ⟨Nat.div_le_div_right (Nat.mod_le _ _), hcycle⟩
    exact (Nat.mul_le_mul_left _ htick).trans (Nat.mul_div_le _ _)
  constructor
  · intro h
    by_contra hcond
    rw [not_or, Nat.not_le, Nat.not_le] at hcond
    exact not_honours hS hne hreach hlap hcond.1 hcond.2 h
  · intro hcond earlier calls hgrowing hschedule r
    have hcursor : ∀ c ∈ calls, r.cursor < c.slots := by
      intro c hc
      rcases cursor_after earlier (.new cycle) hgrowing (.inl rfl) with hzero | hlt
      · obtain ⟨i, hi⟩ := List.exists_mem_of_ne_nil S hne
        have := (hschedule.sees hreach hc).inside i hi
        rw [show r.cursor = 0 from hzero]
        omega
      · exact hlt c hc
    have hlate : Growing calls := hgrowing.right_of_append
    refine ⟨⟨turn S r.cursor, served_in_order hS hne hreach hlate hschedule hcursor⟩, ?_⟩
    intro i start finish hstart hfinish
    rcases hcond with hfits | hends
    · have hchain := isChain_starts hS hne hreach hlate hschedule hcursor
      have := le_of_isChain hchain hstart hfinish
      rw [cycleNs_after] at this
      exact this.trans (Nat.add_le_add_left hfits start)
    · obtain ⟨c, hc, rfl⟩ := mem_starts (List.mem_of_getElem? hfinish)
      exact (hschedule.clock c hc).trans (hends.trans (Nat.le_add_left _ _))

/-- A shard of one instrument. -/
theorem honours_one : Honours 5000000 [3] 1000000 := by
  refine (honours_iff 5000000 1000000 [3] ?_ ?_ ?_ ?_).mpr (.inl ?_)
  · exact List.pairwise_singleton _ _
  · exact List.cons_ne_nil _ _
  · decide
  · decide
  · decide

/-- A shard of five, called every tick at most: lateness adds up over the lap. -/
theorem not_honours_five : ¬Honours 5000000 [0, 1, 2, 3, 4] 1000000 :=
  not_honours (by decide) (List.cons_ne_nil _ _) (by decide) (by decide) (by decide) (by decide)

end EdgeMulticast.Runtime
