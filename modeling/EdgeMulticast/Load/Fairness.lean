import EdgeMulticast.Lib.Rounds
import EdgeMulticast.Load.Turns

/-!
# Fair turns

The turns of a pass serve its feeds in rounds.  No backlog of one feed puts another further behind than
the objects of one round, and the bound of a pass does not cut the turns of a round off unless it is
below the number of feeds that wait.
-/

namespace EdgeMulticast.Load

open EdgeMulticast.Lib

/-- The positions of a feed's objects, in the order of the walk. -/
def positions (derivable : List (ℕ × String)) (feed : String) : List ℕ :=
  (derivable.filter (·.2 = feed)).map Prod.fst

/-- The feeds with objects to derive. -/
def waiting (derivable : List (ℕ × String)) : Finset String := (derivable.map Prod.snd).toFinset

/-! ## The order of the turns -/

section

variable {derivable : List (ℕ × String)} {feed : String} {position round : ℕ}

theorem positions_cons_self (position : ℕ) (feed : String) (derivable : List (ℕ × String)) :
    positions ((position, feed) :: derivable) feed = position :: positions derivable feed := by
  rw [positions, List.filter_cons_of_pos (by exact decide_eq_true rfl), List.map_cons]
  rfl

theorem positions_cons_of_ne {feed' : String} (h : feed ≠ feed') :
    positions ((position, feed) :: derivable) feed' = positions derivable feed' := by
  rw [positions, List.filter_cons_of_neg (by exact mt of_decide_eq_true h)]
  rfl

theorem mem_positions : position ∈ positions derivable feed ↔ (position, feed) ∈ derivable := by
  rw [positions, List.mem_map]
  constructor
  · rintro ⟨⟨position, feed'⟩, hmem, rfl⟩
    obtain ⟨hmem, heq⟩ := List.mem_filter.mp hmem
    rw [← of_decide_eq_true heq]
    exact hmem
  · intro hmem
    exact ⟨(position, feed), List.mem_filter.mpr ⟨hmem, decide_eq_true rfl⟩, rfl⟩

/-- An object's round is how many of its feed are before it. -/
theorem mem_ranked {taken : String → ℕ} : (round, position) ∈ ranked taken derivable ↔
    ∃ feed i, round = taken feed + i ∧ (positions derivable feed)[i]? = some position := by
  induction derivable generalizing taken with
  | nil =>
      refine iff_of_false List.not_mem_nil ?_
      rintro ⟨feed, i, -, h⟩
      cases h
  | cons head derivable ih =>
      obtain ⟨p, f⟩ := head
      rw [ranked, List.mem_cons, ih]
      constructor
      · rintro (heq | ⟨feed, i, hround, hi⟩)
        · obtain ⟨rfl, rfl⟩ := Prod.mk.inj heq
          exact ⟨f, 0, rfl, by rw [positions_cons_self]; rfl⟩
        · by_cases hfeed : f = feed
          · subst hfeed
            rw [Function.update_self, Nat.add_right_comm, Nat.add_assoc] at hround
            exact ⟨f, i + 1, hround, by rw [positions_cons_self]; exact hi⟩
          · rw [Function.update_of_ne (Ne.symm hfeed)] at hround
            exact ⟨feed, i, hround, by rw [positions_cons_of_ne hfeed]; exact hi⟩
      · rintro ⟨feed, i, hround, hi⟩
        by_cases hfeed : f = feed
        · subst hfeed
          rw [positions_cons_self] at hi
          cases i with
          | zero =>
              cases hi
              exact .inl (Prod.ext hround rfl)
          | succ i =>
              refine .inr ⟨f, i, ?_, hi⟩
              rw [Function.update_self, hround, Nat.add_right_comm, Nat.add_assoc]
        · rw [positions_cons_of_ne hfeed] at hi
          refine .inr ⟨feed, i, ?_, hi⟩
          rw [Function.update_of_ne (Ne.symm hfeed), hround]

/-- Round before round, and the walk's own order within one. -/
def Before (a b : ℕ × ℕ) : Prop := a.1 < b.1 ∨ a.1 = b.1 ∧ a.2 ≤ b.2

instance (a b : ℕ × ℕ) : Decidable (Before a b) :=
  inferInstanceAs (Decidable (a.1 < b.1 ∨ a.1 = b.1 ∧ a.2 ≤ b.2))

theorem before_total (a b : ℕ × ℕ) : Before a b ∨ Before b a := by
  rcases lt_trichotomy a.1 b.1 with h | h | h
  · exact .inl (.inl h)
  · exact (le_total a.2 b.2).imp (fun hle ↦ .inr ⟨h, hle⟩) fun hle ↦ .inr ⟨h.symm, hle⟩
  · exact .inr (.inl h)

theorem Before.trans {a b c : ℕ × ℕ} (h : Before a b) (h' : Before b c) : Before a c := by
  rcases h with h | ⟨h, hle⟩
  · rcases h' with h' | ⟨h', -⟩
    · exact .inl (h.trans h')
    · exact .inl (h' ▸ h)
  · rcases h' with h' | ⟨h', hle'⟩
    · exact .inl (h ▸ h')
    · exact .inr ⟨h.trans h', hle.trans hle'⟩

/-- The objects with their rounds, in the order of the turns. -/
theorem exists_sorted (derivable : List (ℕ × String)) : ∃ sorted : List (ℕ × ℕ),
    sorted.map Prod.snd = takeTurns derivable ∧ sorted.Pairwise Before ∧
      ∀ a, a ∈ sorted ↔ a ∈ ranked (fun _ ↦ 0) derivable := by
  have : Std.Total Before := ⟨before_total⟩
  have : IsTrans (ℕ × ℕ) Before := ⟨fun _ _ _ ↦ Before.trans⟩
  refine ⟨_, rfl, ?_, fun a ↦ List.mem_insertionSort _⟩
  exact List.pairwise_insertionSort Before (ranked (fun _ ↦ 0) derivable)

theorem mem_takeTurns : position ∈ takeTurns derivable ↔
    ∃ feed ∈ waiting derivable, position ∈ positions derivable feed := by
  rw [(perm_takeTurns derivable).mem_iff]
  constructor
  · intro hmem
    obtain ⟨⟨position', feed⟩, hin, rfl⟩ := List.mem_map.mp hmem
    refine ⟨feed, List.mem_toFinset.mpr ?_, mem_positions.mpr hin⟩
    exact List.mem_map.mpr ⟨_, hin, rfl⟩
  · rintro ⟨feed, -, hmem⟩
    exact List.mem_map.mpr ⟨_, mem_positions.mp hmem, rfl⟩

/-- The positions in the walk's own order, each of one object. -/
def Walked (derivable : List (ℕ × String)) : Prop := (derivable.map Prod.fst).Pairwise (· < ·)

namespace Walked

variable (h : Walked derivable)
include h

theorem nodup : (derivable.map Prod.fst).Nodup := List.Pairwise.imp ne_of_lt h

theorem pairwise_positions (feed : String) : (positions derivable feed).Pairwise (· < ·) :=
  List.Pairwise.sublist (List.filter_sublist.map Prod.fst) h

/-- A position is of one feed. -/
theorem feed_unique {feed' : String} (hfeed : position ∈ positions derivable feed)
    (hfeed' : position ∈ positions derivable feed') : feed = feed' :=
  congrArg Prod.snd (List.inj_on_of_nodup_map h.nodup (mem_positions.mp hfeed)
    (mem_positions.mp hfeed') rfl)

/-- A position is of one round. -/
theorem round_eq {i : ℕ} (hmem : (round, position) ∈ ranked (fun _ ↦ 0) derivable)
    (hi : (positions derivable feed)[i]? = some position) : round = i := by
  obtain ⟨feed', j, rfl, hj⟩ := mem_ranked.mp hmem
  obtain rfl := h.feed_unique (List.mem_of_getElem? hi) (List.mem_of_getElem? hj)
  have hnodup : (positions derivable feed).Nodup := (h.pairwise_positions feed).imp ne_of_lt
  rw [Nat.zero_add]
  exact (List.getElem?_inj (List.getElem?_eq_some_iff.mp hj).1 hnodup).mp (hj.trans hi.symm)

theorem nodup_takeTurns : (takeTurns derivable).Nodup :=
  (perm_takeTurns derivable).nodup_iff.mpr h.nodup

/-- The turns keep the order of each feed. -/
theorem filter_takeTurns (feed : String) :
    (takeTurns derivable).filter (· ∈ positions derivable feed) = positions derivable feed := by
  obtain ⟨sorted, hturns, hsorted, hmem⟩ := exists_sorted derivable
  have hne : sorted.Pairwise fun a b ↦ a.2 ≠ b.2 := by
    rw [← List.pairwise_map, hturns]
    exact h.nodup_takeTurns
  have hlt : ((takeTurns derivable).filter (· ∈ positions derivable feed)).Pairwise (· < ·) := by
    rw [← hturns, List.pairwise_filter, List.pairwise_map]
    refine (hsorted.and hne).imp_of_mem ?_
    rintro ⟨i, x⟩ ⟨j, y⟩ hx hy ⟨hbefore, hxy⟩ hfeed hfeed'
    obtain ⟨i', hi, heq⟩ := List.getElem_of_mem (of_decide_eq_true hfeed)
    obtain ⟨j', hj, heq'⟩ := List.getElem_of_mem (of_decide_eq_true hfeed')
    obtain rfl := h.round_eq ((hmem _).mp hx) ((List.getElem?_eq_getElem hi).trans (congrArg _ heq))
    obtain rfl := h.round_eq ((hmem _).mp hy) ((List.getElem?_eq_getElem hj).trans (congrArg _ heq'))
    rcases hbefore with hlt | ⟨-, hle⟩
    · have hpair := List.pairwise_iff_getElem.mp (h.pairwise_positions feed) i j hi hj hlt
      rwa [heq, heq'] at hpair
    · exact lt_of_le_of_ne hle hxy
  have hperm : ((takeTurns derivable).filter (· ∈ positions derivable feed)).Perm
      (positions derivable feed) := by
    refine (List.perm_ext_iff_of_nodup (hlt.imp ne_of_lt)
      ((h.pairwise_positions feed).imp ne_of_lt)).mpr fun x ↦ ?_
    rw [List.mem_filter, decide_eq_true_eq]
    refine and_iff_right_of_imp fun hx ↦ (perm_takeTurns derivable).mem_iff.mpr ?_
    exact List.mem_map.mpr ⟨_, mem_positions.mp hx, rfl⟩
  exact hperm.eq_of_pairwise' hlt (h.pairwise_positions feed)

/-- A turn of an earlier round is before one of a later round. -/
theorem round_le {feed' : String} {m i j x y : ℕ} (hx : (positions derivable feed)[i]? = some x)
    (hy : (positions derivable feed')[j]? = some y) (hin : x ∈ (takeTurns derivable).take m)
    (hout : y ∉ (takeTurns derivable).take m) : i ≤ j := by
  obtain ⟨sorted, hturns, hsorted, hmem⟩ := exists_sorted derivable
  rw [← List.take_append_drop m sorted] at hsorted
  rw [← hturns, ← List.map_take] at hin hout
  obtain ⟨⟨i', x⟩, htaken, rfl⟩ := List.mem_map.mp hin
  have hturn : y ∈ sorted.map Prod.snd := by
    rw [hturns, (perm_takeTurns derivable).mem_iff]
    exact List.mem_map.mpr ⟨_, mem_positions.mp (List.mem_of_getElem? hy), rfl⟩
  obtain ⟨⟨j', y⟩, hmem', rfl⟩ := List.mem_map.mp hturn
  obtain rfl := h.round_eq ((hmem _).mp (List.mem_of_mem_take htaken)) hx
  obtain rfl := h.round_eq ((hmem _).mp hmem') hy
  have hdrop : (j', y) ∈ sorted.drop m := by
    rw [← List.take_append_drop m sorted] at hmem'
    refine (List.mem_append.mp hmem').resolve_left fun htake ↦ hout ?_
    exact List.mem_map.mpr ⟨_, htake, rfl⟩
  rcases (List.pairwise_append.mp hsorted).2.2 _ htaken _ hdrop with hlt | ⟨heq, -⟩
  · exact hlt.le
  · exact heq.le

/-- The turns of a pass serve its feeds in rounds. -/
theorem inRounds : InRounds (positions derivable) (waiting derivable) (takeTurns derivable) where
  nodup := h.nodup_takeTurns
  single := by
    intro x hx
    obtain ⟨feed, hfeed, hmem⟩ := mem_takeTurns.mp hx
    refine ⟨feed, hfeed, fun feed' _ ↦ ⟨fun hmem' ↦ h.feed_unique hmem' hmem, ?_⟩⟩
    rintro rfl
    exact hmem
  order feed _ := h.filter_takeTurns feed
  round _ _ _ _ _ _ _ := h.round_le

end Walked

end

/-- Turns that are fair: no object is added or dropped, a feed's objects keep their order, a feed with
objects left behind a prefix is at most one object behind another feed in it, a prefix of one turn for
each waiting feed has the first object of each, and the objects of a feed are all in the prefix of as
many rounds. -/
structure Fair (derivable : List (ℕ × String)) (turns : List ℕ) : Prop where
  perm : turns.Perm (derivable.map Prod.fst)
  order : ∀ feed, turns.filter (· ∈ positions derivable feed) = positions derivable feed
  level : ∀ (m : ℕ) (feed feed' : String), (∃ x ∈ positions derivable feed, x ∉ turns.take m) →
    served (positions derivable) turns m feed' ≤ served (positions derivable) turns m feed + 1
  first : ∀ (m : ℕ), (waiting derivable).card ≤ m → ∀ feed ∈ waiting derivable,
    ∃ x ∈ turns.take m, (positions derivable feed).head? = some x
  whole : ∀ (m : ℕ) (feed : String), (positions derivable feed).length * (waiting derivable).card ≤ m →
    ∀ x ∈ positions derivable feed, x ∈ turns.take m

theorem mem_waiting {derivable : List (ℕ × String)} {feed : String} {x : ℕ}
    (h : x ∈ positions derivable feed) : feed ∈ waiting derivable :=
  List.mem_toFinset.mpr (List.mem_map.mpr ⟨_, mem_positions.mp h, rfl⟩)

theorem exists_first {derivable : List (ℕ × String)} {feed : String}
    (h : feed ∈ waiting derivable) : ∃ x, (positions derivable feed)[0]? = some x := by
  obtain ⟨⟨x, feed⟩, hmem, rfl⟩ := List.mem_map.mp (List.mem_toFinset.mp h)
  exact ⟨_, List.getElem?_eq_getElem (List.length_pos_of_mem (mem_positions.mpr hmem))⟩

theorem Walked.fair {derivable : List (ℕ × String)} (h : Walked derivable) :
    Fair derivable (takeTurns derivable) where
  perm := perm_takeTurns derivable
  order := h.filter_takeTurns
  level := by
    rintro m feed feed' ⟨x, hx, hout⟩
    have hfeed := mem_waiting hx
    by_cases hfeed' : feed' ∈ waiting derivable
    · refine h.inRounds.served_le_succ hfeed hfeed' ?_
      obtain ⟨i, hi, rfl⟩ := List.getElem_of_mem hx
      refine lt_of_le_of_lt (not_lt.mp fun hlt ↦ hout ?_) hi
      exact (h.inRounds.mem_take_iff hfeed (List.getElem?_eq_getElem hi)).mpr hlt
    · rw [served, List.countP_eq_zero.mpr]
      · exact Nat.zero_le _
      · intro y _ hy
        exact hfeed' (mem_waiting (of_decide_eq_true hy))
  first := by
    intro m hm feed hfeed
    obtain ⟨x, hx⟩ := exists_first hfeed
    refine ⟨x, (h.inRounds.mem_take_iff hfeed hx).mpr ?_, List.head?_eq_getElem? ▸ hx⟩
    have hserved := h.inRounds.min_le_served (n := 1) hfeed ((Nat.one_mul _).trans_le hm)
    exact (lt_min one_pos (List.getElem?_eq_some_iff.mp hx).1).trans_le hserved
  whole := by
    intro m feed hm x hx
    exact h.inRounds.lane_subset_take (mem_waiting hx) le_rfl hm x hx

/-! ## A pass -/

variable {sink : RowSink} {config : Config} {json : LineCodec Entry} {v : Visit}

theorem Going.derived_derive_le (g : Going sink) (c : Candidate) :
    (g.derive config json v c).pass.derived ≤ g.pass.derived + 1 := by
  rw [Going.derive.eq_def]
  cases c.published.reread with
  | gone => exact Nat.le_succ _
  | failed => exact Nat.le_succ _
  | found m =>
      dsimp only
      obtain ⟨l, result⟩ := g.loader.load config json v c.published m
      cases result with
      | ok recorded => exact le_rfl
      | error failed =>
          dsimp only
          split
          next => exact Nat.le_succ _
          next => exact Nat.le_succ _

theorem Going.derived_turn_le (g : Going sink) (candidates : List Candidate) (index : ℕ) :
    (g.turn config json v candidates index).pass.derived ≤ g.pass.derived + 1 := by
  rw [Going.turn.eq_def]
  split
  next => exact Nat.le_succ _
  next =>
      split
      next => exact Nat.le_succ _
      next =>
          cases candidates[index]? with
          | none => exact Nat.le_succ _
          | some c => exact g.derived_derive_le c

/-- A turn of a pass that goes on derives its candidate. -/
theorem Going.turn_eq {g : Going sink} {candidates : List Candidate} {index : ℕ}
    (hended : g.ended = false) (hcut : ¬g.Cut config v index) :
    g.turn config json v candidates index =
      (candidates[index]?).elim g (g.derive config json v) := by
  rw [Going.turn.eq_def, hended, if_neg Bool.false_ne_true]
  refine (if_neg hcut).trans ?_
  cases candidates[index]? with
  | none => rfl
  | some c => rfl

namespace Loader

variable {l : Loader sink}

theorem derived_after_le (before : List ℕ) :
    (l.after config json v before).pass.derived ≤ before.length := by
  induction before using List.reverseRecOn with
  | nil => exact le_rfl
  | append_singleton before index ih =>
      rw [after, run_snoc, List.length_append, List.length_singleton]
      exact (Going.derived_turn_le _ _ _).trans (Nat.succ_le_succ ih)

/-- Deriving an object on the way through some turns has lost what the sink held. -/
def Lost (config : Config) (json : LineCodec Entry) (v : Visit) (l : Loader sink)
    (turns : List ℕ) : Prop :=
  ∃ before index rest c, turns = before ++ index :: rest ∧
    (config.candidates v.directory)[index]? = some c ∧
      ((l.after config json v before).derive config json v c).ended = true

/-- A pass comes to the first of some candidates and derives it, unless a signal or a sink that lost
its rows has ended the loading before. -/
def Advances (config : Config) (json : LineCodec Entry) (v : Visit) (l : Loader sink)
    (positions : List ℕ) : Prop :=
  ∃ before index rest, l.turns config v = before ++ index :: rest ∧ positions.head? = some index ∧
    ((∃ i ∈ before ++ [index], v.stop i = true) ∨ l.Lost config json v before ∨
      ∃ c, (config.candidates v.directory)[index]? = some c ∧
        l.after config json v (before ++ [index]) =
          (l.after config json v before).derive config json v c)

theorem not_cut (json : LineCodec Entry) (l : Loader sink) {before : List ℕ} {index : ℕ} (hstop : v.stop index = false)
    (hbound : config.maxObjects = 0 ∨ before.length < config.maxObjects) :
    ¬(l.after config json v before).Cut config v index := by
  rintro (h | ⟨hne, hle⟩)
  · exact Bool.false_ne_true (hstop.symm.trans h)
  · rcases hbound with hzero | hlt
    · exact hne hzero
    · exact ((derived_after_le before).trans_lt hlt).not_ge hle

/-- A pass goes on as long as no signal, no lost rows and no bound ends it. -/
theorem ended_after {before : List ℕ} (hstop : ∀ i ∈ before, v.stop i = false)
    (hlost : ¬l.Lost config json v before)
    (hbound : config.maxObjects = 0 ∨ before.length ≤ config.maxObjects) :
    (l.after config json v before).ended = false := by
  induction before using List.reverseRecOn with
  | nil => rfl
  | append_singleton before index ih =>
      rw [List.length_append, List.length_singleton, Nat.add_one_le_iff] at hbound
      have hended : (l.after config json v before).ended = false := by
        refine ih (fun i hi ↦ hstop i (List.mem_append_left _ hi)) ?_ (hbound.imp_right le_of_lt)
        rintro ⟨earlier, i, later, c, rfl, hc, hend⟩
        exact hlost ⟨earlier, i, later ++ [index], c, by simp, hc, hend⟩
      have hcut := not_cut json l
        (hstop index (List.mem_append_right _ (List.mem_singleton_self index))) hbound
      rw [after, run_snoc]
      refine (congrArg Going.ended (Going.turn_eq hended hcut)).trans ?_
      cases hc : (config.candidates v.directory)[index]? with
      | none => exact hended
      | some c =>
          refine Bool.eq_false_iff.mpr fun hend ↦ hlost ?_
          exact ⟨before, index, [], c, rfl, hc, hend⟩

theorem walked_derivable (config : Config) (l : Loader sink) (candidates : List Candidate) :
    Walked (l.scan config candidates).derivable :=
  List.Pairwise.sublist (l.derivable_sublist candidates) List.pairwise_lt_range'

/-- A pass advances every feed that waits, if its bound is not below their number. -/
theorem advances (h : config.maxObjects = 0 ∨
      (waiting (l.scan config (config.candidates v.directory)).derivable).card ≤ config.maxObjects)
    {feed : String}
    (hfeed : feed ∈ waiting (l.scan config (config.candidates v.directory)).derivable) :
    l.Advances config json v
      (positions (l.scan config (config.candidates v.directory)).derivable feed) := by
  obtain ⟨index, hin, hhead⟩ := (walked_derivable config l
    (config.candidates v.directory)).fair.first _ le_rfl feed hfeed
  obtain ⟨r, hr, rfl⟩ := List.mem_take_iff_getElem.mp hin
  obtain ⟨hround, hlen⟩ := lt_min_iff.mp hr
  change r < (l.turns config v).length at hlen
  refine ⟨(l.turns config v).take r, (l.turns config v)[r], (l.turns config v).drop (r + 1), ?_,
    hhead, ?_⟩
  · rw [List.getElem_cons_drop, List.take_append_drop]
  · by_cases hstop : ∃ i ∈ (l.turns config v).take r ++ [(l.turns config v)[r]], v.stop i = true
    · exact .inl hstop
    · by_cases hlost : l.Lost config json v ((l.turns config v).take r)
      · exact .inr (.inl hlost)
      · refine .inr (.inr ?_)
        have hquiet : ∀ i ∈ (l.turns config v).take r ++ [(l.turns config v)[r]],
            v.stop i = false := fun i hi ↦ Bool.eq_false_iff.mpr fun hi' ↦ hstop ⟨i, hi, hi'⟩
        have hbound : config.maxObjects = 0 ∨ ((l.turns config v).take r).length <
            config.maxObjects := by
          refine h.imp_right fun hle ↦ ?_
          rw [List.length_take, Nat.min_eq_left hlen.le]
          exact hround.trans_le hle
        have hended := ended_after (fun i hi ↦ hquiet i (List.mem_append_left _ hi)) hlost
          (hbound.imp_right le_of_lt)
        have hcut := not_cut json l (hquiet _ (List.mem_append_right _
          (List.mem_singleton_self _))) hbound
        obtain ⟨c, m, hc, -⟩ := mem_turns.mp (List.getElem_mem hlen)
        refine ⟨c, hc, ?_⟩
        rw [after, run_snoc]
        refine (Going.turn_eq hended hcut).trans ?_
        rw [hc]
        rfl

end Loader

/-- Feeds take fair turns, and a pass whose bound is not below the number of feeds that wait advances
each of them. -/
theorem feeds_take_fair_turns (derivable : List (ℕ × String)) (h : Walked derivable) :
    Fair derivable (takeTurns derivable) ∧
      ∀ {sink : RowSink} (config : Config) (json : LineCodec Entry) (v : Visit) (l : Loader sink),
        (l.scan config (config.candidates v.directory)).derivable = derivable →
        config.maxObjects = 0 ∨ (waiting derivable).card ≤ config.maxObjects →
        ∀ feed ∈ waiting derivable, l.Advances config json v (positions derivable feed) := by
  refine ⟨h.fair, ?_⟩
  rintro sink config json v l rfl hbound feed hfeed
  exact Loader.advances hbound hfeed

theorem feeds_take_fair_turns_backlog :
    Fair [(0, "new"), (1, "new"), (2, "live"), (3, "new")]
      (takeTurns [(0, "new"), (1, "new"), (2, "live"), (3, "new")]) :=
  (feeds_take_fair_turns _ (by unfold Walked; decide)).1

end EdgeMulticast.Load
