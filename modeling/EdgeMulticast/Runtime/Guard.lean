import EdgeMulticast.Lib.Spacing
import EdgeMulticast.Runtime.Duration
import EdgeMulticast.Runtime.Rotation

/-!
# The idle guard

`guard.rs` (`dz-publisher-runtime`).  The idle guard ends a publisher whose upstream delivers while
nothing reaches the wire.  It keeps four times; `Observed` says what they are of the history of
messages and publications behind them, and `Observed.observe` that one more call keeps it so.

Times are readings of the monotonic clock, in nanoseconds of a `u64`.
-/

namespace EdgeMulticast.Runtime

open EdgeMulticast.Lib

/-- What the consistency guard found. -/
inductive Inconsistency
  | egressDark (sink : List Char)
  | upstreamUnusable (detail : List Char)
  | stateUnpersistable (detail : List Char)
deriving DecidableEq

/-- Why the process is ending. -/
inductive Exit
  | idleGuard
  | consistencyGuard (what : Inconsistency)
  | signal
deriving DecidableEq

inductive Upstream
  | delivering
  | silent
deriving DecidableEq

/-! ## The idle guard -/

structure IdleGuard where
  /-- A `Duration`, which may be longer than the clock. -/
  window : ℕ
  lastUpstreamNs : Option ℕ := none
  lastPublishedNs : Option ℕ := none
  /-- When the upstream last resumed after a silence of a whole window or more. -/
  resumedNs : Option ℕ := none
  /-- When the window started counting for a publisher that has published nothing yet. -/
  startedNs : Option ℕ := none
deriving DecidableEq

namespace IdleGuard

def new (window : ℕ) : IdleGuard := { window }

def windowNs (g : IdleGuard) : ℕ := min g.window U64_MAX

/-- An upstream message the adapter recognised. -/
def upstream (g : IdleGuard) (nowNs : ℕ) : IdleGuard :=
  let silentSince := g.lastUpstreamNs.or g.startedNs
  { g with
    startedNs := g.startedNs.or (some nowNs)
    resumedNs := if silentSince.any fun since ↦ g.windowNs ≤ nowNs - since then some nowNs
      else g.resumedNs
    lastUpstreamNs := some nowNs }

/-- A message reached the wire. -/
def published (g : IdleGuard) (nowNs : ℕ) : IdleGuard :=
  { g with
    startedNs := g.startedNs.or (some nowNs)
    lastPublishedNs := some nowNs }

/-- What the upstream was doing, for a publisher silent since `since`. -/
def reading (g : IdleGuard) (since nowNs : ℕ) : Upstream :=
  match g.lastUpstreamNs with
  | some last =>
      if nowNs - last < g.windowNs ∧ g.windowNs ≤ last - since then .delivering else .silent
  | none => .silent

/-- Whether the guard has fired. -/
def check (g : IdleGuard) (nowNs : ℕ) : Option Exit :=
  match g.lastPublishedNs.or g.startedNs with
  | none => none
  | some published =>
      let since := max published (g.resumedNs.getD 0)
      if nowNs - since < g.windowNs then none
      else
        match g.reading since nowNs with
        | .delivering => some .idleGuard
        | .silent => none

end IdleGuard

/-! ## What the idle guard has seen -/

/-- A call of the idle guard. -/
inductive Seen
  | upstream (nowNs : ℕ)
  | published (nowNs : ℕ)
deriving DecidableEq

namespace Seen

def nowNs : Seen → ℕ
  | upstream nowNs | published nowNs => nowNs

def upstream? : Seen → Option ℕ
  | upstream nowNs => some nowNs
  | published _ => none

def published? : Seen → Option ℕ
  | upstream _ => none
  | published nowNs => some nowNs

end Seen

/-- The times of the upstream's messages. -/
def upstreamTimes (seen : List Seen) : List ℕ := seen.filterMap Seen.upstream?

/-- The times of the publications. -/
def publishedTimes (seen : List Seen) : List ℕ := seen.filterMap Seen.published?

/-- Since when the upstream is silent: its last message, or what started the window. -/
def silentSince (seen : List Seen) : Option ℕ :=
  (upstreamTimes seen).getLast?.or (seen.head?.map Seen.nowNs)

/-- An upstream message of the history, at `nowNs`, ended an upstream silence of a window or more. -/
def EndsSilence (window : ℕ) (seen : List Seen) (nowNs : ℕ) : Prop :=
  ∃ before after since, seen = before ++ .upstream nowNs :: after ∧
    silentSince before = some since ∧ since + window ≤ nowNs

/-- From `start` to `now` the upstream's messages are at most `gap` apart. -/
def KeepsArriving (seen : List Seen) (start now gap : ℕ) : Prop :=
  ∀ t, start ≤ t → t + gap ≤ now → ∃ u ∈ upstreamTimes seen, t < u ∧ u ≤ t + gap

namespace IdleGuard

def observe (g : IdleGuard) : Seen → IdleGuard
  | .upstream nowNs => g.upstream nowNs
  | .published nowNs => g.published nowNs

/-- The guard after a history of calls. -/
def after (window : ℕ) (seen : List Seen) : IdleGuard := seen.foldl observe (new window)

theorem after_concat (window : ℕ) (seen : List Seen) (s : Seen) :
    after window (seen ++ [s]) = (after window seen).observe s :=
  List.foldl_concat ..

end IdleGuard

/-! ## Times of a history -/

section History

variable {window nowNs : ℕ} {seen : List Seen} {s : Seen}

theorem upstreamTimes_concat (seen : List Seen) (s : Seen) :
    upstreamTimes (seen ++ [s]) = upstreamTimes seen ++ s.upstream?.toList := by
  rw [upstreamTimes, List.filterMap_append]
  cases s <;> rfl

theorem publishedTimes_concat (seen : List Seen) (s : Seen) :
    publishedTimes (seen ++ [s]) = publishedTimes seen ++ s.published?.toList := by
  rw [publishedTimes, List.filterMap_append]
  cases s <;> rfl

theorem mem_upstreamTimes : nowNs ∈ upstreamTimes seen ↔ .upstream nowNs ∈ seen := by
  rw [upstreamTimes, List.mem_filterMap]
  constructor
  · rintro ⟨s, hs, hnow⟩
    cases s with
    | upstream t => exact Option.some.inj hnow ▸ hs
    | published t => exact absurd hnow (Option.some_ne_none _).symm
  · exact fun h ↦ ⟨_, h, rfl⟩

theorem mem_publishedTimes : nowNs ∈ publishedTimes seen ↔ .published nowNs ∈ seen := by
  rw [publishedTimes, List.mem_filterMap]
  constructor
  · rintro ⟨s, hs, hnow⟩
    cases s with
    | upstream t => exact absurd hnow (Option.some_ne_none _).symm
    | published t => exact Option.some.inj hnow ▸ hs
  · exact fun h ↦ ⟨_, h, rfl⟩

theorem ordered_upstreamTimes (h : (seen.map Seen.nowNs).Pairwise (· ≤ ·)) :
    (upstreamTimes seen).Pairwise (· ≤ ·) := by
  refine List.Pairwise.filterMap _ (fun a b hab t ht u hu ↦ ?_) (List.pairwise_map.mp h)
  cases a <;> cases b <;> cases ht <;> cases hu
  exact hab

theorem ordered_publishedTimes (h : (seen.map Seen.nowNs).Pairwise (· ≤ ·)) :
    (publishedTimes seen).Pairwise (· ≤ ·) := by
  refine List.Pairwise.filterMap _ (fun a b hab t ht u hu ↦ ?_) (List.pairwise_map.mp h)
  cases a <;> cases b <;> cases ht <;> cases hu
  exact hab

/-- A message that ended a silence ended it before the last call, or is the last call. -/
theorem endsSilence_concat : EndsSilence window (seen ++ [s]) nowNs ↔
    EndsSilence window seen nowNs ∨ s = .upstream nowNs ∧
      ∃ since, silentSince seen = some since ∧ since + window ≤ nowNs := by
  constructor
  · rintro ⟨before, after, since, heq, hsince, hle⟩
    rcases List.eq_nil_or_concat after with rfl | ⟨init, last, rfl⟩
    · obtain ⟨rfl, rfl⟩ := List.concat_inj.mp (by simpa only [List.concat_eq_append] using heq)
      exact .inr ⟨rfl, since, hsince, hle⟩
    · rw [List.concat_eq_append, ← List.cons_append, ← List.append_assoc] at heq
      exact .inl ⟨before, init, since, (List.append_inj' heq rfl).1, hsince, hle⟩
  · rintro (⟨before, after, since, rfl, hsince, hle⟩ | ⟨rfl, since, hsince, hle⟩)
    · exact ⟨before, after ++ [s], since, by rw [List.append_assoc, List.cons_append], hsince, hle⟩
    · exact ⟨seen, [], since, rfl, hsince, hle⟩

/-- While the upstream keeps arriving from `start` on, no silence of a window ends later than its
first message. -/
theorem EndsSilence.le_of_keepsArriving {r start gap : ℕ} (hends : EndsSilence window seen r)
    (hordered : (seen.map Seen.nowNs).Pairwise (· ≤ ·)) (hnow : ∀ s ∈ seen, s.nowNs ≤ nowNs)
    (hgap : gap < window) (hkeeps : KeepsArriving seen start nowNs gap) : r ≤ start + gap := by
  obtain ⟨before, after, since, rfl, hsince, hle⟩ := hends
  by_contra hlt
  have hr : r ≤ nowNs := hnow (.upstream r) (List.mem_append_right _ List.mem_cons_self)
  -- Some message comes within the gap that follows the silence's start, and before `r`.
  obtain ⟨u, hu, hafter, hbefore⟩ := hkeeps (max start since) (le_max_left _ _) (by omega)
  rw [List.map_append, List.pairwise_append, List.map_cons, List.pairwise_cons] at hordered
  obtain ⟨hfirst, ⟨hrest, -⟩, -⟩ := hordered
  have humem : .upstream u ∈ before := by
    rcases List.mem_append.mp (mem_upstreamTimes.mp hu) with hu | hu
    · exact hu
    · rcases List.mem_cons.mp hu with heq | hu
      · obtain rfl := Seen.upstream.inj heq
        omega
      · have hru : r ≤ u := hrest _ (List.mem_map_of_mem hu)
        omega
  -- It is then the silence's own start, or before it.
  have hne := List.ne_nil_of_mem (mem_upstreamTimes.mpr humem)
  rw [silentSince, List.getLast?_eq_some_getLast hne, Option.some_or] at hsince
  have hlast := le_of_getLast?_eq_some (ordered_upstreamTimes hfirst)
    ((List.getLast?_eq_some_getLast hne).trans hsince) u (mem_upstreamTimes.mpr humem)
  omega

end History

namespace IdleGuard

variable {window nowNs : ℕ} {seen : List Seen} {s : Seen} {g : IdleGuard}

/-- What the guard's four times are of the calls it has seen. -/
structure Observed (window : ℕ) (seen : List Seen) (g : IdleGuard) : Prop where
  window_eq : g.window = window
  upstream : g.lastUpstreamNs = (upstreamTimes seen).getLast?
  published : g.lastPublishedNs = (publishedTimes seen).getLast?
  started : g.startedNs = seen.head?.map Seen.nowNs
  resumed : ∀ r, g.resumedNs = some r → EndsSilence window seen r
  latest : ∀ r, EndsSilence window seen r → ∃ last, g.resumedNs = some last ∧ r ≤ last

theorem observed_new (window : ℕ) : Observed window [] (new window) where
  window_eq := rfl
  upstream := rfl
  published := rfl
  started := rfl
  resumed := fun r h ↦ absurd h (Option.some_ne_none r).symm
  latest := by
    rintro r ⟨before, after, since, heq, -⟩
    exact absurd heq.symm (List.append_ne_nil_of_right_ne_nil _ (List.cons_ne_nil _ _))

theorem Observed.windowNs (h : Observed window seen g) (hfits : window < 2 ^ 64) :
    g.windowNs = window := by
  rw [IdleGuard.windowNs, h.window_eq]
  exact min_eq_left (Nat.le_sub_one_of_lt hfits)

/-- The start of the window is the first call. -/
theorem started_concat (h : g.startedNs = seen.head?.map Seen.nowNs) :
    g.startedNs.or (some s.nowNs) = (seen ++ [s]).head?.map Seen.nowNs := by
  rw [h]
  cases seen <;> rfl

theorem Observed.observe_upstream (h : Observed window seen g) (hfits : window < 2 ^ 64)
    (hpos : 0 < window) (hordered : ∀ s ∈ seen, s.nowNs ≤ nowNs) :
    Observed window (seen ++ [.upstream nowNs]) (g.upstream nowNs) := by
  have hsilent : g.lastUpstreamNs.or g.startedNs = silentSince seen := by
    rw [h.upstream, h.started, silentSince]
  have hresumed : (g.upstream nowNs).resumedNs =
      if (silentSince seen).any fun since ↦ window ≤ nowNs - since then some nowNs
      else g.resumedNs := by
    rw [← hsilent, ← h.windowNs hfits]
    rfl
  -- The condition of the source is the silence of `EndsSilence`.
  have hany : ((silentSince seen).any fun since ↦ window ≤ nowNs - since) = true ↔
      ∃ since, silentSince seen = some since ∧ since + window ≤ nowNs := by
    rw [Option.any_eq_true]
    refine exists_congr fun since ↦ and_congr_right fun hsince ↦ ?_
    rw [decide_eq_true_eq]
    omega
  constructor
  case window_eq => exact h.window_eq
  case upstream =>
    rw [upstreamTimes_concat]
    exact List.getLast?_concat.symm
  case published =>
    rw [publishedTimes_concat]
    exact h.published.trans (congrArg _ (List.append_nil _).symm)
  case started => exact started_concat (s := .upstream nowNs) h.started
  case resumed =>
    intro r hr
    rw [hresumed] at hr
    split at hr
    next hends =>
        obtain rfl := Option.some.inj hr
        exact endsSilence_concat.mpr (.inr ⟨rfl, hany.mp hends⟩)
    next => exact endsSilence_concat.mpr (.inl (h.resumed r hr))
  case latest =>
    intro r hr
    rw [hresumed]
    rcases endsSilence_concat.mp hr with hr | ⟨heq, hends⟩
    · split
      next =>
          obtain ⟨before, after, -, rfl, -⟩ := hr
          exact ⟨nowNs, rfl, hordered (.upstream r)
            (List.mem_append_right _ List.mem_cons_self)⟩
      next => exact h.latest r hr
    · obtain rfl := Seen.upstream.inj heq
      exact ⟨nowNs, if_pos (hany.mpr hends), le_rfl⟩

theorem Observed.observe_published (h : Observed window seen g) :
    Observed window (seen ++ [.published nowNs]) (g.published nowNs) where
  window_eq := h.window_eq
  upstream := by
    rw [upstreamTimes_concat]
    exact h.upstream.trans (congrArg _ (List.append_nil _).symm)
  published := by
    rw [publishedTimes_concat]
    exact List.getLast?_concat.symm
  started := started_concat (s := .published nowNs) h.started
  resumed := fun r hr ↦ endsSilence_concat.mpr (.inl (h.resumed r hr))
  latest := by
    intro r hr
    rcases endsSilence_concat.mp hr with hr | ⟨heq, -⟩
    · exact h.latest r hr
    · exact Seen.noConfusion heq

/-- The guard's times are those of the whole history. -/
theorem observed_after (hpos : 0 < window) (hfits : window < 2 ^ 64)
    (hordered : (seen.map Seen.nowNs).Pairwise (· ≤ ·)) :
    Observed window seen (after window seen) := by
  induction seen using List.reverseRecOn with
  | nil => exact observed_new window
  | append_singleton seen s ih =>
      rw [List.map_append, List.pairwise_append] at hordered
      have hbefore : ∀ earlier ∈ seen, earlier.nowNs ≤ s.nowNs := fun earlier hearlier ↦
        hordered.2.2 _ (List.mem_map_of_mem hearlier) _ (List.mem_singleton_self _)
      rw [after_concat]
      cases s with
      | upstream nowNs => exact (ih hordered.1).observe_upstream hfits hpos hbefore
      | published nowNs => exact (ih hordered.1).observe_published

/-! ## When it fires -/

/-- The guard fires for a silence of a window, and a message of the last window that came a window
after the silence began. -/
theorem check_eq_some_idleGuard_iff : g.check nowNs = some .idleGuard ↔
    ∃ published, g.lastPublishedNs.or g.startedNs = some published ∧
      ∃ last, g.lastUpstreamNs = some last ∧
        g.windowNs ≤ nowNs - max published (g.resumedNs.getD 0) ∧
        nowNs - last < g.windowNs ∧ g.windowNs ≤ last - max published (g.resumedNs.getD 0) := by
  rw [check]
  cases hpublished : g.lastPublishedNs.or g.startedNs with
  | none =>
      refine ⟨fun h ↦ absurd h (Option.some_ne_none _).symm, ?_⟩
      rintro ⟨published, heq, -⟩
      exact absurd heq (Option.some_ne_none _).symm
  | some published =>
      simp only [Option.some.injEq, exists_eq_left']
      rw [reading]
      cases g.lastUpstreamNs with
      | none =>
          refine ⟨fun h ↦ ?_, ?_⟩
          · split at h <;> exact absurd h (Option.some_ne_none _).symm
          · rintro ⟨last, heq, -⟩
            exact absurd heq (Option.some_ne_none _).symm
      | some last =>
          simp only [Option.some.injEq, exists_eq_left']
          split
          next hyoung => exact ⟨fun h ↦ absurd h (Option.some_ne_none _).symm, by omega⟩
          next hold =>
              split
              next hdelivering =>
                  split at hdelivering
                  next hrecent => exact ⟨fun _ ↦ ⟨by omega, hrecent⟩, fun _ ↦ rfl⟩
                  next => exact Upstream.noConfusion hdelivering
              next hsilent =>
                  split at hsilent
                  next => exact Upstream.noConfusion hsilent
                  next hquiet =>
                      exact ⟨fun h ↦ absurd h (Option.some_ne_none _).symm,
                        fun h ↦ absurd h.2 hquiet⟩

/-- No publication is after the time the guard counts from. -/
theorem Observed.published_le (h : Observed window seen g) {published : ℕ}
    (hordered : (seen.map Seen.nowNs).Pairwise (· ≤ ·))
    (hcounted : g.lastPublishedNs.or g.startedNs = some published) :
    ∀ p, .published p ∈ seen → p ≤ published := by
  intro p hp
  have hmem := mem_publishedTimes.mpr hp
  have hlast := (h.published.trans
    (List.getLast?_eq_some_getLast (List.ne_nil_of_mem hmem)))
  rw [hlast] at hcounted
  obtain rfl := Option.some.inj hcounted
  exact le_of_getLast?_eq_some (ordered_publishedTimes hordered) (h.published.symm.trans hlast) p
    hmem

/-- Nor a message that ended a silence. -/
theorem Observed.resumed_le (h : Observed window seen g) {r : ℕ}
    (hends : EndsSilence window seen r) : r ≤ g.resumedNs.getD 0 := by
  obtain ⟨last, hlast, hle⟩ := h.latest r hends
  rw [hlast]
  exact hle

/-- A guard that fires has seen the upstream deliver and nothing reach the wire. -/
theorem Observed.of_fires (h : Observed window seen g) (hfits : window < 2 ^ 64)
    (hordered : (seen.map Seen.nowNs).Pairwise (· ≤ ·))
    (hnow : ∀ s ∈ seen, s.nowNs ≤ nowNs) (hfires : g.check nowNs = some .idleGuard) :
    (∀ p, .published p ∈ seen → ¬(nowNs < p + window ∧ p ≤ nowNs)) ∧
      ∃ b, .upstream b ∈ seen ∧ nowNs < b + window ∧ b ≤ nowNs ∧
        (∀ p, .published p ∈ seen → p + window ≤ b) ∧
        ∀ r, EndsSilence window seen r → r + window ≤ b := by
  obtain ⟨published, hcounted, last, hlast, hsilent, hrecent, hlate⟩ :=
    check_eq_some_idleGuard_iff.mp hfires
  rw [h.windowNs hfits] at hsilent hrecent hlate
  have hpublished := h.published_le hordered hcounted
  have hmem : .upstream last ∈ seen := mem_upstreamTimes.mp
    (List.mem_of_getLast? (h.upstream.symm.trans hlast))
  have hbefore : last ≤ nowNs := hnow _ hmem
  refine ⟨fun p hp hin ↦ ?_, last, hmem, by omega, hbefore, fun p hp ↦ ?_, fun r hr ↦ ?_⟩
  · have := hpublished p hp
    omega
  · have := hpublished p hp
    omega
  · have := h.resumed_le hr
    omega

/-- A guard whose upstream keeps arriving fires once nothing was published for long enough. -/
theorem Observed.fires (h : Observed window seen g) (hfits : window < 2 ^ 64) {start gap : ℕ}
    (hordered : (seen.map Seen.nowNs).Pairwise (· ≤ ·)) (hnow : ∀ s ∈ seen, s.nowNs ≤ nowNs)
    (hgap : gap < window) (hkeeps : KeepsArriving seen start nowNs gap)
    (hsilent : ∀ p, .published p ∈ seen → p ≤ start) (hlate : start + window + 2 * gap ≤ nowNs) :
    g.check nowNs = some .idleGuard := by
  -- The last message is at most a gap old.
  obtain ⟨u, hu, hafter, -⟩ := hkeeps (nowNs - gap) (by omega) (by omega)
  have hlast := List.getLast?_eq_some_getLast (List.ne_nil_of_mem hu)
  have hule := le_of_getLast?_eq_some (ordered_upstreamTimes hordered) hlast u hu
  have hmem := mem_upstreamTimes.mp (List.mem_of_getLast? hlast)
  have hbefore := hnow _ hmem
  generalize (upstreamTimes seen).getLast _ = last at hlast hule hmem hbefore
  -- The silence is counted from no later than the first message.
  have hresumed : g.resumedNs.getD 0 ≤ start + gap := by
    cases hr : g.resumedNs with
    | none => exact Nat.zero_le _
    | some r =>
        exact (h.resumed r hr).le_of_keepsArriving hordered hnow hgap hkeeps
  obtain ⟨published, hcounted, hple⟩ : ∃ published,
      g.lastPublishedNs.or g.startedNs = some published ∧ published ≤ start + gap := by
    rw [h.published, h.started]
    cases hpublished : (publishedTimes seen).getLast? with
    | some p =>
        have := hsilent p (mem_publishedTimes.mp (List.mem_of_getLast? hpublished))
        exact ⟨p, rfl, by omega⟩
    | none =>
        obtain ⟨v, hv, -, hvle⟩ := hkeeps start le_rfl (by omega)
        cases seen with
        | nil => exact absurd hv List.not_mem_nil
        | cons first seen =>
            refine ⟨first.nowNs, rfl, ?_⟩
            rw [List.map_cons, List.pairwise_cons] at hordered
            rcases List.mem_cons.mp (mem_upstreamTimes.mp hv) with heq | hv
            · rw [← heq]
              exact hvle
            · exact (hordered.1 _ (List.mem_map_of_mem hv)).trans hvle
  have hbefore : last ≤ nowNs := hbefore
  refine check_eq_some_idleGuard_iff.mpr ⟨published, hcounted, last, h.upstream.trans hlast, ?_⟩
  rw [h.windowNs hfits]
  omega

/-- The idle guard fires for an upstream that delivers while nothing is published, and for nothing
else.  The windows are those that a configuration states, by `idleGuardOf_fits`. -/
theorem idleGuard_fires (hpos : 0 < window) (hfits : window < 2 ^ 64)
    (hordered : (seen.map Seen.nowNs).Pairwise (· ≤ ·)) (hnow : ∀ s ∈ seen, s.nowNs ≤ nowNs) :
    ((after window seen).check nowNs = some .idleGuard →
      (∀ p, .published p ∈ seen → ¬(nowNs < p + window ∧ p ≤ nowNs)) ∧
        ∃ b, .upstream b ∈ seen ∧ nowNs < b + window ∧ b ≤ nowNs ∧
          (∀ p, .published p ∈ seen → p + window ≤ b) ∧
          ∀ r, EndsSilence window seen r → r + window ≤ b) ∧
      ∀ start gap, gap < window → KeepsArriving seen start nowNs gap →
        (∀ p, .published p ∈ seen → p ≤ start) → start + window + 2 * gap ≤ nowNs →
        (after window seen).check nowNs = some .idleGuard :=
  have h := observed_after hpos hfits hordered
  ⟨h.of_fires hfits hordered hnow,
    fun _ _ hgap hkeeps hsilent hlate ↦ h.fires hfits hordered hnow hgap hkeeps hsilent hlate⟩

/-- Three messages over a window of ten, and nothing published. -/
theorem idleGuard_fires_ten : ∃ b, .upstream b ∈ [Seen.upstream 0, .upstream 5, .upstream 10] ∧
    12 < b + 10 ∧ b ≤ 12 :=
  have hfired : (after 10 [.upstream 0, .upstream 5, .upstream 10]).check 12 = some .idleGuard := by
    decide
  let ⟨b, hb, hrecent, hbefore, _⟩ := ((idleGuard_fires (by decide) (by decide) (by decide)
    (by decide)).1 hfired).2
  ⟨b, hb, hrecent, hbefore⟩

end IdleGuard
end EdgeMulticast.Runtime
