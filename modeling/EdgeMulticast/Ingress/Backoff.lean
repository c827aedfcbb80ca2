import EdgeMulticast.Ingress.Pacing
import EdgeMulticast.Lib.StdDuration
import Mathlib.Data.Nat.ModEq
import Mathlib.Data.List.Forall2

/-!
# The reconnect delays in machine words

`backoff.rs` (`dz-ingress-core`) again, on the two words of a `Duration` and with every operation
that can overflow or panic kept apart.  `nextDelay_spec` says that none of them does and that the
delay is the one `Ingress.Backoff` draws in whole nanoseconds.
-/

namespace EdgeMulticast.Ingress.Checked

open EdgeMulticast.Lib

/-- Why a policy is refused. -/
inductive ConfigError
  | zeroDuration (key : String)
  | backoffInverted (initial max : StdDuration)
  deriving DecidableEq

/-- The two configured durations. -/
structure BackoffPolicy where
  initial : StdDuration
  max : StdDuration
  initial_pos : 0 < initial.asNanos
  initial_le : initial.asNanos ≤ max.asNanos

namespace BackoffPolicy

def new (initial max : StdDuration) : Except ConfigError BackoffPolicy :=
  if hzero : initial.isZero then .error (.zeroDuration "reconnect_backoff_initial")
  else if hle : max.asNanos < initial.asNanos then .error (.backoffInverted initial max)
  else .ok ⟨initial, max, Nat.pos_of_ne_zero (mt StdDuration.isZero_iff.mpr hzero),
    Nat.le_of_not_lt hle⟩

/-- The policy in nanoseconds. -/
def total (policy : BackoffPolicy) : Ingress.BackoffPolicy where
  initial := policy.initial.asNanos
  max := policy.max.asNanos
  initial_pos := policy.initial_pos
  initial_le := policy.initial_le

end BackoffPolicy

/-- The next ceiling up. -/
def doubled (ceiling : StdDuration) (policy : BackoffPolicy) : StdDuration :=
  ((ceiling.checkedMul 2).getD policy.max).min policy.max

/-- The doubling saturates at the maximum, also where the words overflow. -/
theorem asNanos_doubled (ceiling : StdDuration) (policy : BackoffPolicy) :
    (doubled ceiling policy).asNanos = Ingress.Backoff.doubled ceiling.asNanos policy.total := by
  have hmax := policy.max.asNanos_lt
  rw [doubled, StdDuration.asNanos_min, StdDuration.checkedMul_eq, Nat.mul_comm]
  rcases Nat.lt_or_ge (2 * ceiling.asNanos) StdDuration.LIMIT with hlt | hle
  · obtain ⟨twice, htwice⟩ := StdDuration.ofNanos_of_lt hlt
    rw [htwice, Option.getD_some, StdDuration.asNanos_of_ofNanos htwice]
    rfl
  · rw [StdDuration.ofNanos_of_le hle, Option.getD_none]
    exact (Nat.min_self _).trans (Nat.min_eq_right (hmax.le.trans hle)).symm

/-- The delay sequence. -/
structure Backoff where
  policy : BackoffPolicy
  ceiling : StdDuration
  /-- The generator's state. -/
  entropy : UInt64
  initial_le : policy.initial.asNanos ≤ ceiling.asNanos
  ceiling_le : ceiling.asNanos ≤ policy.max.asNanos

namespace Backoff

/-- The sequence in nanoseconds. -/
def total (b : Backoff) : Ingress.Backoff where
  policy := b.policy.total
  ceiling := b.ceiling.asNanos
  entropy := b.entropy
  initial_le := b.initial_le
  ceiling_le := b.ceiling_le

@[simp] theorem total_ceiling (b : Backoff) : b.total.ceiling = b.ceiling.asNanos := rfl

@[simp] theorem total_initial (b : Backoff) :
    b.total.policy.initial = b.policy.initial.asNanos := rfl

theorem initial_le_doubled {ceiling : StdDuration} {policy : BackoffPolicy}
    (h : policy.initial.asNanos ≤ ceiling.asNanos) :
    policy.initial.asNanos ≤ (doubled ceiling policy).asNanos := by
  have h' : policy.total.initial ≤ ceiling.asNanos := h
  rw [asNanos_doubled]
  exact Ingress.Backoff.initial_le_doubled h'

theorem doubled_le (ceiling : StdDuration) (policy : BackoffPolicy) :
    (doubled ceiling policy).asNanos ≤ policy.max.asNanos :=
  (asNanos_doubled ceiling policy).trans_le (min_le_right _ _)

def openingCeiling (policy : BackoffPolicy) : StdDuration := doubled policy.initial policy

def new (policy : BackoffPolicy) (seed : UInt64) : Backoff where
  policy
  ceiling := openingCeiling policy
  entropy := seed
  initial_le := initial_le_doubled le_rfl
  ceiling_le := doubled_le _ _

/-- The next number of the generator and its next state. -/
def splitMix (entropy : UInt64) : UInt64 × UInt64 :=
  let entropy := entropy + 0x9e3779b97f4a7c15
  let mixed := (entropy ^^^ (entropy >>> 30)) * 0xbf58476d1ce4e5b9
  let mixed := (mixed ^^^ (mixed >>> 27)) * 0x94d049bb133111eb
  (mixed ^^^ (mixed >>> 31), entropy)

/-- The generator's increment. -/
def INCREMENT : UInt64 := 0x9e3779b97f4a7c15

theorem draw_eq (b : Ingress.Backoff) :
    b.draw = ((splitMix b.entropy).1, { b with entropy := (splitMix b.entropy).2 }) := by
  rw [Ingress.Backoff.draw, splitMix]

def draw (b : Backoff) : UInt64 × Backoff :=
  ((splitMix b.entropy).1, { b with entropy := (splitMix b.entropy).2 })

/-- A draw of `0..=most`, or none where the 128-bit product overflows. -/
def drawAtMost (b : Backoff) (most : UInt64) : Option (UInt64 × Backoff) :=
  let (drawn, b) := b.draw
  let product := drawn.toNat * (most.toNat + 1)
  if product < 2 ^ 128 then
    let scaled := product >>> 64
    some (if scaled < 2 ^ 64 then UInt64.ofNat scaled else most, b)
  else none

/-- The ceiling doubled. -/
def raised (b : Backoff) : Backoff := {
  b with
  ceiling := doubled b.ceiling b.policy
  initial_le := initial_le_doubled b.initial_le
  ceiling_le := doubled_le _ _ }

/-- The widest window that a draw covers. -/
def spanNs (window : StdDuration) : UInt64 :=
  if window.asNanos < 2 ^ 64 then UInt64.ofNat window.asNanos else UInt64.ofNat (2 ^ 64 - 1)

/-- The delay to wait now, or none where a subtraction or the product overflows. -/
def nextDelay (b : Backoff) : Option (StdDuration × Backoff) := do
  let upper ← b.ceiling.checkedSub b.ceiling.half
  let floor := upper.max b.policy.initial
  let window ← b.ceiling.checkedSub floor
  let (drawn, b) ← b.raised.drawAtMost (spanNs window)
  some (floor.saturatingAdd (.fromNanos drawn.toNat drawn.toNat_lt), b)

/-- Start the sequence over. -/
def reset (b : Backoff) : Backoff where
  policy := b.policy
  ceiling := openingCeiling b.policy
  entropy := b.entropy
  initial_le := initial_le_doubled le_rfl
  ceiling_le := doubled_le _ _

/-! ## No operation overflows -/

theorem total_raised (b : Backoff) : b.raised.total = b.total.raised := by
  simp only [total, raised, Ingress.Backoff.raised, asNanos_doubled]

/-- Whatever the generator's next state is, it takes the place of the last one. -/
theorem total_entropy (b : Backoff) (entropy : UInt64) :
    { b.total with entropy } = ({ b with entropy } : Backoff).total := rfl

theorem total_draw (b : Backoff) : b.total.draw = (b.draw.1, b.draw.2.total) :=
  (draw_eq b.total).trans (congrArg (Prod.mk _) (total_entropy b (splitMix b.entropy).2))

theorem toNat_spanNs (window : StdDuration) :
    (spanNs window).toNat = min window.asNanos (2 ^ 64 - 1) := by
  rw [spanNs]
  split
  next h => rw [UInt64.toNat_ofNat_of_lt' h, min_eq_left (Nat.le_sub_one_of_lt h)]
  next h => rw [UInt64.toNat_ofNat_of_lt' (by decide), min_eq_right (by omega)]

/-- The product fits its 128 bits and its high half the draw. -/
theorem drawAtMost_spec (b : Backoff) (most : UInt64) :
    ∃ drawn b', b.drawAtMost most = some (drawn, b') ∧
      (drawn.toNat, b'.total) = b.total.drawAtMost most.toNat := by
  have hdraw := b.draw.1.toNat_lt
  have hmost := most.toNat_lt
  have hproduct : b.draw.1.toNat * (most.toNat + 1) < 2 ^ 128 :=
    calc b.draw.1.toNat * (most.toNat + 1)
        < 2 ^ 64 * (most.toNat + 1) := Nat.mul_lt_mul_of_pos_right hdraw (Nat.succ_pos _)
      _ ≤ 2 ^ 64 * 2 ^ 64 := Nat.mul_le_mul_left _ hmost
      _ = 2 ^ 128 := by decide
  have hscaled : (b.draw.1.toNat * (most.toNat + 1)) >>> 64 < 2 ^ 64 := by
    rw [Nat.shiftRight_eq_div_pow]
    exact Nat.div_lt_of_lt_mul (hproduct.trans_eq (Nat.pow_add 2 64 64))
  refine ⟨.ofNat ((b.draw.1.toNat * (most.toNat + 1)) >>> 64), b.draw.2, ?_, ?_⟩
  · exact (if_pos hproduct).trans (congrArg (fun drawn ↦ some (drawn, b.draw.2)) (if_pos hscaled))
  · rw [UInt64.toNat_ofNat_of_lt' hscaled, Nat.shiftRight_eq_div_pow, Ingress.Backoff.drawAtMost,
      total_draw]

/-- The delay in words is the delay in nanoseconds. -/
theorem nextDelay_spec (b : Backoff) :
    ∃ delay b', b.nextDelay = some (delay, b') ∧
      (delay.asNanos, b'.total) = b.total.nextDelay := by
  obtain ⟨upper, hupper, hupperNs⟩ :=
    StdDuration.checkedSub_of_le (d := b.ceiling) (e := b.ceiling.half)
      (by rw [StdDuration.asNanos_half]; exact Nat.div_le_self _ _)
  rw [StdDuration.asNanos_half] at hupperNs
  have hfloor : (upper.max b.policy.initial).asNanos = b.total.floor := by
    rw [StdDuration.asNanos_max, hupperNs, Ingress.Backoff.floor, total_ceiling, total_initial]
  obtain ⟨window, hwindow, hwindowNs⟩ :=
    StdDuration.checkedSub_of_le (d := b.ceiling) (e := upper.max b.policy.initial)
      (hfloor.trans_le b.total.floor_le)
  obtain ⟨drawn, b', hdrawn, htotal⟩ := drawAtMost_spec b.raised (spanNs window)
  rw [toNat_spanNs, hwindowNs, hfloor, total_raised] at htotal
  refine ⟨(upper.max b.policy.initial).saturatingAdd (.fromNanos drawn.toNat drawn.toNat_lt), b',
    ?_, ?_⟩
  · rw [nextDelay]
    refine Option.bind_eq_some_iff.mpr ⟨upper, hupper, ?_⟩
    refine Option.bind_eq_some_iff.mpr ⟨window, hwindow, ?_⟩
    exact Option.bind_eq_some_iff.mpr ⟨(drawn, b'), hdrawn, rfl⟩
  have hnext : b.total.nextDelay = (b.total.floor + drawn.toNat, b'.total) := by
    rw [← total_ceiling] at htotal
    rw [Ingress.Backoff.nextDelay, ← htotal]
  have hle : b.total.floor + drawn.toNat ≤ b.ceiling.asNanos :=
    (congrArg Prod.fst hnext).symm.trans_le b.total.nextDelay_mem.2
  rw [hnext, StdDuration.asNanos_saturatingAdd, StdDuration.asNanos_fromNanos, hfloor]
  rw [StdDuration.asNanos_fromNanos, hfloor]
  exact hle.trans_lt b.ceiling.asNanos_lt

/-- What a delay leaves: the ceiling doubled and the generator one step on. -/
theorem after_nextDelay {b b' : Backoff} {delay : StdDuration}
    (h : b.nextDelay = some (delay, b')) :
    b'.policy.total = b.policy.total ∧
      b'.ceiling.asNanos = Ingress.Backoff.doubled b.ceiling.asNanos b.policy.total ∧
      b'.entropy = b.entropy + INCREMENT ∧
      b.total.floor ≤ delay.asNanos ∧ delay.asNanos ≤ b.ceiling.asNanos := by
  obtain ⟨delay', b'', h', htotal⟩ := nextDelay_spec b
  obtain ⟨rfl, rfl⟩ := Prod.mk.inj (Option.some.inj (h.symm.trans h'))
  have hnext : b'.total = b.total.nextDelay.2 := congrArg Prod.snd htotal
  have hdelay : delay.asNanos = b.total.nextDelay.1 := congrArg Prod.fst htotal
  refine ⟨?_, ?_, ?_, ?_, ?_⟩
  · exact congrArg Ingress.Backoff.policy hnext
  · exact congrArg Ingress.Backoff.ceiling hnext
  · exact congrArg Ingress.Backoff.entropy hnext
  · exact (Nat.le_add_right _ _).trans_eq hdelay.symm
  · exact hdelay.trans_le b.total.nextDelay_mem.2

/-! ## Sequences of calls -/

/-- A call of a driver. -/
inductive Call
  | nextDelay
  | reset
  deriving DecidableEq

/-- A delay, with the ceiling it was drawn under and the generator's state it was drawn from. -/
structure Drawn where
  ceiling : StdDuration
  entropy : UInt64
  delay : StdDuration

/-- The delays of a sequence of calls, or none where one of them overflows. -/
def run : Backoff → List Call → Option (List Drawn × Backoff)
  | b, [] => some ([], b)
  | b, .nextDelay :: calls => do
    let (delay, next) ← b.nextDelay
    let (drawn, last) ← run next calls
    some (⟨b.ceiling, b.entropy, delay⟩ :: drawn, last)
  | b, .reset :: calls => run b.reset calls

/-- Which delay since the start or the last reset each one is, when the first would be the `k`-th. -/
def attempts : ℕ → List Call → List ℕ
  | _, [] => []
  | k, .nextDelay :: calls => k :: attempts (k + 1) calls
  | _, .reset :: calls => attempts 1 calls

/-- The ceiling of the `k`-th delay. -/
def ceilingOf (policy : BackoffPolicy) (k : ℕ) : ℕ :=
  min policy.max.asNanos (policy.initial.asNanos * 2 ^ k)

theorem ceilingOf_succ (policy : BackoffPolicy) (k : ℕ) :
    Ingress.Backoff.doubled (ceilingOf policy k) policy.total = ceilingOf policy (k + 1) := by
  change min (2 * min policy.max.asNanos (policy.initial.asNanos * 2 ^ k)) policy.max.asNanos =
    min policy.max.asNanos (policy.initial.asNanos * 2 ^ (k + 1))
  rw [Nat.pow_succ, ← Nat.mul_assoc, Nat.mul_comm _ 2]
  omega

theorem openingCeiling_eq (policy : BackoffPolicy) :
    (openingCeiling policy).asNanos = ceilingOf policy 1 := by
  rw [openingCeiling, asNanos_doubled, ← ceilingOf_succ, ceilingOf, Nat.pow_zero, Nat.mul_one,
    Nat.min_eq_right policy.initial_le]

/-- What holds of the `k`-th delay of a policy. -/
structure InWindow (policy : BackoffPolicy) (k : ℕ) (d : Drawn) : Prop where
  ceiling : d.ceiling.asNanos = min policy.max.asNanos (policy.initial.asNanos * 2 ^ k)
  floor : max policy.initial.asNanos ((d.ceiling.asNanos + 1) / 2) ≤ d.delay.asNanos
  delay : d.delay.asNanos ≤ d.ceiling.asNanos

theorem advanced_zero (entropy : UInt64) : entropy + .ofNat 0 * INCREMENT = entropy := by
  have hzero : UInt64.ofNat 0 = 0 := rfl
  rw [hzero, UInt64.zero_mul, UInt64.add_zero]

theorem advanced_succ (entropy : UInt64) (i : ℕ) :
    entropy + INCREMENT + .ofNat i * INCREMENT = entropy + .ofNat (i + 1) * INCREMENT := by
  have hone : UInt64.ofNat 1 = 1 := rfl
  rw [UInt64.ofNat_add, UInt64.add_mul, hone, UInt64.one_mul, UInt64.add_assoc,
    UInt64.add_comm INCREMENT]

/-- The increment is odd, so the states repeat only with the period of 64 bits. -/
theorem mul_increment_eq_iff {i j : ℕ} :
    UInt64.ofNat i * INCREMENT = UInt64.ofNat j * INCREMENT ↔ i ≡ j [MOD 2 ^ 64] := by
  have hcoprime : Nat.gcd (2 ^ 64) INCREMENT.toNat = 1 := by decide
  rw [← UInt64.toNat_inj, UInt64.toNat_mul, UInt64.toNat_mul, UInt64.toNat_ofNat',
    UInt64.toNat_ofNat', Nat.mod_mul_mod, Nat.mod_mul_mod]
  constructor
  · exact Nat.ModEq.cancel_right_of_coprime hcoprime
  · exact fun h ↦ h.mul_right _

/-- No call fails, each delay lies in its window, and each draw moves the generator one step. -/
theorem run_spec (policy : BackoffPolicy) (calls : List Call) {b : Backoff} {k : ℕ}
    (hpolicy : b.policy.total = policy.total) (hceiling : b.ceiling.asNanos = ceilingOf policy k) :
    ∃ drawn last, b.run calls = some (drawn, last) ∧
      List.Forall₂ (InWindow policy) (attempts k calls) drawn ∧
      ∀ (i : ℕ) (d : Drawn), drawn[i]? = some d → d.entropy = b.entropy + .ofNat i * INCREMENT := by
  induction calls generalizing b k with
  | nil => exact ⟨[], b, rfl, .nil, fun _ _ h ↦ by cases h⟩
  | cons call calls ih =>
    cases call with
    | nextDelay =>
      obtain ⟨delay, next, hnext, -⟩ := nextDelay_spec b
      obtain ⟨hkept, hraised, hentropy, hfloor, hle⟩ := after_nextDelay hnext
      rw [hceiling, hpolicy, ceilingOf_succ] at hraised
      obtain ⟨drawn, last, hrun, hall, hstates⟩ := ih (hkept.trans hpolicy) hraised
      refine ⟨⟨b.ceiling, b.entropy, delay⟩ :: drawn, last, ?_, .cons ⟨hceiling, ?_, hle⟩ hall, ?_⟩
      · rw [run]
        refine Option.bind_eq_some_iff.mpr ⟨(delay, next), hnext, ?_⟩
        exact Option.bind_eq_some_iff.mpr ⟨(drawn, last), hrun, rfl⟩
      · have hinitial : b.policy.initial.asNanos = policy.initial.asNanos :=
          congrArg Ingress.BackoffPolicy.initial hpolicy
        have hwindow : max (b.ceiling.asNanos - b.ceiling.asNanos / 2) b.policy.initial.asNanos ≤
          delay.asNanos := hfloor
        dsimp only
        omega
      · intro i d hd
        cases i with
        | zero =>
          obtain rfl := Option.some.inj hd
          exact (advanced_zero b.entropy).symm
        | succ i => rw [hstates i d hd, hentropy, advanced_succ]
    | reset =>
      have hopening : b.reset.ceiling.asNanos = ceilingOf policy 1 := by
        have hreset : b.reset.ceiling.asNanos =
          Ingress.Backoff.doubled b.policy.total.initial b.policy.total := asNanos_doubled _ _
        rw [hreset, hpolicy, ← openingCeiling_eq, openingCeiling, asNanos_doubled]
        rfl
      exact ih (b := b.reset) hpolicy hopening

/-- However a driver asks for delays and starts over, no call fails, each delay lies in the window of
its attempt, and the generator returns to a state only with its period. -/
theorem delays_in_windows (policy : BackoffPolicy) (seed : UInt64) (calls : List Call) :
    ∃ drawn last, (new policy seed).run calls = some (drawn, last) ∧
      List.Forall₂ (InWindow policy) (attempts 1 calls) drawn ∧
      ∀ (i j : ℕ) (d e : Drawn), drawn[i]? = some d → drawn[j]? = some e →
        (d.entropy = e.entropy ↔ i ≡ j [MOD 2 ^ 64]) := by
  obtain ⟨drawn, last, hrun, hall, hstates⟩ :=
    run_spec policy calls (b := new policy seed) rfl (openingCeiling_eq policy)
  refine ⟨drawn, last, hrun, hall, ?_⟩
  intro i j d e hd he
  rw [hstates i d hd, hstates j e he, UInt64.add_right_inj]
  exact mul_increment_eq_iff

end Backoff

end EdgeMulticast.Ingress.Checked
