import Mathlib.Algebra.Order.Group.Nat
import Mathlib.Tactic.Common

/-!
# How an ingress driver waits

`backoff.rs` and `limit.rs` (`dz-ingress-core`): the delay before the next connect attempt, drawn
inside a window that doubles, and the spacing of two messages sent upstream.  Durations are in
nanoseconds.
-/

namespace EdgeMulticast.Ingress

abbrev Duration := ℕ

/-- The reconnect delays an operator states. -/
structure BackoffPolicy where
  initial : Duration
  max : Duration
  initial_pos : 0 < initial
  initial_le : initial ≤ max

/-- The delay sequence. -/
structure Backoff where
  policy : BackoffPolicy
  /-- The ceiling the next delay is drawn under. -/
  ceiling : Duration
  /-- The generator's state. -/
  entropy : UInt64
  initial_le : policy.initial ≤ ceiling
  ceiling_le : ceiling ≤ policy.max

namespace Backoff

/-- The ceiling after another one. -/
def doubled (ceiling : Duration) (policy : BackoffPolicy) : Duration := min (2 * ceiling) policy.max

def openingCeiling (policy : BackoffPolicy) : Duration := doubled policy.initial policy

theorem initial_le_doubled {ceiling : Duration} {policy : BackoffPolicy}
    (h : policy.initial ≤ ceiling) : policy.initial ≤ doubled ceiling policy :=
  le_min (h.trans (Nat.le_mul_of_pos_left _ Nat.two_pos)) policy.initial_le

/-- A sequence at its start. -/
def new (policy : BackoffPolicy) (seed : UInt64) : Backoff where
  policy
  ceiling := openingCeiling policy
  entropy := seed
  initial_le := initial_le_doubled le_rfl
  ceiling_le := min_le_right _ _

/-- The seed of a connection's sequence, from a reading of the wall clock and the bytes of its name. -/
def seed (wallNs : UInt64) (connection : List UInt8) : UInt64 :=
  connection.foldl (fun hash byte ↦ (hash ^^^ byte.toUInt64) * 0x00000100000001b3)
    (0xcbf29ce484222325 ^^^ wallNs)

/-- The next number of the generator. -/
def draw (b : Backoff) : UInt64 × Backoff :=
  let entropy := b.entropy + 0x9e3779b97f4a7c15
  let mixed := (entropy ^^^ (entropy >>> 30)) * 0xbf58476d1ce4e5b9
  let mixed := (mixed ^^^ (mixed >>> 27)) * 0x94d049bb133111eb
  (mixed ^^^ (mixed >>> 31), { b with entropy })

/-- A number of `0..=most`. -/
def drawAtMost (b : Backoff) (most : ℕ) : ℕ × Backoff :=
  let (drawn, b) := b.draw
  (drawn.toNat * (most + 1) / 2 ^ 64, b)

theorem drawAtMost_le (b : Backoff) (most : ℕ) : (b.drawAtMost most).1 ≤ most := by
  have hlt : b.draw.1.toNat * (most + 1) < 2 ^ 64 * (most + 1) :=
    Nat.mul_lt_mul_of_pos_right b.draw.1.toNat_lt (Nat.succ_pos most)
  exact Nat.le_of_lt_succ (Nat.div_lt_of_lt_mul hlt)

/-- The shortest delay of the window. -/
def floor (b : Backoff) : Duration := Nat.max (b.ceiling - b.ceiling / 2) b.policy.initial

theorem floor_le (b : Backoff) : b.floor ≤ b.ceiling :=
  Nat.max_le.mpr ⟨Nat.sub_le _ _, b.initial_le⟩

/-- The ceiling doubled, as every delay leaves it. -/
def raised (b : Backoff) : Backoff := {
  b with
  ceiling := doubled b.ceiling b.policy
  initial_le := initial_le_doubled b.initial_le
  ceiling_le := min_le_right _ _ }

/-- The delay to wait now, advancing the ceiling. -/
def nextDelay (b : Backoff) : Duration × Backoff :=
  let (drawn, next) := b.raised.drawAtMost (min (b.ceiling - b.floor) (2 ^ 64 - 1))
  (b.floor + drawn, next)

/-- No delay is below the configured initial delay, nor above the ceiling it is drawn under. -/
theorem nextDelay_mem (b : Backoff) :
    b.policy.initial ≤ b.nextDelay.1 ∧ b.nextDelay.1 ≤ b.ceiling := by
  constructor
  · exact (Nat.le_max_right _ _).trans (Nat.le_add_right _ _)
  · have hdrawn : (b.raised.drawAtMost (min (b.ceiling - b.floor) (2 ^ 64 - 1))).1 ≤
        b.ceiling - b.floor := (drawAtMost_le _ _).trans (min_le_left _ _)
    exact (Nat.add_le_add_left hdrawn _).trans_eq (Nat.add_sub_of_le b.floor_le)

/-- Start the sequence over. -/
def reset (b : Backoff) : Backoff where
  policy := b.policy
  ceiling := openingCeiling b.policy
  entropy := b.entropy
  initial_le := initial_le_doubled le_rfl
  ceiling_le := min_le_right _ _

end Backoff

/-- The spacing of the messages sent upstream. -/
structure RateLimiter where
  intervalNs : Option ℕ
  nextFreeNs : ℕ

namespace RateLimiter

def FINEST_PER_SECOND : ℕ := 1000000000

def new (perSecond : ℕ) : RateLimiter where
  intervalNs :=
    if perSecond = 0 then none
    else if FINEST_PER_SECOND ≤ perSecond then some 1
    else some (1000000000 / perSecond)
  nextFreeNs := 0

/-- How long to wait before the next message, which is charged. -/
def charge (l : RateLimiter) (nowNs : ℕ) : Duration × RateLimiter :=
  match l.intervalNs with
  | none => (0, l)
  | some interval =>
      (l.nextFreeNs - nowNs,
        { l with nextFreeNs := min (Nat.max l.nextFreeNs nowNs + interval) (2 ^ 64 - 1) })

end RateLimiter

end EdgeMulticast.Ingress
