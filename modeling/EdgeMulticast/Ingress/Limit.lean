import EdgeMulticast.Ingress.Pacing
import EdgeMulticast.Lib.Spacing

/-!
# What the upstream limiter lets through

A run of `RateLimiter.charge`: each message is sent once the wait it was charged is over.  The
sends are an interval apart (`spaced_sends`), so a second holds no more of them than the rate when
the intervals of that many sends fill it; the interval is the second divided by the rate and
rounded down, and they fill it for the rates that divide the second only (`paces_iff`).
-/

namespace EdgeMulticast.Ingress

open EdgeMulticast.Lib

/-- A message charged to the limiter at `nowNs`. -/
structure Charged where
  nowNs : ℕ
  wait : Duration
deriving DecidableEq

/-- When `Driver::flush` sends it. -/
def Charged.sentNs (c : Charged) : ℕ := c.nowNs + c.wait

namespace RateLimiter

variable {l : RateLimiter} {interval perSecond : ℕ} {calls : List ℕ}

/-- The messages charged at the times of `calls`. -/
def charged (l : RateLimiter) : List ℕ → List Charged
  | [] => []
  | now :: calls => ⟨now, (l.charge now).1⟩ :: (l.charge now).2.charged calls

/-- When they are sent. -/
def sends (l : RateLimiter) (calls : List ℕ) : List ℕ := (l.charged calls).map Charged.sentNs

/-- What is asked of a limiter of `perSecond` messages over one run. -/
structure Paced (perSecond : ℕ) (calls : List ℕ) : Prop where
  /-- The messages are sent in the order they were charged. -/
  ordered : ((new perSecond).sends calls).Pairwise (· ≤ ·)
  /-- Every second holds at most `perSecond` of them. -/
  limited : ∀ start, inWindow ((new perSecond).sends calls) start 1000000000 ≤ perSecond
  /-- One that is charged more than an interval after the send before it does not wait. -/
  idle : ((new perSecond).charged calls).IsChain fun earlier later ↦
    earlier.sentNs + 1000000000 / perSecond < later.nowNs → later.wait = 0

/-- No charge of the run reaches the end of the clock, where the schedule saturates. -/
def InRange (perSecond : ℕ) (calls : List ℕ) : Prop :=
  ∀ sent ∈ (new perSecond).sends calls, sent + 1000000000 / perSecond < 2 ^ 64

/-! ## One charge -/

/-- The interval of an enabled limiter is the second divided by its rate. -/
theorem intervalNs_new (hpos : 1 ≤ perSecond) (hfinest : perSecond ≤ FINEST_PER_SECOND) :
    (new perSecond).intervalNs = some (1000000000 / perSecond) := by
  rw [new, if_neg (Nat.one_le_iff_ne_zero.mp hpos)]
  split
  next hle =>
      rw [show perSecond = 1000000000 from le_antisymm hfinest hle]
  next => rfl

theorem charge_snd_intervalNs (now : ℕ) : (l.charge now).2.intervalNs = l.intervalNs := by
  rw [charge]
  split <;> rfl

/-- A charged message is sent at the later of its call and the schedule. -/
theorem sentNs_charge (h : l.intervalNs = some interval) (now : ℕ) :
    (Charged.mk now (l.charge now).1).sentNs = max l.nextFreeNs now := by
  simp only [Charged.sentNs, charge, h]
  omega

/-- The schedule goes on an interval after that. -/
theorem nextFreeNs_charge (h : l.intervalNs = some interval) (now : ℕ) :
    (l.charge now).2.nextFreeNs = min (max l.nextFreeNs now + interval) (2 ^ 64 - 1) := by
  simp only [charge, h]

theorem sends_cons (h : l.intervalNs = some interval) (now : ℕ) (calls : List ℕ) :
    l.sends (now :: calls) = max l.nextFreeNs now :: (l.charge now).2.sends calls := by
  rw [← sentNs_charge h]
  rfl

/-! ## A run -/

theorem length_sends (l : RateLimiter) (calls : List ℕ) :
    (l.sends calls).length = calls.length := by
  rw [sends, List.length_map]
  induction calls generalizing l with
  | nil => rfl
  | cons now calls ih => exact congrArg Nat.succ (ih (l.charge now).2)

/-- Nothing is sent before its call. -/
theorem le_of_mem_sends {start : ℕ} (hcalls : ∀ now ∈ calls, start ≤ now) :
    ∀ sent ∈ l.sends calls, start ≤ sent := by
  induction calls generalizing l with
  | nil => exact fun sent hsent ↦ absurd hsent List.not_mem_nil
  | cons now calls ih =>
      intro sent hsent
      rcases List.mem_cons.mp hsent with rfl | hsent
      · exact (hcalls now List.mem_cons_self).trans (Nat.le_add_right _ _)
      · exact ih (fun now hnow ↦ hcalls now (List.mem_cons_of_mem _ hnow)) sent hsent

/-- Nor before the schedule is free. -/
theorem nextFreeNs_le_of_mem_sends (h : l.intervalNs = some interval)
    (hfree : l.nextFreeNs < 2 ^ 64) : ∀ sent ∈ l.sends calls, l.nextFreeNs ≤ sent := by
  induction calls generalizing l with
  | nil => exact fun sent hsent ↦ absurd hsent List.not_mem_nil
  | cons now calls ih =>
      intro sent hsent
      rw [sends_cons h] at hsent
      rcases List.mem_cons.mp hsent with rfl | hsent
      · exact Nat.le_max_left _ _
      · have hnext := nextFreeNs_charge h now
        have := ih ((charge_snd_intervalNs now).trans h) (by omega) sent hsent
        omega

theorem ordered_sends (h : l.intervalNs = some interval) (hfree : l.nextFreeNs < 2 ^ 64)
    (hcalls : calls.Pairwise (· ≤ ·)) : (l.sends calls).Pairwise (· ≤ ·) := by
  induction calls generalizing l with
  | nil => exact List.Pairwise.nil
  | cons now calls ih =>
      obtain ⟨hnow, hlater⟩ := List.pairwise_cons.mp hcalls
      have hnext := nextFreeNs_charge h now
      have hkept := (charge_snd_intervalNs now).trans h
      rw [sends_cons h]
      refine List.Pairwise.cons (fun sent hsent ↦ ?_) (ih hkept (by omega) hlater)
      -- The schedule saturates below the calls that lie beyond the clock.
      have hcall := le_of_mem_sends hnow sent hsent
      have := nextFreeNs_le_of_mem_sends hkept (by omega) sent hsent
      omega

/-- Below the end of the clock two sends are an interval apart. -/
theorem spaced_sends (h : l.intervalNs = some interval) (hfree : l.nextFreeNs < 2 ^ 64)
    (hrange : ∀ sent ∈ l.sends calls, sent + interval < 2 ^ 64) :
    Spaced interval (l.sends calls) := by
  induction calls generalizing l with
  | nil => exact List.Pairwise.nil
  | cons now calls ih =>
      have hnext := nextFreeNs_charge h now
      have hkept := (charge_snd_intervalNs now).trans h
      rw [sends_cons h] at hrange ⊢
      obtain ⟨hfirst, hlater⟩ := List.forall_mem_cons.mp hrange
      refine List.Pairwise.cons (fun sent hsent ↦ ?_) (ih hkept (by omega) hlater)
      have := nextFreeNs_le_of_mem_sends hkept (by omega) sent hsent
      omega

/-- A charge more than an interval after the send before it finds the schedule free. -/
theorem idle_charged (h : l.intervalNs = some interval) :
    (l.charged calls).IsChain fun earlier later ↦
      earlier.sentNs + interval < later.nowNs → later.wait = 0 := by
  induction calls generalizing l with
  | nil => exact List.IsChain.nil
  | cons now calls ih =>
      have hkept := (charge_snd_intervalNs now).trans h
      refine List.isChain_cons.mpr ⟨fun later hlater hgap ↦ ?_, ih hkept⟩
      rw [sentNs_charge h] at hgap
      cases calls with
      | nil => exact absurd hlater (Option.not_mem_none _)
      | cons next calls =>
          obtain rfl : Charged.mk next ((l.charge now).2.charge next).1 = later :=
            Option.some.inj hlater
          have hfree : (l.charge now).2.nextFreeNs ≤ next := by
            rw [nextFreeNs_charge h]
            exact (min_le_left _ _).trans hgap.le
          have hsent := (sentNs_charge hkept next).trans (max_eq_right hfree)
          exact Nat.add_eq_left.mp hsent

/-- Messages that come at once are sent an interval apart at most. -/
theorem sends_replicate_le (h : l.intervalNs = some interval) (count : ℕ) :
    ∀ sent ∈ l.sends (List.replicate count 0), sent + interval ≤ l.nextFreeNs + count * interval := by
  induction count generalizing l with
  | zero => exact fun sent hsent ↦ absurd hsent List.not_mem_nil
  | succ count ih =>
      intro sent hsent
      rw [List.replicate_succ, sends_cons h] at hsent
      rw [Nat.succ_mul]
      rcases List.mem_cons.mp hsent with rfl | hsent
      · omega
      · have hnext := nextFreeNs_charge h 0
        have := ih ((charge_snd_intervalNs 0).trans h) sent hsent
        omega

/-! ## The limit -/

/-- More messages than the rate, all offered when the clock starts. -/
def burst (perSecond : ℕ) : List ℕ := List.replicate (perSecond + 1) 0

/-- They are sent within the first second when their intervals do not fill it. -/
theorem sends_burst_lt (hpos : 1 ≤ perSecond) (hfinest : perSecond ≤ FINEST_PER_SECOND)
    (hdvd : ¬perSecond ∣ 1000000000) :
    ∀ sent ∈ (new perSecond).sends (burst perSecond), sent < 1000000000 := by
  intro sent hsent
  have hle := sends_replicate_le (intervalNs_new hpos hfinest) (perSecond + 1) sent hsent
  have hfree : (new perSecond).nextFreeNs = 0 := rfl
  rw [Nat.succ_mul, hfree] at hle
  have hmul : perSecond * (1000000000 / perSecond) < 1000000000 :=
    (Nat.mul_div_le _ _).lt_of_ne fun heq ↦ hdvd ⟨_, heq.symm⟩
  omega

theorem inWindow_burst (hpos : 1 ≤ perSecond) (hfinest : perSecond ≤ FINEST_PER_SECOND)
    (hdvd : ¬perSecond ∣ 1000000000) :
    inWindow ((new perSecond).sends (burst perSecond)) 0 1000000000 = perSecond + 1 := by
  rw [inWindow_eq_length fun sent hsent ↦
    ⟨Nat.zero_le sent, by have := sends_burst_lt hpos hfinest hdvd sent hsent; omega⟩,
    length_sends, burst, List.length_replicate]

theorem inRange_burst (hpos : 1 ≤ perSecond) (hfinest : perSecond ≤ FINEST_PER_SECOND)
    (hdvd : ¬perSecond ∣ 1000000000) : InRange perSecond (burst perSecond) := by
  intro sent hsent
  have := sends_burst_lt hpos hfinest hdvd sent hsent
  have := Nat.div_le_self 1000000000 perSecond
  omega

/-- Every run of a limiter keeps its rate if and only if the rate divides the second. -/
theorem paces_iff (hpos : 1 ≤ perSecond) (hfinest : perSecond ≤ FINEST_PER_SECOND) :
    (∀ calls : List ℕ, calls.Pairwise (· ≤ ·) → InRange perSecond calls →
      Paced perSecond calls) ↔ perSecond ∣ 1000000000 := by
  have hinterval := intervalNs_new hpos hfinest
  constructor
  · intro hpaced
    by_contra hdvd
    have hlimited := (hpaced (burst perSecond) (List.pairwise_replicate.mpr (.inr le_rfl))
      (inRange_burst hpos hfinest hdvd)).limited 0
    rw [inWindow_burst hpos hfinest hdvd] at hlimited
    omega
  · intro hdvd calls hcalls hrange
    have hfree : (new perSecond).nextFreeNs < 2 ^ 64 := Nat.two_pow_pos 64
    exact {
      ordered := ordered_sends hinterval hfree hcalls
      limited := fun start ↦ (spaced_sends hinterval hfree hrange).inWindow_le
        (Nat.mul_div_cancel' hdvd).ge
      idle := idle_charged hinterval }

/-- Five a second are kept to. -/
theorem paces_iff_five :
    (∀ calls : List ℕ, calls.Pairwise (· ≤ ·) → InRange 5 calls → Paced 5 calls) ↔
      5 ∣ 1000000000 :=
  paces_iff (by decide) (by decide)

/-- Of four messages offered at once, a limiter of three a second sends all within the second. -/
theorem not_paced_three : (new 3).sends [0, 0, 0, 0] = [0, 333333333, 666666666, 999999999] ∧
    InRange 3 [0, 0, 0, 0] ∧ ¬Paced 3 [0, 0, 0, 0] := by
  have hsends : (new 3).sends [0, 0, 0, 0] = [0, 333333333, 666666666, 999999999] := by decide
  refine ⟨hsends, by rw [InRange, hsends]; decide, fun hpaced ↦ ?_⟩
  have hlimited := hpaced.limited 0
  rw [hsends] at hlimited
  exact absurd hlimited (by decide)

end RateLimiter

end EdgeMulticast.Ingress
