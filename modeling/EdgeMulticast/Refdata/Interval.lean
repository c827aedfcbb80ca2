import EdgeMulticast.Lowering.Unscaled
import EdgeMulticast.Refdata.Definition

/-!
# One strike has one encoding

`strike.rs` (`dz-publisher-refdata`): the ends of a strike are stated as text or as mantissas, in
any spelling.  `Composed` says what an interval of rationals has to come to, and nothing else can
(`Composed.unique`); `composed` is that `compose` comes to it, so that two statements of one
interval come to one thing.
-/

namespace EdgeMulticast.Refdata

open EdgeMulticast.Lib
open EdgeMulticast.Codec
open EdgeMulticast.Lowering

/-! ## The interval that is stated -/

/-- An end of an interval, and whether it is inside. -/
abbrev End := ℚ × Bool

/-- The end that a bound states, where there is one. -/
inductive Ends : Option StrikeBound → Option End → Prop
  | absent : Ends none none
  | present {s : Scalar} {v : ℚ} (inclusive : Bool) (is : s.Is v) :
      Ends (some ⟨s, inclusive⟩) (some (v, inclusive))

/-- The ends that are present. -/
def values (lower upper : Option End) : List ℚ :=
  lower.toList.map Prod.fst ++ upper.toList.map Prod.fst

/-- The numbers inside the interval. -/
structure Contains (lower upper : Option End) (x : ℚ) : Prop where
  above : ∀ e ∈ lower, if e.2 then e.1 ≤ x else e.1 < x
  below : ∀ e ∈ upper, if e.2 then x ≤ e.1 else x < e.1

/-- Every one of the numbers is an integer of an `i64` at the exponent. -/
def FitsI64 (vs : List ℚ) (p : ℤ) : Prop :=
  ∀ v ∈ vs, ∃ r, v = scaled r p ∧ I64_MIN ≤ r ∧ r ≤ I64_MAX

/-- A bound field states an end exactly, and is zero where there is none. -/
def Exact (e : Option End) (exponent : Int8) (raw : Int64) : Prop :=
  e.elim (raw = 0) fun e ↦ e.1 = scaled raw.toInt exponent.toInt

variable {lower upper : Option StrikeBound} {l u : Option End} {fixingTimeNs : Option UInt64}
  {instrumentId : UInt32} {sourceId : SourceId} {p : ℤ} {v : ℚ} {exponent : Int8}

theorem Exact.unique {raw raw' : Int64} (h : Exact l exponent raw) (h' : Exact l exponent raw') :
    raw = raw' := by
  cases l with
  | none => exact h.trans h'.symm
  | some e => exact Int64.toInt_inj.mp (scaled_inj.mp (h.symm.trans h'))

/-- An interval with an end on either side is not empty when the ends are in order, and inside
where they meet. -/
theorem exists_contains_iff (a b : ℚ) (i j : Bool) :
    (∃ x, Contains (some (a, i)) (some (b, j)) x) ↔ a < b ∨ a = b ∧ i = true ∧ j = true := by
  constructor
  · rintro ⟨x, habove, hbelow⟩
    have habove := habove _ rfl
    have hbelow := hbelow _ rfl
    dsimp only at habove hbelow
    split at habove <;> split at hbelow
    next hi hj =>
        rcases (habove.trans hbelow).lt_or_eq with hlt | heq
        · exact .inl hlt
        · exact .inr ⟨heq, hi, hj⟩
    next => exact .inl (habove.trans_lt hbelow)
    next => exact .inl (habove.trans_le hbelow)
    next => exact .inl (habove.trans hbelow)
  · rintro (hlt | ⟨rfl, rfl, rfl⟩)
    · obtain ⟨x, hax, hxb⟩ := exists_between hlt
      refine ⟨x, fun e he ↦ ?_, fun e he ↦ ?_⟩
      · obtain rfl := Option.mem_some.mp he
        split
        · exact hax.le
        · exact hax
      · obtain rfl := Option.mem_some.mp he
        split
        · exact hxb.le
        · exact hxb
    · exact ⟨a, fun e he ↦ Option.mem_some.mp he ▸ le_rfl, fun e he ↦ Option.mem_some.mp he ▸ le_rfl⟩

/-- One with a side that is open is never empty. -/
theorem exists_contains_of_none (h : l = none ∨ u = none) : ∃ x, Contains l u x := by
  rcases h with rfl | rfl
  · cases u with
    | none => exact ⟨0, fun e he ↦ absurd he (Option.not_mem_none e),
        fun e he ↦ absurd he (Option.not_mem_none e)⟩
    | some e =>
        refine ⟨e.1 - 1, fun e he ↦ absurd he (Option.not_mem_none e), fun e' he ↦ ?_⟩
        obtain rfl := Option.mem_some.mp he
        have hlt : e.1 - 1 < e.1 := sub_one_lt e.1
        split
        · exact hlt.le
        · exact hlt
  · cases l with
    | none => exact ⟨0, fun e he ↦ absurd he (Option.not_mem_none e),
        fun e he ↦ absurd he (Option.not_mem_none e)⟩
    | some e =>
        refine ⟨e.1 + 1, fun e' he ↦ ?_, fun e he ↦ absurd he (Option.not_mem_none e)⟩
        obtain rfl := Option.mem_some.mp he
        have hlt : e.1 < e.1 + 1 := lt_add_one e.1
        split
        · exact hlt.le
        · exact hlt

/-! ## What it has to come to -/

/-- The flags of the ends, given whether each is inside. -/
def flagsOf (lower upper : Option Bool) : Byte :=
  lower.elim 0 (fun inclusive ↦ if inclusive then BOUND_LOWER_PRESENT ||| BOUND_LOWER_INCLUSIVE
    else BOUND_LOWER_PRESENT) |||
  upper.elim 0 fun inclusive ↦ if inclusive then BOUND_UPPER_PRESENT ||| BOUND_UPPER_INCLUSIVE
    else BOUND_UPPER_PRESENT

/-- The message that encodes an interval. -/
structure Encodes (l u : Option End) (fixingTimeNs : Option UInt64) (instrumentId : UInt32)
    (sourceId : SourceId) (m : StrikeInterval) : Prop where
  id : m.instrumentId = instrumentId
  source : m.sourceId = sourceId.value
  coarsest : Coarsest (values l u) m.strikeExponent.toInt
  flags : m.boundFlags = flagsOf (l.map Prod.snd) (u.map Prod.snd)
  lower : Exact l m.strikeExponent m.lowerBound
  upper : Exact u m.strikeExponent m.upperBound
  fixing : m.fixingTimeNs = fixingTimeNs.getD 0

/-- An interval has one encoding. -/
theorem Encodes.unique {m m' : StrikeInterval}
    (h : Encodes l u fixingTimeNs instrumentId sourceId m)
    (h' : Encodes l u fixingTimeNs instrumentId sourceId m') : m = m' := by
  obtain ⟨hid, hsource, hcoarsest, hflags, hlower, hupper, hfixing⟩ := h
  obtain ⟨hid', hsource', hcoarsest', hflags', hlower', hupper', hfixing'⟩ := h'
  have hexponent := Int8.toInt_inj.mp (hcoarsest.unique hcoarsest')
  rw [← hexponent] at hlower' hupper'
  cases m
  cases m'
  rw [StrikeInterval.mk.injEq]
  exact ⟨hid.trans hid'.symm, hsource.trans hsource'.symm, hexponent, hflags.trans hflags'.symm,
    hlower.unique hlower', hupper.unique hupper', hfixing.trans hfixing'.symm⟩

/-- What an interval comes to: its encoding, or why it has none. -/
inductive Composed (l u : Option End) (fixingTimeNs : Option UInt64) (instrumentId : UInt32)
    (sourceId : SourceId) : Except Refusal StrikeInterval → Prop
  | unbounded (absent : l = none ∧ u = none) :
      Composed l u fixingTimeNs instrumentId sourceId (.error .strikeUnrepresentable)
  | unrepresentable (p : ℤ) (bounded : ¬(l = none ∧ u = none)) (coarsest : Coarsest (values l u) p)
      (outside : p < -128 ∨ ¬FitsI64 (values l u) p) :
      Composed l u fixingTimeNs instrumentId sourceId (.error .strikeUnrepresentable)
  | empty (p : ℤ) (bounded : ¬(l = none ∧ u = none)) (coarsest : Coarsest (values l u) p)
      (inside : -128 ≤ p ∧ FitsI64 (values l u) p) (empty : ¬∃ x, Contains l u x) :
      Composed l u fixingTimeNs instrumentId sourceId (.error .strikeEmpty)
  | encoded (m : StrikeInterval) (bounded : ¬(l = none ∧ u = none))
      (fits : FitsI64 (values l u) m.strikeExponent.toInt) (nonempty : ∃ x, Contains l u x)
      (encodes : Encodes l u fixingTimeNs instrumentId sourceId m) :
      Composed l u fixingTimeNs instrumentId sourceId (.ok m)

namespace Composed

variable {x y : Except Refusal StrikeInterval}

theorem inside_of_encodes {m : StrikeInterval} (fits : FitsI64 (values l u) m.strikeExponent.toInt)
    (encodes : Encodes l u fixingTimeNs instrumentId sourceId m)
    (coarsest : Coarsest (values l u) p) : -128 ≤ p ∧ FitsI64 (values l u) p := by
  rw [coarsest.unique encodes.coarsest]
  exact ⟨m.strikeExponent.le_toInt, fits⟩

theorem outside_iff : p < -128 ∨ ¬FitsI64 (values l u) p ↔ ¬(-128 ≤ p ∧ FitsI64 (values l u) p) := by
  rw [not_and_or, not_le]

theorem unique (h : Composed l u fixingTimeNs instrumentId sourceId x)
    (h' : Composed l u fixingTimeNs instrumentId sourceId y) : x = y := by
  cases h with
  | unbounded hnone =>
      cases h' with
      | unbounded => rfl
      | unrepresentable => rfl
      | empty _ bounded => exact absurd hnone bounded
      | encoded _ bounded => exact absurd hnone bounded
  | unrepresentable p bounded coarsest outside =>
      rw [outside_iff] at outside
      cases h' with
      | unbounded => rfl
      | unrepresentable => rfl
      | empty q _ coarsest' inside =>
          rw [coarsest'.unique coarsest] at inside
          exact absurd inside outside
      | encoded m _ fits _ encodes => exact absurd (inside_of_encodes fits encodes coarsest) outside
  | empty p bounded coarsest inside hempty =>
      cases h' with
      | unbounded hnone => exact absurd hnone bounded
      | unrepresentable q _ coarsest' outside =>
          rw [coarsest'.unique coarsest, outside_iff] at outside
          exact absurd inside outside
      | empty => rfl
      | encoded _ _ _ nonempty => exact absurd nonempty hempty
  | encoded m bounded fits nonempty encodes =>
      cases h' with
      | unbounded hnone => exact absurd hnone bounded
      | unrepresentable p _ coarsest outside =>
          exact absurd (inside_of_encodes fits encodes coarsest) (outside_iff.mp outside)
      | empty _ _ _ _ hempty => exact absurd nonempty hempty
      | encoded m' _ _ _ encodes' => rw [encodes.unique encodes']

end Composed

/-! ## The exponent -/

theorem coarsest_significant (digits : ℕ) (mantissa : ℤ) :
    Coarsest [scaled mantissa (-digits)] (-significantDigits digits mantissa) := by
  induction digits generalizing mantissa with
  | zero => exact coarsest_of_integer ⟨mantissa, rfl⟩
  | succ digits ih =>
      rw [significantDigits]
      split
      next hzero =>
          have hten : mantissa = mantissa.tdiv 10 * 10 :=
            (Int.tdiv_mul_cancel_of_tmod_eq_zero hzero).symm
          have hsame : scaled mantissa (-(digits + 1 : ℕ)) =
              scaled (mantissa.tdiv 10) (-digits) := by
            rw [scaled_eq_iff_of_ge (by omega), show (-(digits : ℤ) - -(digits + 1 : ℕ)).toNat = 1 by
              omega, pow_one]
            exact hten
          rw [hsame]
          exact ih (mantissa.tdiv 10)
      next hdigit =>
          refine coarsest_of_lastPlace ⟨mantissa, rfl, fun hdvd ↦ hdigit ?_⟩ (by omega)
          exact Int.tmod_eq_zero_of_dvd hdvd

/-- The point of a numeral stands between its whole part and its fraction. -/
theorem findIdx?_point (n : Numeral) : n.text.findIdx? (· = 0x2e) =
    if n.fraction = [] then none
    else some ((if n.negative then [0x2d] else []) ++ n.whole : List Byte).length := by
  have hnone : ((if n.negative then [0x2d] else []) ++ n.whole : List Byte).findIdx?
      (· = 0x2e) = none := by
    rw [List.findIdx?_eq_none_iff]
    intro b hb
    rw [decide_eq_false_iff_not]
    rintro rfl
    rcases List.mem_append.mp hb with hsign | hwhole
    · split at hsign
      · exact absurd hsign (by decide)
      · exact absurd hsign List.not_mem_nil
    · exact absurd (n.isDigit_of_mem 0x2e (List.mem_append_left _ hwhole)) (by decide)
  rw [Numeral.text, ← List.append_assoc, List.findIdx?_append, hnone, Option.none_or]
  by_cases hfraction : n.fraction = []
  · rw [if_pos hfraction, if_pos hfraction]
    rfl
  · rw [if_neg hfraction, if_neg hfraction, List.findIdx?_cons, decide_eq_true rfl]
    exact congrArg some (Nat.zero_add _)

/-- The digits of a numeral behind the point. -/
theorem drop_point (n : Numeral) (hfraction : n.fraction ≠ []) :
    n.text.drop (((if n.negative then [0x2d] else []) ++ n.whole : List Byte).length + 1) =
      n.fraction := by
  rw [Numeral.text, ← List.append_assoc, if_neg hfraction, List.drop_append,
    List.drop_eq_nil_of_le (Nat.le_succ _), Nat.add_sub_cancel_left]
  rfl

/-- The exponent of a value depends on the number it states. -/
theorem coarsestExponent_spec {s : Scalar} (h : s.Is v) : ∃ p, Coarsest [v] p ∧
    coarsestExponent s =
      if -128 ≤ p then .ok (Int8.ofInt p) else .error .strikeUnrepresentable := by
  cases h with
  | text n =>
      refine ⟨_, coarsest_fraction n, ?_⟩
      rw [coarsestExponent, findIdx?_point]
      by_cases hfraction : n.fraction = []
      · rw [if_pos hfraction, hfraction]
        rfl
      · rw [if_neg hfraction]
        simp only [drop_point n hfraction]
        exact if_congr (by omega) rfl rfl
  | fixed mantissa source =>
      refine ⟨-significantDigits (-min source.toInt 0).toNat mantissa.toInt, ?_, ?_⟩
      · rcases le_total source.toInt 0 with hle | hge
        · have hsource : source.toInt = -((-min source.toInt 0).toNat : ℕ) := by omega
          conv_lhs => rw [hsource]
          exact coarsest_significant _ _
        · have hzero : (-min source.toInt 0).toNat = 0 := by omega
          rw [hzero]
          exact coarsest_of_integer (exists_scaled_of_le ⟨_, rfl⟩ hge)
      · rw [coarsestExponent]
        exact if_congr (by omega) rfl rfl

theorem exists_scaled_of_is {s : Scalar} (h : s.Is v) : ∃ n q, v = scaled n q := by
  cases h with
  | fixed mantissa source => exact ⟨_, _, rfl⟩
  | text n =>
      obtain ⟨r, hr⟩ := List.forall_mem_singleton.mp (coarsest_fraction n).integral
      exact ⟨r, _, hr⟩

theorem exists_scaled_of_bounds {bounds : List StrikeBound} {vs : List ℚ}
    (h : List.Forall₂ (fun b v ↦ b.value.Is v) bounds vs) : ∀ v ∈ vs, ∃ n q, v = scaled n q := by
  induction h with
  | nil => exact fun v hv ↦ absurd hv List.not_mem_nil
  | cons is rest ih => exact List.forall_mem_cons.mpr ⟨exists_scaled_of_is is, ih⟩

theorem toInt_min (a b : Int8) : (min a b).toInt = min a.toInt b.toInt := by
  rw [show min a b = if a ≤ b then a else b from rfl, min_def]
  split
  next hle => rw [if_pos (Int8.le_iff_toInt_le.mp hle)]
  next hlt => rw [if_neg fun hle ↦ hlt (Int8.le_iff_toInt_le.mpr hle)]

/-- The exponent of several values is the finest one that any of them needs. -/
theorem strikeExponentOf_spec {bounds : List StrikeBound} {vs ws : List ℚ} {e : Int8}
    (h : List.Forall₂ (fun b v ↦ b.value.Is v) bounds vs) (he : Coarsest ws e.toInt) :
    ∃ p, Coarsest (ws ++ vs) p ∧ strikeExponentOf bounds e =
      if -128 ≤ p then .ok (Int8.ofInt p) else .error .strikeUnrepresentable := by
  induction h generalizing ws e with
  | nil =>
      refine ⟨e.toInt, by rwa [List.append_nil], ?_⟩
      rw [if_pos (show -128 ≤ e.toInt from e.le_toInt), Int8.ofInt_toInt]
      rfl
  | @cons b v bounds vs is rest ih =>
      obtain ⟨p, hp, hcoarsest⟩ := coarsestExponent_spec is
      rw [strikeExponentOf, hcoarsest]
      by_cases hfits : -128 ≤ p
      · rw [if_pos hfits]
        have hpe : (Int8.ofInt p).toInt = p :=
          Int8.toInt_ofInt_of_le hfits (hp.nonpos.trans_lt (by decide))
        have hboth := he.append hp
        rw [← hpe, ← toInt_min] at hboth
        obtain ⟨q, hq, hrest⟩ := ih hboth
        rw [List.append_assoc, List.singleton_append] at hq
        exact ⟨q, hq, hrest⟩
      · rw [if_neg hfits]
        obtain ⟨q, hq⟩ : ∃ q, Coarsest (ws ++ v :: vs) q := by
          refine exists_coarsest fun w hw ↦ ?_
          rcases List.mem_append.mp hw with hw | hw
          · exact (he.integral w hw).imp fun n hn ↦ ⟨_, hn⟩
          · exact exists_scaled_of_bounds (.cons is rest) w hw
        have hle : q ≤ p := by
          refine hp.largest q hq.nonpos (integral_singleton.mpr (hq.integral v ?_))
          exact List.mem_append_right ws List.mem_cons_self
        exact ⟨q, hq, (if_neg (by omega)).symm⟩

/-! ## The bounds -/

/-- A bound is read at the exponent exactly, where it fits. -/
theorem boundAt_spec (h : Ends lower l) (hintegral : Integral (l.toList.map Prod.fst) exponent.toInt) :
    (∃ raw, boundAt exponent lower = .ok raw ∧ Exact l exponent raw ∧
      FitsI64 (l.toList.map Prod.fst) exponent.toInt) ∨
    boundAt exponent lower = .error .strikeUnrepresentable ∧
      ¬FitsI64 (l.toList.map Prod.fst) exponent.toInt := by
  cases h with
  | absent => exact .inl ⟨0, rfl, rfl, fun v hv ↦ absurd hv List.not_mem_nil⟩
  | @present s v inclusive is =>
      obtain ⟨r, hr⟩ := hintegral v (List.mem_singleton_self v)
      have hprice {raw : ℤ} : priceAt s exponent = .ok raw ↔ raw = r ∧ I64_MIN ≤ r ∧ r ≤ I64_MAX :=
        priceAt_eq_ok_iff is hr
      rw [boundAt]
      cases hread : priceAt s exponent with
      | ok raw =>
          obtain ⟨rfl, hlow, hhigh⟩ := hprice.mp hread
          refine .inl ⟨_, rfl, ?_, List.forall_mem_singleton.mpr ⟨raw, hr, hlow, hhigh⟩⟩
          show v = scaled (Int64.ofInt raw).toInt exponent.toInt
          rw [Int64.toInt_ofInt_of_le hlow (Int.lt_of_le_sub_one hhigh)]
          exact hr
      | error e =>
          refine .inr ⟨rfl, fun hfits ↦ ?_⟩
          obtain ⟨r', hr', hbounds⟩ := List.forall_mem_singleton.mp hfits
          obtain rfl := scaled_inj.mp (hr.symm.trans hr')
          rw [hprice.mpr ⟨rfl, hbounds⟩] at hread
          cases hread

/-! ## The flags -/

theorem boundFlag_eq (hl : Ends lower l) (hu : Ends upper u) :
    boundFlag BOUND_LOWER_PRESENT BOUND_LOWER_INCLUSIVE lower |||
      boundFlag BOUND_UPPER_PRESENT BOUND_UPPER_INCLUSIVE upper =
      flagsOf (l.map Prod.snd) (u.map Prod.snd) := by
  cases hl <;> cases hu <;> rfl

/-- The flags are those of the ends that are present, and of the ends that are inside. -/
theorem flagsOf_spec (i j : Option Bool) :
    (flagsOf i j &&& BOUND_RESERVED != 0) = false ∧
      (flagsOf i j &&& BOUND_LOWER_PRESENT != 0) = i.isSome ∧
      (flagsOf i j &&& BOUND_UPPER_PRESENT != 0) = j.isSome ∧
      (flagsOf i j &&& BOUND_LOWER_INCLUSIVE != 0) = i.getD false ∧
      (flagsOf i j &&& BOUND_UPPER_INCLUSIVE != 0) = j.getD false := by
  rcases i with - | - | - <;> rcases j with - | - | - <;> decide

/-- An encoding has a defect exactly where its interval is empty. -/
theorem defect_eq_none_iff {m : StrikeInterval} (hbounded : ¬(l = none ∧ u = none))
    (h : Encodes l u fixingTimeNs instrumentId sourceId m) :
    m.defect = none ↔ ∃ x, Contains l u x := by
  obtain ⟨-, -, -, hflags, hlower, hupper, -⟩ := h
  obtain ⟨hreserved, hhasLower, hhasUpper, hlowerIn, hupperIn⟩ := flagsOf_spec (l.map Prod.snd) (u.map Prod.snd)
  rw [StrikeInterval.defect]
  simp only [hflags, hreserved, hhasLower, hhasUpper, hlowerIn, hupperIn]
  rcases l with - | ⟨a, i⟩ <;> rcases u with - | ⟨b, j⟩
  · exact absurd ⟨rfl, rfl⟩ hbounded
  · refine iff_of_true ?_ (exists_contains_of_none (.inl rfl))
    have hzero : m.lowerBound = 0 := hlower
    simp [hzero]
  · refine iff_of_true ?_ (exists_contains_of_none (.inr rfl))
    have hzero : m.upperBound = 0 := hupper
    simp [hzero]
  · have hlt : m.upperBound < m.lowerBound ↔ b < a := by
      rw [show a = _ from hlower, show b = _ from hupper, scaled_lt_scaled, Int64.lt_iff_toInt_lt]
    have heq : m.lowerBound = m.upperBound ↔ a = b := by
      rw [show a = _ from hlower, show b = _ from hupper, scaled_inj, Int64.toInt_inj]
    rw [exists_contains_iff]
    rcases lt_trichotomy a b with hab | hab | hab
    · refine iff_of_true ?_ (.inl hab)
      simp [hlt, heq, hab.not_gt, hab.ne]
    · subst hab
      simp [hlt, heq]
    · refine iff_of_false ?_ (not_or.mpr ⟨hab.not_gt, fun h ↦ hab.ne' h.1⟩)
      simp [hlt, hab]

/-! ## The encoding -/

theorem Ends.bounds (hl : Ends lower l) (hu : Ends upper u) :
    List.Forall₂ (fun b v ↦ b.value.Is v) ([lower, upper].filterMap id) (values l u) := by
  cases hl with
  | absent =>
      cases hu with
      | absent => exact .nil
      | present j hj => exact .cons hj .nil
  | present i hi =>
      cases hu with
      | absent => exact .cons hi .nil
      | present j hj => exact .cons hi (.cons hj .nil)

/-- The message that is composed at an exponent. -/
def intervalAt (lower upper : Option StrikeBound) (fixingTimeNs : Option UInt64)
    (instrumentId : UInt32) (sourceId : SourceId) (strikeExponent : Int8)
    (lowerBound upperBound : Int64) : StrikeInterval where
  instrumentId
  sourceId := sourceId.value
  strikeExponent
  boundFlags := boundFlag BOUND_LOWER_PRESENT BOUND_LOWER_INCLUSIVE lower |||
    boundFlag BOUND_UPPER_PRESENT BOUND_UPPER_INCLUSIVE upper
  lowerBound
  upperBound
  fixingTimeNs := fixingTimeNs.getD 0

theorem composeStrike_fixed (hl : Ends lower l) (hu : Ends upper u)
    (hbounded : ¬(l = none ∧ u = none)) :
    composeStrike (.fixed lower upper fixingTimeNs) instrumentId sourceId =
      (strikeExponentOf ([lower, upper].filterMap id) 0).bind fun exponent ↦
        (boundAt exponent lower).bind fun lowerBound ↦
          (boundAt exponent upper).bind fun upperBound ↦
            if (intervalAt lower upper fixingTimeNs instrumentId sourceId exponent lowerBound
              upperBound).defect.isSome then .error .strikeEmpty
            else .ok (intervalAt lower upper fixingTimeNs instrumentId sourceId exponent lowerBound
              upperBound) := by
  cases hl with
  | absent =>
      cases hu with
      | absent => exact absurd ⟨rfl, rfl⟩ hbounded
      | present j hj => rfl
  | present i hi => cases hu <;> rfl

/-- **What a strike composes to** is what its interval has to come to. -/
theorem composed (hl : Ends lower l) (hu : Ends upper u) (fixingTimeNs : Option UInt64)
    (instrumentId : UInt32) (sourceId : SourceId) :
    Composed l u fixingTimeNs instrumentId sourceId
      (composeStrike (.fixed lower upper fixingTimeNs) instrumentId sourceId) := by
  by_cases hbounded : l = none ∧ u = none
  · obtain ⟨rfl, rfl⟩ := hbounded
    cases hl
    cases hu
    exact .unbounded ⟨rfl, rfl⟩
  have hnil : Coarsest [] (0 : Int8).toInt := coarsest_nil
  obtain ⟨p, hp, hexponent⟩ := strikeExponentOf_spec (hl.bounds hu) hnil
  rw [List.nil_append] at hp
  rw [composeStrike_fixed hl hu hbounded, hexponent]
  by_cases hlow : -128 ≤ p
  · have hpe : (Int8.ofInt p).toInt = p :=
      Int8.toInt_ofInt_of_le hlow (hp.nonpos.trans_lt (by decide))
    rw [if_pos hlow, Except.bind]
    rw [← hpe] at hp hlow
    generalize Int8.ofInt p = e at hp hlow
    obtain ⟨hintegralLower, hintegralUpper⟩ := integral_append.mp hp.integral
    rcases boundAt_spec hl hintegralLower with ⟨lowerBound, hread, hlower, hfits⟩ | ⟨hread, hout⟩
    · rw [hread, Except.bind]
      rcases boundAt_spec hu hintegralUpper with ⟨upperBound, hread', hupper, hfits'⟩ | ⟨hread', hout⟩
      · rw [hread', Except.bind]
        have hinside : FitsI64 (values l u) e.toInt := List.forall_mem_append.mpr ⟨hfits, hfits'⟩
        have hencodes : Encodes l u fixingTimeNs instrumentId sourceId
            (intervalAt lower upper fixingTimeNs instrumentId sourceId e lowerBound upperBound) :=
          ⟨rfl, rfl, hp, boundFlag_eq hl hu, hlower, hupper, rfl⟩
        have hdefect := defect_eq_none_iff hbounded hencodes
        split
        next hsome =>
            refine .empty _ hbounded hp ⟨hlow, hinside⟩ fun hx ↦ ?_
            rw [hdefect.mpr hx] at hsome
            cases hsome
        next hnone =>
            refine .encoded _ hbounded hinside (hdefect.mp ?_) hencodes
            exact Option.not_isSome_iff_eq_none.mp hnone
      · rw [hread']
        exact .unrepresentable _ hbounded hp (.inr fun h ↦ hout (List.forall_mem_append.mp h).2)
    · rw [hread]
      exact .unrepresentable _ hbounded hp (.inr fun h ↦ hout (List.forall_mem_append.mp h).1)
  · rw [if_neg hlow]
    exact .unrepresentable p hbounded hp (.inl (not_le.mp hlow))

/-- **One strike has one encoding**: two statements of one interval compose to one thing.  What is
composed is exact, at the coarsest exponent, and an interval that has an end, holds a number and
fits the fields at that exponent is composed. -/
theorem composeStrike_one_encoding {lower' upper' : Option StrikeBound} (hl : Ends lower l)
    (hu : Ends upper u) (hl' : Ends lower' l) (hu' : Ends upper' u) (fixingTimeNs : Option UInt64)
    (instrumentId : UInt32) (sourceId : SourceId) :
    composeStrike (.fixed lower upper fixingTimeNs) instrumentId sourceId =
        composeStrike (.fixed lower' upper' fixingTimeNs) instrumentId sourceId ∧
      (∀ m, composeStrike (.fixed lower upper fixingTimeNs) instrumentId sourceId = .ok m →
        Exact l m.strikeExponent m.lowerBound ∧ Exact u m.strikeExponent m.upperBound ∧
          Coarsest (values l u) m.strikeExponent.toInt) ∧
      (¬(l = none ∧ u = none) → (∃ x, Contains l u x) → ∀ p, Coarsest (values l u) p → -128 ≤ p →
        FitsI64 (values l u) p →
        ∃ m, composeStrike (.fixed lower upper fixingTimeNs) instrumentId sourceId = .ok m) := by
  have hcomposed := composed hl hu fixingTimeNs instrumentId sourceId
  refine ⟨hcomposed.unique (composed hl' hu' fixingTimeNs instrumentId sourceId), ?_, ?_⟩
  · intro m hm
    rw [hm] at hcomposed
    cases hcomposed with
    | encoded _ _ _ _ encodes => exact ⟨encodes.lower, encodes.upper, encodes.coarsest⟩
  · intro hbounded hnonempty p hp hlow hfits
    generalize composeStrike (.fixed lower upper fixingTimeNs) instrumentId sourceId = x at hcomposed
    cases hcomposed with
    | unbounded habsent => exact absurd habsent hbounded
    | unrepresentable q _ coarsest outside =>
        rw [coarsest.unique hp, Composed.outside_iff] at outside
        exact absurd ⟨hlow, hfits⟩ outside
    | empty _ _ _ _ hempty => exact absurd hnonempty hempty
    | encoded m => exact ⟨m, rfl⟩

/-- At or above one, stated as `1.0` and as a mantissa, is one strike. -/
theorem composeStrike_one_encoding_example :
    composeStrike (.fixed (some ⟨.fixed 10 (-1), true⟩) none none) 7 .first =
      composeStrike (.fixed (some ⟨.fixed 1 0, true⟩) none none) 7 .first :=
  have hten : (Scalar.fixed 10 (-1)).Is (scaled 1 0) :=
    (scaled_eq_iff_of_le (n := 1) (p := 0) (r := 10) (q := -1) (by decide)).mpr rfl ▸
      .fixed 10 (-1)
  (composeStrike_one_encoding (.present true hten) .absent (.present true (.fixed 1 0)) .absent none
    7 .first).1

theorem finest_isDigit : ∀ b ∈ ([48] ++ (List.replicate 128 48 ++ [49]) : List Byte),
    isDigit b = true := by
  decide +kernel

theorem finest_whole_ne : ([48] : List Byte) ≠ [] := List.cons_ne_nil _ _

/-- One in the last of 129 places behind the point. -/
def finest : Numeral where
  negative := false
  whole := [48]
  fraction := List.replicate 128 48 ++ [49]
  whole_ne := finest_whole_ne
  isDigit_of_mem := finest_isDigit

theorem finest_value : finest.value = scaled 1 (-129) := by
  have hcoefficient : finest.coefficient = 1 := by decide +kernel
  have hlength : finest.fraction.length = 129 := by decide +kernel
  rw [Numeral.value, Numeral.magnitude, hcoefficient, hlength]
  rfl

/-- The whole line holds every number and has no bound that does not fit, and neither has what is
at or above the finest number; both are refused. -/
theorem composeStrike_refuses :
    ((∃ x, Contains none none x) ∧ Coarsest (values none none) 0 ∧ FitsI64 (values none none) 0 ∧
      composeStrike (.fixed none none none) 7 .first = .error .strikeUnrepresentable) ∧
    (Scalar.text finest.text).Is finest.value ∧
      (∃ x, Contains (some (finest.value, true)) none x) ∧
      Coarsest (values (some (finest.value, true)) none) (-129) ∧
      FitsI64 (values (some (finest.value, true)) none) (-129) ∧
      composeStrike (.fixed (some ⟨.text finest.text, true⟩) none none) 7 .first =
        .error .strikeUnrepresentable := by
  refine ⟨⟨exists_contains_of_none (.inl rfl), coarsest_nil,
    fun v hv ↦ absurd hv List.not_mem_nil, rfl⟩, .text finest, exists_contains_of_none (.inr rfl),
    ?_, ?_, ?_⟩
  · have hdigits : (finest.fraction.reverse.dropWhile (· = 48)).length = 129 := by decide +kernel
    have hcoarsest := coarsest_fraction finest
    rw [hdigits] at hcoarsest
    exact hcoarsest
  · exact List.forall_mem_singleton.mpr ⟨1, finest_value, by decide, by decide⟩
  · decide +kernel

end EdgeMulticast.Refdata
