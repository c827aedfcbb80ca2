import Mathlib.Data.Nat.Basic
import Mathlib.Tactic.Common
import Std.Data.ExtTreeMap

/-!
# What the two book-builders share

The market-by-price and the market-by-order book-builders are separate programs.  They key
their state alike, give a book the same three statuses and read a side alike, so these
definitions are made once.
-/

namespace EdgeMulticast

open Std

/-- The `(channel_id, instrument_id)` that state is keyed by. -/
structure InstKey where
  ch : ℕ
  id : ℕ
deriving DecidableEq, Repr, Inhabited

namespace InstKey

instance : Ord InstKey := ⟨compareLex (compareOn ch) (compareOn id)⟩

instance : TransOrd InstKey :=
  inferInstanceAs (TransCmp (compareLex (compareOn ch) (compareOn id)))

instance : LawfulEqOrd InstKey where
  eq_of_compare {a b} h := by
    have h' : compareLex (compareOn ch) (compareOn id) a b = .eq := h
    obtain ⟨hch, hid⟩ : a.ch = b.ch ∧ a.id = b.id := by
      simpa [compareLex_eq_eq, compareOn] using h'
    cases a; cases b
    simp_all

end InstKey

/-- The serving status of a book.  Awaiting reference data is absence from the shard's map,
and building a snapshot is an open shadow, so neither is a status. -/
inductive InstrumentStatus where
  | awaitingSnapshot | ready | gap
deriving DecidableEq, Repr

inductive SideName where
  | bid | ask | other
deriving DecidableEq, Repr

def sideFromString : SideName → ℕ
  | .ask => 1
  | _ => 0

end EdgeMulticast
