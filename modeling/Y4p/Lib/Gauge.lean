import Mathlib.Data.Nat.Notation

/-!
Machine-word counters with a limit, raised by compare-and-exchange and lowered by
subtraction, by any number of threads at once. Each raise stands for a permit, and what is
shown is that the counter stays the total of the permits alive.
-/

namespace Gauges

structure Gauge where
  used : Nat
  limit : Nat
  size : Nat

namespace Gauge

def checkedAdd (size a b : Nat) : Option Nat :=
  if a + b < size then some (a + b) else none

def wrappingSub (size a b : Nat) : Nat :=
  (a + size - b) % size

-- The weak form, which may fail for no reason.
def exchange (current next : Nat) (spurious : Bool) (gauge : Gauge) : Except Nat Unit × Gauge :=
  if gauge.used = current ∧ spurious = false then (.ok (), { gauge with used := next })
  else (.error gauge.used, gauge)

def fetchSub (amount : Nat) (gauge : Gauge) : Gauge :=
  { gauge with used := wrappingSub gauge.size gauge.used amount }

structure Balanced (gauge : Gauge) (live : Nat) : Prop where
  used : gauge.used = live
  within : live ≤ gauge.limit
  word : gauge.limit < gauge.size

variable {gauge : Gauge} {live : Nat}

theorem wrappingSub_add {size rest amount : Nat} (word : rest + amount < size) :
    wrappingSub size (rest + amount) amount = rest := by
  have around : rest + amount + size - amount = rest + size := by omega
  unfold wrappingSub
  rw [around, Nat.add_mod_right]
  exact Nat.mod_eq_of_lt (by omega)

theorem checkedAdd_some {size a b sum : Nat} (added : checkedAdd size a b = some sum) :
    sum = a + b := by
  unfold checkedAdd at added
  split at added
  · exact (Option.some.inj added).symm
  · cases added

/-- A successful exchange found the counter where it was read. -/
theorem exchange_cases (current next : Nat) (spurious : Bool) (gauge : Gauge) :
    (gauge.used = current ∧
        gauge.exchange current next spurious = (.ok (), { gauge with used := next })) ∨
      gauge.exchange current next spurious = (.error gauge.used, gauge) := by
  unfold exchange
  by_cases found : gauge.used = current ∧ spurious = false
  · exact .inl ⟨found.1, if_pos found⟩
  · exact .inr (if_neg found)

theorem Balanced.raise {amount next : Nat} (balanced : gauge.Balanced live)
    (sum : next = gauge.used + amount) (fits : next ≤ gauge.limit) :
    Balanced { gauge with used := next } (live + amount) where
  used := by rw [sum, balanced.used]
  within := by
    rw [← balanced.used, ← sum]
    exact fits
  word := balanced.word

theorem Balanced.fetchSub {amount rest : Nat} (balanced : gauge.Balanced live)
    (held : live = rest + amount) : (gauge.fetchSub amount).Balanced rest where
  used := by
    have word : rest + amount < gauge.size := by
      rw [← held]
      exact Nat.lt_of_le_of_lt balanced.within balanced.word
    change wrappingSub gauge.size gauge.used amount = rest
    rw [balanced.used, held]
    exact wrappingSub_add word
  within := by
    have within := balanced.within
    rw [held] at within
    exact Nat.le_of_add_right_le within
  word := balanced.word

end Gauge

end Gauges
