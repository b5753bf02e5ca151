import Mathlib.Algebra.Group.Nat.Defs

/-!
What guards the image converter: the circuit breaker (`crates/image/src/breaker.rs`)
and the process throttle (`throttle.rs`). Instants are counted from some origin.
-/

namespace Y4p

abbrev Instant := Nat

namespace CircuitBreaker

inductive Inner where
  | closed (failures : UInt32)
  | opened (untilInstant : Instant)
  | halfOpen (probeInFlight : Bool)
  deriving DecidableEq

inductive Outcome where
  | success
  | failure
  | neutral
  deriving DecidableEq

end CircuitBreaker

structure CircuitBreaker where
  inner : CircuitBreaker.Inner
  threshold : UInt32
  cooldown : Nat
  deriving DecidableEq

inductive PermitOutcome where
  | success
  | failure
  | release
  deriving DecidableEq

structure Permit where
  canary : Bool
  deriving DecidableEq

namespace CircuitBreaker

-- A threshold of 0 is treated as 1.
def new (threshold : UInt32) (cooldown : Nat) : CircuitBreaker where
  inner := .closed 0
  threshold := if threshold = 0 then 1 else threshold
  cooldown := cooldown

def acquireAt (now : Instant) (breaker : CircuitBreaker) : Option Permit × CircuitBreaker :=
  match breaker.inner with
  | .closed _ => (some { canary := false }, breaker)
  | .opened untilInstant =>
      if untilInstant ≤ now then
        (some { canary := true }, { breaker with inner := .halfOpen true })
      else (none, breaker)
  | .halfOpen false => (some { canary := true }, { breaker with inner := .halfOpen true })
  | .halfOpen true => (none, breaker)

-- Whether the circuit tripped, and whether it recovered.
def resolve (canary : Bool) (outcome : Outcome) (now : Instant) (breaker : CircuitBreaker) :
    (Bool × Bool) × CircuitBreaker :=
  match breaker.inner, canary with
  | .closed failures, false =>
      match outcome with
      | .success => ((false, false), { breaker with inner := .closed 0 })
      | .neutral => ((false, false), breaker)
      | .failure =>
          if breaker.threshold.toNat ≤ min (failures.toNat + 1) (2 ^ 32 - 1) then
            ((true, false), { breaker with inner := .opened (now + breaker.cooldown) })
          else ((false, false), { breaker with inner := .closed (failures + 1) })
  | .halfOpen true, true =>
      match outcome with
      | .success => ((false, true), { breaker with inner := .closed 0 })
      | .failure => ((true, false), { breaker with inner := .opened (now + breaker.cooldown) })
      | .neutral => ((false, false), { breaker with inner := .halfOpen false })
  -- A report from before the state moved on.
  | _, _ => ((false, false), breaker)

end CircuitBreaker

namespace Permit

def resolveAt (permit : Permit) (outcome : PermitOutcome) (now : Instant)
    (breaker : CircuitBreaker) : (Bool × Bool) × CircuitBreaker :=
  let inner : CircuitBreaker.Outcome :=
    match outcome with
    | .success => .success
    | .failure => .failure
    | .release => .neutral
  breaker.resolve permit.canary inner now

def release (permit : Permit) (now : Instant) (breaker : CircuitBreaker) : CircuitBreaker :=
  (breaker.resolve permit.canary .neutral now).2

-- A permit dropped unresolved.
def drop (permit : Permit) (now : Instant) (breaker : CircuitBreaker) :
    (Bool × Bool) × CircuitBreaker :=
  breaker.resolve permit.canary .failure now

end Permit

structure ProcessThrottle where
  inUse : Nat
  limit : Nat
  deriving DecidableEq

namespace ProcessThrottle

-- A limit of 0 is treated as 1.
def new (limit : Nat) : ProcessThrottle where
  inUse := 0
  limit := if limit = 0 then 1 else limit

-- `held` is how many slots are in use when the wait for one ends.
def acquire (held : Nat) (throttle : ProcessThrottle) : Bool × ProcessThrottle :=
  if throttle.limit ≤ held then (false, { throttle with inUse := held })
  else (true, { throttle with inUse := held + 1 })

def release (throttle : ProcessThrottle) : ProcessThrottle :=
  { throttle with inUse := throttle.inUse - 1 }

end ProcessThrottle

end Y4p
