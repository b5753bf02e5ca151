import Y4p.Lib.Program

/-!
Two programs taking turns on one state, a call at a time, in any order.
-/

namespace Programs

namespace Program

variable {Call : Type} {Answer : Call → Type} {α β : Type}

def next? : Program Call Answer α → Option Call
  | .ret _ => none
  | .call request _ => some request

end Program

-- What each call and its continuation must satisfy, given a ghost carried along the calls.
structure Contract (Call : Type) (Answer : Call → Type) (α G : Type) where
  carry : G → Call → G
  credible : G → (request : Call) → Answer request → Prop
  each : G → (request : Call) → (Answer request → Program Call Answer α) → Prop

/-- The program keeps the contract as long as the answers it gets are credible. -/
def Program.Obeys {Call : Type} {Answer : Call → Type} {α G : Type}
    (contract : Contract Call Answer α G) : G → Program Call Answer α → Prop
  | _, .ret _ => True
  | ghost, .call request next =>
      contract.each ghost request next ∧
        ∀ answer, contract.credible ghost request answer →
          Obeys contract (contract.carry ghost request) (next answer)

inductive Turn where
  | first
  | second
  deriving DecidableEq

structure Pair (Call : Type) (Answer : Call → Type) (α S : Type) where
  first : Program Call Answer α
  second : Program Call Answer α
  state : S

namespace Pair

variable {Call : Type} {Answer : Call → Type} {α S : Type}

def mover (pair : Pair Call Answer α S) : Turn → Program Call Answer α
  | .first => pair.first
  | .second => pair.second

def partner (pair : Pair Call Answer α S) : Turn → Program Call Answer α
  | .first => pair.second
  | .second => pair.first

def swap (pair : Pair Call Answer α S) : Pair Call Answer α S where
  first := pair.second
  second := pair.first
  state := pair.state

def finished (pair : Pair Call Answer α S) : Prop :=
  pair.first.next? = none ∧ pair.second.next? = none

variable (step : (request : Call) → S → Answer request × S)

def stepFirst (pair : Pair Call Answer α S) : Pair Call Answer α S :=
  match pair.first with
  | .ret _ => pair
  | .call request next =>
      { pair with first := next (step request pair.state).1, state := (step request pair.state).2 }

def take (pair : Pair Call Answer α S) : Turn → Pair Call Answer α S
  | .first => pair.stepFirst step
  | .second => (pair.swap.stepFirst step).swap

def run : List Turn → Pair Call Answer α S → Pair Call Answer α S
  | [], pair => pair
  | turn :: rest, pair => run rest (pair.take step turn)

/-- The turns of a schedule, each with the pair it finds. -/
def turns : List Turn → Pair Call Answer α S → List (Turn × Pair Call Answer α S)
  | [], _ => []
  | turn :: rest, pair => (turn, pair) :: turns rest (pair.take step turn)

variable {step}

/-- What every allowed turn keeps, a schedule of allowed turns keeps. -/
theorem run_keeps {invariant : Pair Call Answer α S → Prop}
    {allowed : Turn → Pair Call Answer α S → Prop}
    (kept : ∀ turn pair, invariant pair → allowed turn pair → invariant (pair.take step turn))
    {schedule : List Turn} {pair : Pair Call Answer α S} (holds : invariant pair)
    (allows : ∀ taken ∈ turns step schedule pair, allowed taken.1 taken.2) :
    invariant (run step schedule pair) := by
  induction schedule generalizing pair with
  | nil => exact holds
  | cons turn rest ih =>
      refine ih (kept turn pair holds (allows _ List.mem_cons_self)) ?_
      exact fun taken member => allows taken (List.mem_cons_of_mem _ member)

end Pair

end Programs
