import Mathlib.Logic.Basic

/-!
Programs that reach their environment through calls, one at a time. A program
is the tree of everything it may do: it either returns, or issues a call and
continues with the answer. The environment is a step function, so one program
text can be run to its end, observed after each call, or interleaved.
-/

namespace Programs

inductive Program (Call : Type) (Answer : Call → Type) (α : Type) where
  | ret (value : α)
  | call (request : Call) (next : Answer request → Program Call Answer α)

namespace Program

variable {Call : Type} {Answer : Call → Type} {α β S : Type}

def bind : Program Call Answer α → (α → Program Call Answer β) → Program Call Answer β
  | .ret value, rest => rest value
  | .call request next, rest => .call request fun answer => (next answer).bind rest

instance : Monad (Program Call Answer) where
  pure := .ret
  bind := bind

/-- Issues one call and returns its answer. -/
def ask (request : Call) : Program Call Answer (Answer request) :=
  .call request .ret

variable (step : (request : Call) → S → Answer request × S)

/-- Runs the program to its end. -/
def exec : Program Call Answer α → S → α × S
  | .ret value, state => (value, state)
  | .call request next, state =>
      exec (next (step request state).1) (step request state).2

/-- The states the environment is in after each call, in order. -/
def visits : Program Call Answer α → S → List S
  | .ret _, _ => []
  | .call request next, state =>
      (step request state).2 :: visits (next (step request state).1) (step request state).2

/-- The calls issued, in order, each with the state it met. -/
def trace : Program Call Answer α → S → List (Call × S)
  | .ret _, _ => []
  | .call request next, state =>
      (request, state) :: trace (next (step request state).1) (step request state).2

/-- The calls issued, in order. -/
def calls : Program Call Answer α → S → List Call
  | .ret _, _ => []
  | .call request next, state =>
      request :: calls (next (step request state).1) (step request state).2

@[simp] theorem exec_ret (value : α) (state : S) :
    exec step (.ret value : Program Call Answer α) state = (value, state) := rfl

@[simp] theorem exec_pure (value : α) (state : S) :
    exec step (pure value : Program Call Answer α) state = (value, state) := rfl

@[simp] theorem exec_call (request : Call) (next : Answer request → Program Call Answer α)
    (state : S) :
    exec step (.call request next) state =
      exec step (next (step request state).1) (step request state).2 := rfl

/-- One call of a run whose answer is known. -/
theorem exec_answer {request : Call} {answer : Answer request} {state after : S}
    {next : Answer request → Program Call Answer α}
    (answered : step request state = (answer, after)) :
    exec step (.call request next) state = exec step (next answer) after := by
  rw [exec_call, answered]

@[simp] theorem exec_ask (request : Call) (state : S) :
    exec step (ask request : Program Call Answer _) state = step request state := rfl

@[simp] theorem exec_bind (program : Program Call Answer α) (rest : α → Program Call Answer β)
    (state : S) :
    exec step (program >>= rest) state =
      exec step (rest (exec step program state).1) (exec step program state).2 := by
  change exec step (program.bind rest) state = _
  induction program generalizing state with
  | ret value => rfl
  | call request next ih => exact ih _ _

@[simp] theorem visits_ret (value : α) (state : S) :
    visits step (.ret value : Program Call Answer α) state = [] := rfl

@[simp] theorem visits_pure (value : α) (state : S) :
    visits step (pure value : Program Call Answer α) state = [] := rfl

@[simp] theorem visits_ask (request : Call) (state : S) :
    visits step (ask request : Program Call Answer _) state = [(step request state).2] := rfl

@[simp] theorem visits_bind (program : Program Call Answer α) (rest : α → Program Call Answer β)
    (state : S) :
    visits step (program >>= rest) state =
      visits step program state ++
        visits step (rest (exec step program state).1) (exec step program state).2 := by
  change visits step (program.bind rest) state = _
  induction program generalizing state with
  | ret value => rfl
  | call request next ih =>
      simp only [bind, visits, exec, List.cons_append]
      exact congrArg _ (ih _ _)

@[simp] theorem trace_ret (value : α) (state : S) :
    trace step (.ret value : Program Call Answer α) state = [] := rfl

@[simp] theorem trace_pure (value : α) (state : S) :
    trace step (pure value : Program Call Answer α) state = [] := rfl

@[simp] theorem trace_ask (request : Call) (state : S) :
    trace step (ask request : Program Call Answer _) state = [(request, state)] := rfl

@[simp] theorem trace_bind (program : Program Call Answer α) (rest : α → Program Call Answer β)
    (state : S) :
    trace step (program >>= rest) state =
      trace step program state ++
        trace step (rest (exec step program state).1) (exec step program state).2 := by
  change trace step (program.bind rest) state = _
  induction program generalizing state with
  | ret value => rfl
  | call request next ih =>
      simp only [bind, trace, exec, List.cons_append]
      exact congrArg _ (ih _ _)

@[simp] theorem calls_ret (value : α) (state : S) :
    calls step (.ret value : Program Call Answer α) state = [] := rfl

@[simp] theorem calls_pure (value : α) (state : S) :
    calls step (pure value : Program Call Answer α) state = [] := rfl

@[simp] theorem calls_ask (request : Call) (state : S) :
    calls step (ask request : Program Call Answer _) state = [request] := rfl

@[simp] theorem calls_bind (program : Program Call Answer α) (rest : α → Program Call Answer β)
    (state : S) :
    calls step (program >>= rest) state =
      calls step program state ++
        calls step (rest (exec step program state).1) (exec step program state).2 := by
  change calls step (program.bind rest) state = _
  induction program generalizing state with
  | ret value => rfl
  | call request next ih =>
      simp only [bind, calls, exec, List.cons_append]
      exact congrArg _ (ih _ _)

theorem calls_answer {request : Call} {answer : Answer request} {state after : S}
    {next : Answer request → Program Call Answer α}
    (answered : step request state = (answer, after)) :
    calls step (.call request next) state = request :: calls step (next answer) after := by
  rw [calls, answered]

end Program

namespace Program

variable {Call : Type} {Answer : Call → Type} {α β S T : Type}

def Issues (allowed : Call → Prop) : Program Call Answer α → Prop
  | .ret _ => True
  | .call request next => allowed request ∧ ∀ answer, Issues allowed (next answer)

theorem Issues.bind {allowed : Call → Prop} {program : Program Call Answer α}
    {rest : α → Program Call Answer β} (first : Issues allowed program)
    (second : ∀ value, Issues allowed (rest value)) : Issues allowed (program >>= rest) := by
  change Issues allowed (program.bind rest)
  induction program with
  | ret value => exact second value
  | call request next ih => exact ⟨first.1, fun answer => ih answer (first.2 answer)⟩

theorem issues_any (program : Program Call Answer α) : Issues (fun _ => True) program := by
  induction program with
  | ret value => trivial
  | call request next ih => exact ⟨trivial, ih⟩

/-- A coarser environment that answers alike makes the same run, seen through `view`. -/
theorem exec_view {fine : (request : Call) → S → Answer request × S}
    {coarse : (request : Call) → T → Answer request × T} (view : S → T)
    (agree : ∀ request state,
      (fine request state).1 = (coarse request (view state)).1 ∧
        view (fine request state).2 = (coarse request (view state)).2)
    (program : Program Call Answer α) (state : S) :
    exec coarse program (view state) =
      ((exec fine program state).1, view (exec fine program state).2) := by
  induction program generalizing state with
  | ret value => rfl
  | call request next ih =>
      obtain ⟨sameAnswer, sameState⟩ := agree request state
      simp only [exec]
      rw [← sameAnswer, ← sameState]
      exact ih _ _

theorem calls_view {fine : (request : Call) → S → Answer request × S}
    {coarse : (request : Call) → T → Answer request × T} (view : S → T)
    (agree : ∀ request state,
      (fine request state).1 = (coarse request (view state)).1 ∧
        view (fine request state).2 = (coarse request (view state)).2)
    (program : Program Call Answer α) (state : S) :
    calls coarse program (view state) = calls fine program state := by
  induction program generalizing state with
  | ret value => rfl
  | call request next ih =>
      obtain ⟨sameAnswer, sameState⟩ := agree request state
      simp only [calls]
      rw [← sameAnswer, ← sameState, ih]

variable {Inner : Type} {Reply : Inner → Type}

def lift (embed : Inner → Call) (reply : ∀ request, Answer (embed request) → Reply request) :
    Program Inner Reply α → Program Call Answer α
  | .ret value => .ret value
  | .call request next => .call (embed request) fun answer => lift embed reply (next (reply _ answer))

section
variable {embed : Inner → Call} {reply : ∀ request, Answer (embed request) → Reply request}
  {outer : (request : Call) → T → Answer request × T}
  {inner : (request : Inner) → S → Reply request × S} (enter : S → T)
  (agree : ∀ request state,
    reply request (outer (embed request) (enter state)).1 = (inner request state).1 ∧
      (outer (embed request) (enter state)).2 = enter (inner request state).2)
  (program : Program Inner Reply α) (state : S)
include agree

theorem exec_lift :
    exec outer (lift embed reply program) (enter state) =
      ((exec inner program state).1, enter (exec inner program state).2) := by
  induction program generalizing state with
  | ret value => rfl
  | call request next ih =>
      obtain ⟨sameAnswer, sameState⟩ := agree request state
      simp only [lift, exec]
      rw [sameAnswer, sameState]
      exact ih _ _

theorem calls_lift :
    calls outer (lift embed reply program) (enter state) =
      (calls inner program state).map embed := by
  induction program generalizing state with
  | ret value => rfl
  | call request next ih =>
      obtain ⟨sameAnswer, sameState⟩ := agree request state
      simp only [lift, calls, List.map_cons]
      rw [sameAnswer, sameState, ih]

end

theorem Issues.lift {embed : Inner → Call}
    {reply : ∀ request, Answer (embed request) → Reply request} {inner : Inner → Prop}
    {allowed : Call → Prop} (embedded : ∀ request, inner request → allowed (embed request))
    {program : Program Inner Reply α} (issues : Issues inner program) :
    Issues allowed (lift embed reply program) := by
  induction program with
  | ret value => trivial
  | call request next ih => exact ⟨embedded request issues.1, fun answer => ih _ (issues.2 _)⟩

end Program

/-- A program whose result is a value or the error that stopped it. -/
abbrev Fallible (Call : Type) (Answer : Call → Type) (ε α : Type) : Type :=
  ExceptT ε (Program Call Answer) α

namespace Fallible

variable {Call : Type} {Answer : Call → Type} {ε α β S : Type}
variable (step : (request : Call) → S → Answer request × S)

@[simp] theorem exec_pure (value : α) (state : S) :
    Program.exec step (pure value : Fallible Call Answer ε α).run state = (.ok value, state) := rfl

/-- A sequence runs its second half only on the first half's value. -/
theorem exec_bind (program : Fallible Call Answer ε α) (rest : α → Fallible Call Answer ε β)
    (state : S) :
    Program.exec step (program >>= rest).run state =
      match Program.exec step program.run state with
      | (.ok value, after) => Program.exec step (rest value).run after
      | (.error failure, after) => (.error failure, after) := by
  change Program.exec step (program.run >>= ExceptT.bindCont rest) state = _
  rw [Program.exec_bind]
  rcases Program.exec step program.run state with ⟨outcome, after⟩
  cases outcome with
  | ok value => rfl
  | error failure => rfl

theorem exec_bind_ok {program : Fallible Call Answer ε α} {rest : α → Fallible Call Answer ε β}
    {state after : S} {value : α}
    (ran : Program.exec step program.run state = (.ok value, after)) :
    Program.exec step (program >>= rest).run state = Program.exec step (rest value).run after := by
  rw [exec_bind, ran]

theorem exec_bind_error {program : Fallible Call Answer ε α}
    {rest : α → Fallible Call Answer ε β} {state after : S} {failure : ε}
    (ran : Program.exec step program.run state = (.error failure, after)) :
    Program.exec step (program >>= rest).run state = (.error failure, after) := by
  rw [exec_bind, ran]

theorem calls_bind_ok {program : Fallible Call Answer ε α} {rest : α → Fallible Call Answer ε β}
    {state after : S} {value : α}
    (ran : Program.exec step program.run state = (.ok value, after)) :
    Program.calls step (program >>= rest).run state =
      Program.calls step program.run state ++ Program.calls step (rest value).run after := by
  change Program.calls step (program.run >>= ExceptT.bindCont rest) state = _
  rw [Program.calls_bind, ran]
  rfl

def Runs (program : Fallible Call Answer ε α) (state : S) (value : α) (after : S) : Prop :=
  Program.exec step program.run state = (.ok value, after)

theorem Runs.bind {program : Fallible Call Answer ε α} {rest : α → Fallible Call Answer ε β}
    {state middle after : S} {value : α} {result : β}
    (first : Runs step program state value middle)
    (second : Runs step (rest value) middle result after) :
    Runs step (program >>= rest) state result after := by
  rw [Runs, exec_bind, first]
  exact second

theorem Runs.of_bind {program : Fallible Call Answer ε α} {rest : α → Fallible Call Answer ε β}
    {state after : S} {result : β} (runs : Runs step (program >>= rest) state result after) :
    ∃ value middle, Runs step program state value middle ∧
      Runs step (rest value) middle result after := by
  rw [Runs, exec_bind] at runs
  rcases ran : Program.exec step program.run state with ⟨outcome, middle⟩
  rw [ran] at runs
  cases outcome with
  | ok value => exact ⟨value, middle, ran, runs⟩
  | error failure => simp at runs

theorem Runs.unique {program : Fallible Call Answer ε α} {state after other : S}
    {value result : α} (first : Runs step program state value after)
    (second : Runs step program state result other) : value = result ∧ after = other := by
  have same := first.symm.trans second
  simpa using same

variable {Result : Call → Type}

def Fails : Program Call (fun request => Except ε (Result request)) (Except ε α) → Prop
  | .ret (.ok _) => False
  | .ret (.error _) => True
  | .call _ next => ∀ answer, Fails (next answer)

-- A failed call the program does not swallow ends it in an error.
def Strict (swallowed : Call → Prop) :
    Program Call (fun request => Except ε (Result request)) (Except ε α) → Prop
  | .ret _ => True
  | .call request next =>
      (¬ swallowed request → ∀ failure, Fails (next (.error failure))) ∧
        ∀ answer, Strict swallowed (next answer)

theorem Fails.bind {program : Fallible Call (fun request => Except ε (Result request)) ε α}
    {rest : α → Fallible Call (fun request => Except ε (Result request)) ε β}
    (fails : Fails program.run) : Fails (program >>= rest).run := by
  change Fails (Program.bind program.run (ExceptT.bindCont rest))
  generalize program.run = started at fails
  induction started with
  | ret outcome =>
      cases outcome with
      | ok value => exact fails.elim
      | error failure => trivial
  | call request next ih => exact fun answer => ih answer (fails answer)

theorem Strict.bind {swallowed : Call → Prop}
    {program : Fallible Call (fun request => Except ε (Result request)) ε α}
    {rest : α → Fallible Call (fun request => Except ε (Result request)) ε β}
    (first : Strict swallowed program.run) (second : ∀ value, Strict swallowed (rest value).run) :
    Strict swallowed (program >>= rest).run := by
  change Strict swallowed (Program.bind program.run (ExceptT.bindCont rest))
  change Program Call (fun request => Except ε (Result request)) (Except ε α) at program
  change Strict swallowed program at first
  change Strict swallowed (Program.bind program (ExceptT.bindCont rest))
  induction program with
  | ret outcome =>
      cases outcome with
      | ok value => exact second value
      | error failure => trivial
  | call request next ih =>
      refine ⟨fun loud failure => ?_, fun answer => ih answer (first.2 answer)⟩
      exact @Fails.bind _ _ _ _ _ (next (.error failure)) rest (first.1 loud failure)

theorem Fails.not_ok {S : Type}
    {program : Program Call (fun request => Except ε (Result request)) (Except ε α)}
    (fails : Fails program) (step : (request : Call) → S → Except ε (Result request) × S)
    (state : S) (value : α) : (Program.exec step program state).1 ≠ .ok value := by
  induction program generalizing state with
  | ret outcome =>
      cases outcome with
      | ok value => exact fails.elim
      | error failure => simp
  | call request next ih => exact ih _ (fails _) _

theorem issues_bind {Answer : Call → Type} {allowed : Call → Prop}
    {program : Fallible Call Answer ε α} {rest : α → Fallible Call Answer ε β}
    (first : Program.Issues allowed program.run)
    (second : ∀ value, Program.Issues allowed (rest value).run) :
    Program.Issues allowed (program >>= rest).run := by
  refine Program.Issues.bind first fun outcome => ?_
  cases outcome with
  | ok value => exact second value
  | error failure => trivial

/-- A run of a strict program that ends well met no failure: it is the calm run. -/
theorem Strict.exec_eq_calm {S T : Type} {swallowed : Call → Prop}
    {program : Program Call (fun request => Except ε (Result request)) (Except ε α)}
    (strict : Strict swallowed program)
    {faulty : (request : Call) → S → Except ε (Result request) × S}
    {calm : (request : Call) → T → Except ε (Result request) × T} (view : S → T)
    (agree : ∀ request state,
      ((faulty request state).1, view (faulty request state).2) = calm request (view state) ∨
        (¬ swallowed request ∧ ∃ failure, (faulty request state).1 = .error failure))
    {state : S} {value : α} (ended : (Program.exec faulty program state).1 = .ok value) :
    Program.exec calm program (view state) =
      (.ok value, view (Program.exec faulty program state).2) := by
  induction program generalizing state with
  | ret outcome =>
      change outcome = .ok value at ended
      rw [ended]
      rfl
  | call request next ih =>
      rcases agree request state with same | ⟨loud, failure, failed⟩
      · simp only [Program.exec_call] at ended ⊢
        rw [← same]
        exact ih _ (strict.2 _) ended
      · simp only [Program.exec_call, failed] at ended
        exact absurd ended ((strict.1 loud failure).not_ok faulty _ value)

end Fallible

namespace Program

variable {Call : Type} {Answer : Call → Type} {α β S : Type}
variable (step : (request : Call) → S → Answer request × S)
variable (failure : (request : Call) → Answer request)

-- A run in which exactly the call `failed` is answered by `failure`, without effect.
inductive FailsOnce : Program Call Answer α → S → Call → α × S → Prop
  | here {request next state} : FailsOnce (.call request next) state request
      (exec step (next (failure request)) state)
  | later {request next state failed ended} :
      FailsOnce (next (step request state).1) (step request state).2 failed ended →
      FailsOnce (.call request next) state failed ended

variable {step failure}

theorem FailsOnce.of_bind {program : Program Call Answer α} {rest : α → Program Call Answer β}
    {state : S} {failed : Call} {ended : β × S}
    (fails : FailsOnce step failure (program >>= rest) state failed ended) :
    (∃ value middle, FailsOnce step failure program state failed (value, middle) ∧
      ended = exec step (rest value) middle) ∨
    FailsOnce step failure (rest (exec step program state).1) (exec step program state).2
      failed ended := by
  change FailsOnce step failure (program.bind rest) state failed ended at fails
  induction program generalizing state with
  | ret value => exact .inr fails
  | call request next ih =>
      cases fails with
      | here => exact .inl ⟨_, _, .here, exec_bind step (next (failure _)) rest state⟩
      | later fails =>
          rcases ih _ fails with ⟨value, middle, early, same⟩ | late
          · exact .inl ⟨value, middle, .later early, same⟩
          · exact .inr late

theorem FailsOnce.allowed {allowed : Call → Prop} {program : Program Call Answer α} {state : S}
    {failed : Call} {ended : α × S} (fails : FailsOnce step failure program state failed ended)
    (issues : Issues allowed program) : allowed failed := by
  induction fails with
  | here => exact issues.1
  | later _ ih => exact ih (issues.2 _)

theorem mem_calls {allowed : Call → Prop} {program : Program Call Answer α} {state : S}
    {request : Call} (issues : Issues allowed program)
    (issued : request ∈ calls step program state) : allowed request := by
  induction program generalizing state with
  | ret value => simp [calls] at issued
  | call first next ih =>
      rcases List.mem_cons.mp issued with rfl | later
      · exact issues.1
      · exact ih _ (issues.2 _) later

end Program

namespace Fallible

variable {Call : Type} {Answer : Call → Type} {ε α β S : Type}
  {step : (request : Call) → S → Answer request × S} {failure : (request : Call) → Answer request}

theorem failsOnce_of_bind {program : Fallible Call Answer ε α}
    {rest : α → Fallible Call Answer ε β} {state : S} {failed : Call} {ended : Except ε β × S}
    (fails : Program.FailsOnce step failure (program >>= rest).run state failed ended) :
    (∃ reason middle, ended = (.error reason, middle) ∧
      Program.FailsOnce step failure program.run state failed (.error reason, middle)) ∨
    (∃ value middle, Program.FailsOnce step failure program.run state failed (.ok value, middle) ∧
      ended = Program.exec step (rest value).run middle) ∨
    (∃ value middle, Runs step program state value middle ∧
      Program.FailsOnce step failure (rest value).run middle failed ended) := by
  change Program.FailsOnce step failure (program.run >>= ExceptT.bindCont rest) state failed ended
    at fails
  rcases Program.FailsOnce.of_bind fails with ⟨outcome, middle, early, same⟩ | late
  · cases outcome with
    | error reason => exact .inl ⟨reason, middle, same, early⟩
    | ok value => exact .inr (.inl ⟨value, middle, early, same⟩)
  · rcases ran : Program.exec step program.run state with ⟨outcome, middle⟩
    rw [ran] at late
    cases outcome with
    | error reason => cases late
    | ok value => exact .inr (.inr ⟨value, middle, ran, late⟩)

end Fallible

namespace Fallible

variable {Call : Type} {Result : Call → Type} {ε α S : Type}
  {step : (request : Call) → S → Except ε (Result request) × S}

/-- A failure that is not swallowed is the result of the run. -/
theorem Strict.failsOnce {swallowed : Call → Prop}
    {program : Program Call (fun request => Except ε (Result request)) (Except ε α)}
    (strict : Strict swallowed program) {failure : ε} {state : S} {failed : Call}
    {ended : Except ε α × S}
    (fails : Program.FailsOnce step (fun _ => .error failure) program state failed ended)
    (loud : ¬ swallowed failed) : ∃ reason, ended.1 = .error reason := by
  induction fails with
  | @here request next state =>
      have stopped := strict.1 loud failure
      cases outcome : (Program.exec step (next (.error failure)) state).1 with
      | ok value => exact absurd outcome (stopped.not_ok step state value)
      | error reason => exact ⟨reason, rfl⟩
  | later _ ih => exact ih (strict.2 _) loud

end Fallible

end Programs
