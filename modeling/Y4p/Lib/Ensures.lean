import Y4p.Lib.Program

/-!
What a program ensures however its environment answers: `always` holds after every
call, and `post` holds of the result and the state it is returned in. Where the environment
is a step function, each call may have a precondition on the state that it is issued in.
-/

namespace Programs

namespace Program

variable {Call : Type} {Answer : Call → Type} {α β S T : Type}
variable (may : (request : Call) → S → Answer request → S → Prop) (always : S → Prop)

def Ensures (post : α → S → Prop) : Program Call Answer α → S → Prop
  | .ret value, state => post value state
  | .call request next, state =>
      ∀ answer after, may request state answer after →
        always after ∧ Ensures post (next answer) after

variable {may always}

theorem Ensures.mono {first second : α → S → Prop} {program : Program Call Answer α} {state : S}
    (ensures : Ensures may always first program state)
    (weaker : ∀ value after, first value after → second value after) :
    Ensures may always second program state := by
  induction program generalizing state with
  | ret value => exact weaker value state ensures
  | call request next ih =>
      intro answer after reply
      obtain ⟨now, later⟩ := ensures answer after reply
      exact ⟨now, ih answer later⟩

theorem Ensures.weaken {weaker : S → Prop} {post : α → S → Prop}
    {program : Program Call Answer α} {state : S}
    (ensures : Ensures may always post program state) (weakens : ∀ after, always after → weaker after) :
    Ensures may weaker post program state := by
  induction program generalizing state with
  | ret value => exact ensures
  | call request next ih =>
      intro answer after reply
      obtain ⟨now, later⟩ := ensures answer after reply
      exact ⟨weakens after now, ih answer later⟩

theorem Ensures.bind {post : β → S → Prop} {program : Program Call Answer α}
    {rest : α → Program Call Answer β} {state : S}
    (ensures : Ensures may always (fun value after => Ensures may always post (rest value) after)
      program state) :
    Ensures may always post (program >>= rest) state := by
  change Ensures may always post (program.bind rest) state
  induction program generalizing state with
  | ret value => exact ensures
  | call request next ih =>
      intro answer after reply
      obtain ⟨now, later⟩ := ensures answer after reply
      exact ⟨now, ih answer later⟩

theorem Ensures.ask {post : β → S → Prop} {request : Call}
    {rest : Answer request → Program Call Answer β} {state : S}
    (replies : ∀ answer after, may request state answer after →
      always after ∧ Ensures may always post (rest answer) after) :
    Ensures may always post (Program.ask request >>= rest) state :=
  replies

/-- What every allowed call keeps, a program that issues only allowed calls keeps. -/
theorem Ensures.of_issues {allowed : Call → Prop} {program : Program Call Answer α}
    (issues : Issues allowed program) {invariant : S → Prop}
    (kept : ∀ request state answer after, allowed request → invariant state →
      may request state answer after → always after ∧ invariant after)
    {state : S} (holds : invariant state) :
    Ensures may always (fun _ after => invariant after) program state := by
  induction program generalizing state with
  | ret value => exact holds
  | call request next ih =>
      intro answer after reply
      obtain ⟨now, still⟩ := kept request state answer after issues.1 holds reply
      exact ⟨now, ih answer (issues.2 answer) still⟩

/-- A run whose steps the environment may take as long as the invariant holds. -/
theorem Ensures.of_steps {post : α → S → Prop} {program : Program Call Answer α}
    {step : (request : Call) → S → Answer request × S} {invariant : S → Prop}
    (steps : ∀ request state, always state → invariant state →
      may request state (step request state).1 (step request state).2 ∧
        invariant (step request state).2)
    {state : S} (ensures : Ensures may always post program state) (holds : always state)
    (kept : invariant state) :
    (∀ after ∈ visits step program state, always after) ∧ always (exec step program state).2 ∧
      post (exec step program state).1 (exec step program state).2 := by
  induction program generalizing state with
  | ret value => exact ⟨by simp, holds, ensures⟩
  | call request next ih =>
      obtain ⟨allowed, still⟩ := steps request state holds kept
      obtain ⟨now, later⟩ := ensures _ _ allowed
      obtain ⟨reached, ended⟩ := ih _ later now still
      exact ⟨List.forall_mem_cons.mpr ⟨now, reached⟩, ended⟩

/-- A run whose steps the environment may take reaches only what the program ensures. -/
theorem Ensures.of_run {post : α → S → Prop} {program : Program Call Answer α}
    {step : (request : Call) → T → Answer request × T} (view : T → S) {state : T}
    (ensures : Ensures may always post program (view state))
    (allowed : ∀ issued ∈ trace step program state,
      may issued.1 (view issued.2) (step issued.1 issued.2).1 (view (step issued.1 issued.2).2)) :
    (∀ after ∈ visits step program state, always (view after)) ∧
      post (exec step program state).1 (view (exec step program state).2) := by
  induction program generalizing state with
  | ret value => exact ⟨by simp, ensures⟩
  | call request next ih =>
      simp only [trace, List.mem_cons, forall_eq_or_imp] at allowed
      obtain ⟨now, later⟩ := ensures _ _ allowed.1
      obtain ⟨always, ended⟩ := ih _ later allowed.2
      refine ⟨?_, ended⟩
      simp only [visits, List.mem_cons, forall_eq_or_imp]
      exact ⟨now, always⟩

/-- What is ensured of a program is ensured of it embedded, where its calls are answered alike. -/
theorem Ensures.lift {Inner : Type} {Reply : Inner → Type} {embed : Inner → Call}
    {reply : ∀ request, Answer (embed request) → Reply request}
    {inner : (request : Inner) → S → Reply request → S → Prop}
    (alike : ∀ request state answer after, may (embed request) state answer after →
      inner request state (reply request answer) after)
    {post : α → S → Prop} {program : Program Inner Reply α} {state : S}
    (ensures : Ensures inner always post program state) :
    Ensures may always post (Program.lift embed reply program) state := by
  induction program generalizing state with
  | ret value => exact ensures
  | call request next ih =>
      intro answer after answered
      obtain ⟨now, later⟩ := ensures _ after (alike request state answer after answered)
      exact ⟨now, ih _ later⟩

section Preconditions

variable {step : (request : Call) → S → Answer request × S} {guard : Call → S → Prop}

variable (step guard) in
/-- Every call of the run meets its precondition, and the run ends as `post` says. -/
def Guarded (post : α → S → Prop) (program : Program Call Answer α) (state : S) : Prop :=
  (∀ issued ∈ trace step program state, guard issued.1 issued.2) ∧
    post (exec step program state).1 (exec step program state).2

theorem Guarded.pure {post : α → S → Prop} {value : α} {state : S} (holds : post value state) :
    Guarded step guard post (Pure.pure value : Program Call Answer α) state :=
  ⟨by simp, holds⟩

theorem Guarded.ask {request : Call} {post : Answer request → S → Prop} {state : S}
    (allowed : guard request state) (holds : post (step request state).1 (step request state).2) :
    Guarded step guard post (Program.ask request) state :=
  ⟨by simpa using allowed, holds⟩

theorem Guarded.mono {first second : α → S → Prop} {program : Program Call Answer α} {state : S}
    (guarded : Guarded step guard first program state)
    (weaker : ∀ value after, first value after → second value after) :
    Guarded step guard second program state :=
  ⟨guarded.1, weaker _ _ guarded.2⟩

theorem Guarded.bind {post : β → S → Prop} {program : Program Call Answer α}
    {rest : α → Program Call Answer β} {state : S}
    (guarded : Guarded step guard (fun value after => Guarded step guard post (rest value) after)
      program state) :
    Guarded step guard post (program >>= rest) state := by
  obtain ⟨first, second, ended⟩ := guarded
  refine ⟨?_, by simpa using ended⟩
  intro issued member
  rw [trace_bind, List.mem_append] at member
  exact member.elim (first issued) (second issued)

theorem mem_trace_bind {program : Program Call Answer α} (rest : α → Program Call Answer β)
    {state : S} {issued : Call × S} (member : issued ∈ trace step program state) :
    issued ∈ trace step (program >>= rest) state := by
  rw [trace_bind]
  exact List.mem_append_left _ member

end Preconditions

end Program

namespace Fallible

variable {Call : Type} {Answer : Call → Type} {ε α β S : Type}
variable (may : (request : Call) → S → Answer request → S → Prop) (always : S → Prop)

def Returns (post : α → S → Prop) (program : Fallible Call Answer ε α) (state : S) : Prop :=
  Program.Ensures may always (fun outcome after => ∃ value, outcome = .ok value ∧ post value after)
    program.run state

variable {may always}

theorem Returns.mono {first second : α → S → Prop} {program : Fallible Call Answer ε α} {state : S}
    (returns : Returns may always first program state)
    (weaker : ∀ value after, first value after → second value after) :
    Returns may always second program state := by
  refine Program.Ensures.mono returns ?_
  rintro outcome after ⟨value, same, holds⟩
  exact ⟨value, same, weaker value after holds⟩

theorem Returns.pure {post : α → S → Prop} {value : α} {state : S} (holds : post value state) :
    Returns may always post (Pure.pure value : Fallible Call Answer ε α) state :=
  ⟨value, rfl, holds⟩

theorem Returns.bind {post : β → S → Prop} {program : Fallible Call Answer ε α}
    {rest : α → Fallible Call Answer ε β} {state : S}
    (returns : Returns may always (fun value after => Returns may always post (rest value) after)
      program state) :
    Returns may always post (program >>= rest) state := by
  change Program.Ensures may always _ (program.run >>= ExceptT.bindCont rest) state
  refine Program.Ensures.bind (Program.Ensures.mono returns ?_)
  rintro outcome after ⟨value, rfl, later⟩
  exact later

end Fallible

end Programs
