import Mathlib.Data.Multiset.AddSub
import Y4p.Lib.Program

/-!
Who answers for a resource: programs that gain resources, work on them and give them up
through their calls, and end holding just those their result carries. What a program holds is
a multiset, so nothing is held by two owners unseen.
-/

namespace Programs

inductive Effect (R : Type) where
  | keeps
  | gains (resource : R)
  | loses (resource : R)

namespace Effect

variable {R : Type}

def Fits (held : Multiset R) : Effect R → Prop
  | .loses resource => resource ∈ held
  | _ => True

def after [DecidableEq R] (held : Multiset R) : Effect R → Multiset R
  | .keeps => held
  | .gains resource => resource ::ₘ held
  | .loses resource => held.erase resource

end Effect

-- What a call works on, and what its answer does to it; `none` where no such answer comes.
structure Discipline (Call : Type) (Answer : Call → Type) (R : Type) where
  needs : Call → Option R
  effect : (request : Call) → Answer request → Option (Effect R)

namespace Program

variable {Call : Type} {Answer : Call → Type} {α β R : Type} [DecidableEq R]

def Owns (rules : Discipline Call Answer R) (carried : α → Multiset R) :
    Program Call Answer α → Multiset R → Prop
  | .ret value, held => carried value = held
  | .call request next, held =>
      (∀ resource, rules.needs request = some resource → resource ∈ held) ∧
        ∀ answer effect, rules.effect request answer = some effect →
          effect.Fits held ∧ Owns rules carried (next answer) (effect.after held)

variable {rules : Discipline Call Answer R} {carried : α → Multiset R} {held : Multiset R}

theorem Owns.pure {value : α} (exact : carried value = held) :
    Owns rules carried (pure value) held :=
  exact

theorem Owns.bind {passed : β → Multiset R} {program : Program Call Answer α}
    {rest : α → Program Call Answer β} (first : Owns rules carried program held)
    (second : ∀ value, Owns rules passed (rest value) (carried value)) :
    Owns rules passed (program >>= rest) held := by
  change Owns rules passed (program.bind rest) held
  induction program generalizing held with
  | ret value =>
      have exact : carried value = held := first
      exact exact ▸ second value
  | call request next ih =>
      refine ⟨first.1, fun answer effect answered => ?_⟩
      obtain ⟨fits, later⟩ := first.2 answer effect answered
      exact ⟨fits, ih answer later⟩

theorem Owns.ask {request : Call} {rest : Answer request → Program Call Answer α}
    (works : ∀ resource, rules.needs request = some resource → resource ∈ held)
    (later : ∀ answer effect, rules.effect request answer = some effect →
      effect.Fits held ∧ Owns rules carried (rest answer) (effect.after held)) :
    Owns rules carried (Program.ask request >>= rest) held :=
  ⟨works, later⟩

/-- A call that changes nothing of what is held. -/
theorem Owns.keep {request : Call} {rest : Answer request → Program Call Answer α}
    (works : ∀ resource, rules.needs request = some resource → resource ∈ held)
    (keeps : ∀ answer, rules.effect request answer = some .keeps)
    (later : ∀ answer, Owns rules carried (rest answer) held) :
    Owns rules carried (Program.ask request >>= rest) held := by
  refine .ask works fun answer effect answered => ?_
  rw [keeps answer] at answered
  cases answered
  exact ⟨trivial, later answer⟩

theorem Owns.lift {Inner : Type} {Reply : Inner → Type} {embed : Inner → Call}
    {reply : ∀ request, Answer (embed request) → Reply request}
    {inner : Discipline Inner Reply R}
    (needs : ∀ request, rules.needs (embed request) = inner.needs request)
    (effect : ∀ request answer,
      rules.effect (embed request) answer = inner.effect request (reply request answer))
    {program : Program Inner Reply α} (owns : Owns inner carried program held) :
    Owns rules carried (lift embed reply program) held := by
  induction program generalizing held with
  | ret value => exact owns
  | call request next ih =>
      refine ⟨fun resource works => ?_, fun answer change answered => ?_⟩
      · rw [needs] at works
        exact owns.1 resource works
      · rw [effect] at answered
        obtain ⟨fits, later⟩ := owns.2 _ change answered
        exact ⟨fits, ih _ later⟩

/-- A program whose calls concern no resource ends with what it began with. -/
theorem Owns.of_issues {allowed : Call → Prop}
    (apart : ∀ request, allowed request → rules.needs request = none ∧
      ∀ answer, rules.effect request answer = some .keeps)
    {program : Program Call Answer α} (issues : Issues allowed program) (held : Multiset R) :
    Owns rules (fun _ => held) program held := by
  induction program with
  | ret value => rfl
  | call request next ih =>
      obtain ⟨idle, keeps⟩ := apart request issues.1
      refine ⟨fun resource works => ?_, fun answer effect answered => ?_⟩
      · rw [idle] at works
        cases works
      · rw [keeps answer] at answered
        cases answered
        exact ⟨trivial, ih answer (issues.2 answer)⟩

end Program

end Programs
