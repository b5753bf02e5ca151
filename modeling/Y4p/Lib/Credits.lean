import Mathlib.Data.List.Basic

/-!
Credits against a queue of messages. A consumer that cannot tell its own messages
from others takes a message for its own exactly when it holds a credit. It is right
as long as the queue holds its own messages first, as many as it has credits.
-/

namespace Credits

-- `true` marks the consumer's own messages.
def Aligned (credits : Nat) (tags : List Bool) : Prop :=
  ∃ others, tags = List.replicate credits true ++ List.replicate others false

theorem aligned_nil : Aligned 0 [] :=
  ⟨0, rfl⟩

theorem Aligned.count {credits : Nat} {tags : List Bool} (aligned : Aligned credits tags) :
    tags.count true = credits := by
  obtain ⟨others, rfl⟩ := aligned
  simp [List.count_replicate]

/-- Taking the next message, for one's own if there is a credit. -/
theorem Aligned.head {credits : Nat} {tag : Bool} {rest : List Bool}
    (aligned : Aligned credits (tag :: rest)) :
    (tag = true ↔ 0 < credits) ∧ Aligned (credits - 1) rest := by
  obtain ⟨others, shape⟩ := aligned
  cases credits with
  | zero =>
      cases others with
      | zero => simp at shape
      | succ others =>
          simp only [List.replicate_zero, List.nil_append, List.replicate_succ,
            List.cons.injEq] at shape
          refine ⟨by simp [shape.1], others, ?_⟩
          simpa using shape.2
  | succ credits =>
      simp only [List.replicate_succ, List.cons_append, List.cons.injEq] at shape
      exact ⟨by simp [shape.1], others, shape.2⟩

theorem Aligned.own {credits : Nat} {tags : List Bool} (aligned : Aligned credits tags)
    (clear : false ∉ tags) : Aligned (credits + 1) (tags ++ [true]) := by
  obtain ⟨others, rfl⟩ := aligned
  have none : others = 0 := by
    by_contra some
    exact clear (by simp [List.mem_replicate, some])
  refine ⟨0, ?_⟩
  rw [none, List.replicate_zero, List.append_nil, List.append_nil, List.replicate_succ']

theorem Aligned.other {credits : Nat} {tags : List Bool} (aligned : Aligned credits tags) :
    Aligned credits (tags ++ [false]) := by
  obtain ⟨others, rfl⟩ := aligned
  refine ⟨others + 1, ?_⟩
  rw [List.append_assoc, List.replicate_succ']

end Credits
