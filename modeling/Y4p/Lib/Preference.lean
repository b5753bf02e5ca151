import Mathlib.Data.List.Basic

/-!
Choosing from a list by stages: the first item of the first stage that has one. The stage an
item first passes is its grade, and the choice is the first item of the lowest grade.
-/

namespace Preference

variable {α : Type}

def pick (stages : List (α → Bool)) (items : List α) : Option α :=
  stages.findSome? fun stage => items.find? stage

def grade (stages : List (α → Bool)) (item : α) : Nat :=
  stages.findIdx fun stage => stage item

theorem grade_cons_of_pos {stage : α → Bool} {item : α} (passes : stage item = true)
    (stages : List (α → Bool)) : grade (stage :: stages) item = 0 := by
  unfold grade
  rw [List.findIdx_cons, passes]
  rfl

theorem grade_cons_of_neg {stage : α → Bool} {item : α} (fails : stage item = false)
    (stages : List (α → Bool)) : grade (stage :: stages) item = grade stages item + 1 := by
  unfold grade
  rw [List.findIdx_cons, fails]
  rfl

theorem grade_eq_length {stages : List (α → Bool)} {item : α} :
    grade stages item = stages.length ↔ ∀ stage ∈ stages, stage item = false := by
  unfold grade
  rw [List.findIdx_eq_length]

theorem pick_eq_none {stages : List (α → Bool)} {items : List α} :
    pick stages items = none ↔ ∀ item ∈ items, grade stages item = stages.length := by
  unfold pick
  simp only [List.findSome?_eq_none_iff, List.find?_eq_none, grade_eq_length,
    Bool.not_eq_true]
  exact ⟨fun none item member stage listed => none stage listed item member,
    fun none stage listed item member => none item member stage listed⟩

/-- The choice passes a stage, nothing in front of it is as good and nothing behind it better. -/
theorem pick_best {stages : List (α → Bool)} {items : List α} {best : α}
    (picked : pick stages items = some best) :
    ∃ before after, items = before ++ best :: after ∧ grade stages best < stages.length ∧
      (∀ item ∈ before, grade stages best < grade stages item) ∧
      ∀ item ∈ after, grade stages best ≤ grade stages item := by
  induction stages with
  | nil => cases picked
  | cons stage stages ih =>
      unfold pick at picked
      rw [List.findSome?_cons] at picked
      cases found : items.find? stage with
      | some first =>
          rw [found] at picked
          cases picked
          obtain ⟨passes, before, after, rfl, earlier⟩ := List.find?_eq_some_iff_append.mp found
          rw [grade_cons_of_pos passes]
          refine ⟨before, after, rfl, Nat.zero_lt_succ _, ?_, fun _ _ => Nat.zero_le _⟩
          intro item member
          rw [grade_cons_of_neg (Bool.not_eq_true' _ ▸ earlier item member)]
          exact Nat.zero_lt_succ _
      | none =>
          rw [found] at picked
          have fails : ∀ item ∈ items, grade (stage :: stages) item = grade stages item + 1 := by
            intro item member
            exact grade_cons_of_neg
              (Bool.not_eq_true _ ▸ List.find?_eq_none.mp found item member) stages
          obtain ⟨before, after, rfl, passes, earlier, later⟩ := ih picked
          rw [fails best (List.mem_append_right _ List.mem_cons_self)]
          refine ⟨before, after, rfl, Nat.succ_lt_succ passes, ?_, ?_⟩
          · intro item member
            rw [fails item (List.mem_append_left _ member)]
            exact Nat.succ_lt_succ (earlier item member)
          · intro item member
            rw [fails item (List.mem_append_right _ (List.mem_cons_of_mem _ member))]
            exact Nat.succ_le_succ (later item member)

end Preference
