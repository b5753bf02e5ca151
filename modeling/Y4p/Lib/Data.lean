import Mathlib.Algebra.GroupWithZero.Nat
import Mathlib.Data.List.Count
import Mathlib.Data.List.Nodup
import Mathlib.Data.List.Perm.Subperm

/-!
Lists and results as a model uses them: one place of a list replaced, one element looked up by what
it alone has, elements counted by their owners, a result taken apart into its steps.
-/

namespace Lists

variable {α : Type}

theorem split_at {list : List α} {index : Nat} {value : α} (found : list[index]? = some value) :
    ∃ before last, list = before ++ value :: last ∧ before.length = index ∧
      ∀ next, list.set index next = before ++ next :: last := by
  obtain ⟨inside, rfl⟩ := List.getElem?_eq_some_iff.mp found
  refine ⟨list.take index, list.drop (index + 1), ?_, ?_, ?_⟩
  · rw [List.getElem_cons_drop, List.take_append_drop]
  · rw [List.length_take]
    omega
  · intro next
    rw [List.set_eq_take_append_cons_drop, if_pos inside]

theorem getElem?_here (before last : List α) (value : α) :
    (before ++ value :: last)[before.length]? = some value := by
  rw [List.getElem?_append_right (Nat.le_refl _), Nat.sub_self, List.getElem?_cons_zero]

theorem getElem?_swap {before last : List α} (value next : α) (index : Nat) :
    (before ++ next :: last)[index]? =
      if before.length = index then some next else (before ++ value :: last)[index]? := by
  have set : (before ++ value :: last).set before.length next = before ++ next :: last := by
    rw [List.set_append_right _ _ (Nat.le_refl _), Nat.sub_self, List.set_cons_zero]
  rw [← set, List.getElem?_set]
  refine if_congr Iff.rfl (if_pos ?_) rfl
  rw [List.length_append, List.length_cons]
  omega

theorem upTo_inj {mark : α} {first second restFirst restSecond : List α}
    (noFirst : mark ∉ first) (noSecond : mark ∉ second)
    (same : first ++ mark :: restFirst = second ++ mark :: restSecond) :
    first = second ∧ restFirst = restSecond := by
  induction first generalizing second with
  | nil =>
      cases second with
      | nil => exact ⟨rfl, (List.cons.inj same).2⟩
      | cons other second =>
          have head := (List.cons.inj same).1
          exact absurd (head ▸ List.mem_cons_self) noSecond
  | cons item first ih =>
      cases second with
      | nil =>
          have head := (List.cons.inj same).1
          exact absurd (head ▸ List.mem_cons_self) noFirst
      | cons other second =>
          rw [List.mem_cons, not_or] at noFirst noSecond
          obtain ⟨rfl, rest⟩ := List.cons.inj same
          obtain ⟨rfl, rfl⟩ := ih noFirst.2 noSecond.2 rest
          exact ⟨rfl, rfl⟩

/-- What at most one element is looked up by is found in any order of the list. -/
theorem find?_of_perm {first second : List α} {sought : α → Bool}
    (perm : first.Perm second)
    (unique : ∀ a ∈ first, ∀ b ∈ first, sought a = true → sought b = true → a = b) :
    first.find? sought = second.find? sought := by
  cases found : second.find? sought with
  | none =>
      refine List.find?_eq_none.mpr fun item member => ?_
      exact List.find?_eq_none.mp found item (perm.mem_iff.mp member)
  | some item =>
      have member := perm.mem_iff.mpr (List.mem_of_find?_eq_some found)
      cases other : first.find? sought with
      | none => exact absurd (List.find?_some found) (List.find?_eq_none.mp other item member)
      | some early =>
          rw [unique early (List.mem_of_find?_eq_some other) item member (List.find?_some other)
            (List.find?_some found)]

/-- Elements that each belong to one of some distinct owners are counted owner by owner. -/
theorem countP_by_owner {κ : Type} [DecidableEq κ] {owner : α → κ} {owners : List κ}
    {items : List α} (distinct : owners.Nodup)
    (owned : ∀ item ∈ items, owner item ∈ owners) (counted : α → Bool) :
    items.countP counted =
      (owners.map fun name => (items.filter fun item => owner item = name).countP counted).sum := by
  induction owners generalizing items with
  | nil =>
      have none : items = [] := List.eq_nil_iff_forall_not_mem.mpr fun item member => by
        cases owned item member
      rw [none]
      rfl
  | cons name rest ih =>
      obtain ⟨fresh, distinct⟩ := List.nodup_cons.mp distinct
      have others : ∀ item ∈ items.filter (fun item => !decide (owner item = name)),
          owner item ∈ rest := by
        intro item member
        obtain ⟨present, differs⟩ := List.mem_filter.mp member
        exact (List.mem_cons.mp (owned item present)).resolve_left (by simpa using differs)
      have split :=
        (List.filter_append_perm (fun item => decide (owner item = name)) items).countP_eq
        counted
      rw [List.countP_append] at split
      rw [← split, ih distinct others, List.map_cons, List.sum_cons]
      congr 2
      apply List.map_congr_left
      intro other member
      rw [List.filter_filter]
      congr 1
      apply List.filter_congr
      intro item _
      by_cases named : owner item = other
      · have differs : other ≠ name := fun same => fresh (same ▸ member)
        simp [named, differs]
      · simp [named]

theorem sum_lengths_le {pieces others : List (List α)} (within : pieces.Subperm others) :
    (pieces.map List.length).sum ≤ (others.map List.length).sum := by
  obtain ⟨part, same, within⟩ := within
  rw [← (same.map List.length).sum_nat]
  clear same
  induction within with
  | slnil => exact Nat.le_refl _
  | cons piece _ ih =>
      rw [List.map_cons, List.sum_cons]
      exact Nat.le_add_left_of_le ih
  | cons_cons piece _ ih =>
      rw [List.map_cons, List.sum_cons, List.map_cons, List.sum_cons]
      exact Nat.add_le_add_left ih _

end Lists

namespace Results

theorem bind_eq_ok {ε α β : Type} {x : Except ε α} {f : α → Except ε β} {b : β} :
    x >>= f = .ok b ↔ ∃ a, x = .ok a ∧ f a = .ok b := by
  cases x with
  | error e =>
      refine iff_of_false (fun same => by cases same) ?_
      rintro ⟨a, same, _⟩
      cases same
  | ok a =>
      constructor
      · intro same
        exact ⟨a, rfl, same⟩
      · rintro ⟨_, same, value⟩
        cases same
        exact value

end Results
