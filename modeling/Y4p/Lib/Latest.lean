import Mathlib.Data.List.Induction

/-!
The last entry of a list that sets a value, where what an entry sets may depend on the entries
before it.
-/

namespace Lists

variable {α β σ : Type*} {Sets : List α → α → β → Prop} {initial : β}

def Latest (Sets : List α → α → β → Prop) (initial : β) (entries : List α) (value : β) : Prop :=
  (∃ before entry after, entries = before ++ entry :: after ∧ Sets before entry value ∧
    ∀ middle later rest, after = middle ++ later :: rest →
      ∀ other, ¬ Sets (before ++ entry :: middle) later other) ∨
  value = initial ∧ ∀ before entry after, entries = before ++ entry :: after →
    ∀ other, ¬ Sets before entry other

theorem latest_nil_iff {value : β} : Latest Sets initial [] value ↔ value = initial := by
  have noEntry : ∀ {before : List α} {entry : α} {after : List α},
      [] ≠ before ++ entry :: after := by
    intro before entry after empty
    exact List.append_ne_nil_of_right_ne_nil before (List.cons_ne_nil _ _) empty.symm
  constructor
  · rintro (⟨before, entry, after, split, _⟩ | ⟨same, _⟩)
    · exact absurd split noEntry
    · exact same
  · intro same
    exact .inr ⟨same, fun before entry after split => absurd split noEntry⟩

theorem snoc_split {entries before after : List α} {last entry : α}
    (split : entries ++ [last] = before ++ entry :: after) :
    (after = [] ∧ entry = last ∧ before = entries) ∨
      ∃ rest, after = rest ++ [last] ∧ entries = before ++ entry :: rest := by
  rcases List.eq_nil_or_concat after with rfl | ⟨rest, final, rfl⟩
  · obtain ⟨same, one⟩ := List.append_inj' split rfl
    exact .inl ⟨rfl, (List.head_eq_of_cons_eq one).symm, same.symm⟩
  · rw [List.concat_eq_append, ← List.cons_append, ← List.append_assoc] at split
    obtain ⟨same, one⟩ := List.append_inj' split rfl
    rw [List.concat_eq_append, List.head_eq_of_cons_eq one]
    exact .inr ⟨rest, rfl, same⟩

theorem latest_snoc_iff {entries : List α} {last : α} {value : β} :
    Latest Sets initial (entries ++ [last]) value ↔
      Sets entries last value ∨
        (∀ other, ¬ Sets entries last other) ∧ Latest Sets initial entries value := by
  constructor
  · rintro (⟨before, entry, after, split, sets, none⟩ | ⟨same, none⟩)
    · rcases snoc_split split with ⟨rfl, rfl, rfl⟩ | ⟨rest, rfl, rfl⟩
      · exact .inl sets
      · refine .inr ⟨none rest last [] rfl, .inl ⟨before, entry, rest, rfl, sets, ?_⟩⟩
        rintro middle later rest rfl
        exact none middle later (rest ++ [last]) (List.append_assoc middle (later :: rest) [last])
    · refine .inr ⟨none entries last [] rfl, .inr ⟨same, ?_⟩⟩
      rintro before entry after rfl
      exact none before entry (after ++ [last]) (List.append_assoc before (entry :: after) [last])
  · rintro (sets | ⟨quiet, ⟨before, entry, after, rfl, sets, none⟩ | ⟨same, none⟩⟩)
    · refine .inl ⟨entries, last, [], rfl, sets, ?_⟩
      intro middle later rest split
      exact absurd split.symm (List.append_ne_nil_of_right_ne_nil middle (List.cons_ne_nil _ _))
    · refine .inl ⟨before, entry, after ++ [last], List.append_assoc before (entry :: after) [last],
        sets, ?_⟩
      intro middle later rest split
      rcases snoc_split split with ⟨_, rfl, rfl⟩ | ⟨rest, _, rfl⟩
      · exact quiet
      · exact none middle later rest rfl
    · refine .inr ⟨same, ?_⟩
      intro before entry after split
      rcases snoc_split split with ⟨_, rfl, rfl⟩ | ⟨rest, _, rfl⟩
      · exact quiet
      · exact none before entry rest rfl

/-- Where an entry sets one value at most, the latest value is determined. -/
theorem latest_unique
    (functional : ∀ before entry first second, Sets before entry first → Sets before entry second →
      first = second) {entries : List α} {first second : β}
    (left : Latest Sets initial entries first) (right : Latest Sets initial entries second) :
    first = second := by
  induction entries using List.reverseRecOn with
  | nil => rw [latest_nil_iff.mp left, latest_nil_iff.mp right]
  | append_singleton entries last ih =>
      rcases latest_snoc_iff.mp left with sets | ⟨quiet, left⟩
      · rcases latest_snoc_iff.mp right with also | ⟨quiet, _⟩
        · exact functional entries last first second sets also
        · exact absurd sets (quiet first)
      · rcases latest_snoc_iff.mp right with sets | ⟨_, right⟩
        · exact absurd sets (quiet second)
        · exact ih left right

/-- A scanner that takes each set value, and otherwise keeps what it has, ends with the latest. -/
theorem latest_foldl (step : σ → α → σ) (read : σ → β) (start : σ)
    (takes : ∀ entries entry value, Sets entries entry value →
      read (step (entries.foldl step start) entry) = value)
    (keeps : ∀ entries entry, (∀ value, ¬ Sets entries entry value) →
      read (step (entries.foldl step start) entry) = read (entries.foldl step start))
    (entries : List α) : Latest Sets (read start) entries (read (entries.foldl step start)) := by
  induction entries using List.reverseRecOn with
  | nil => exact latest_nil_iff.mpr rfl
  | append_singleton entries last ih =>
      rw [List.foldl_append, List.foldl_cons, List.foldl_nil, latest_snoc_iff]
      by_cases set : ∃ value, Sets entries last value
      · obtain ⟨value, sets⟩ := set
        rw [takes entries last value sets]
        exact .inl sets
      · have quiet : ∀ value, ¬ Sets entries last value := fun value sets => set ⟨value, sets⟩
        rw [keeps entries last quiet]
        exact .inr ⟨quiet, ih⟩

end Lists
