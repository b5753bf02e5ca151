import Mathlib.Data.List.Infix

/-!
Patterns over items with two wildcards: one stands for any run of items, the
other for any single item. A list matches a pattern when the whole of it does.
-/

namespace Wildcard

inductive Token (α : Type) where
  | many
  | single
  | item (value : α)

variable {α : Type} [DecidableEq α]

def accepts : List (Token α) → List α → Bool
  | [], text => text.isEmpty
  | .many :: rest, text => text.tails.any fun tail => accepts rest tail
  | .single :: rest, text =>
      match text with
      | [] => false
      | _ :: text => accepts rest text
  | .item value :: rest, text =>
      match text with
      | [] => false
      | first :: text => decide (first = value) && accepts rest text

def literal (word : List α) : List (Token α) :=
  word.map .item

omit [DecidableEq α] in
@[simp] theorem literal_nil : literal ([] : List α) = [] := rfl

omit [DecidableEq α] in
@[simp] theorem literal_cons (value : α) (word : List α) :
    literal (value :: word) = .item value :: literal word := rfl

theorem accepts_many {rest : List (Token α)} {text : List α} :
    accepts (.many :: rest) text = true ↔
      ∃ skipped tail, text = skipped ++ tail ∧ accepts rest tail = true := by
  simp only [accepts, List.any_eq_true, List.mem_tails]
  constructor
  · rintro ⟨tail, ⟨skipped, rfl⟩, found⟩
    exact ⟨skipped, tail, rfl, found⟩
  · rintro ⟨skipped, tail, rfl, found⟩
    exact ⟨tail, List.suffix_append _ _, found⟩

theorem accepts_literal_append {word : List α} {rest : List (Token α)} {text : List α} :
    accepts (literal word ++ rest) text = true ↔
      ∃ tail, text = word ++ tail ∧ accepts rest tail = true := by
  induction word generalizing text with
  | nil => simp
  | cons value word ih =>
      cases text with
      | nil => simp [accepts]
      | cons first text =>
          simp only [literal_cons, List.cons_append, accepts, Bool.and_eq_true, decide_eq_true_eq,
            ih, List.cons.injEq]
          constructor
          · rintro ⟨rfl, tail, rfl, found⟩
            exact ⟨tail, ⟨rfl, rfl⟩, found⟩
          · rintro ⟨tail, ⟨rfl, rfl⟩, found⟩
            exact ⟨rfl, tail, rfl, found⟩

theorem accepts_only_many (text : List α) : accepts [.many] text = true :=
  accepts_many.mpr ⟨text, [], by simp, rfl⟩

/-- A literal word between two runs of anything: the word occurs. -/
theorem accepts_around_literal {word text : List α} :
    accepts (.many :: (literal word ++ [.many])) text = true ↔ word <:+: text := by
  rw [accepts_many]
  constructor
  · rintro ⟨before, tail, rfl, found⟩
    obtain ⟨after, rfl, _⟩ := accepts_literal_append.mp found
    exact ⟨before, after, by simp⟩
  · rintro ⟨before, after, rfl⟩
    refine ⟨before, word ++ after, by simp, ?_⟩
    exact accepts_literal_append.mpr ⟨after, rfl, accepts_only_many after⟩

theorem accepts_append {first second : List (Token α)} {front back : List α}
    (fits : accepts first front = true) (fitsToo : accepts second back = true) :
    accepts (first ++ second) (front ++ back) = true := by
  induction first generalizing front with
  | nil =>
      have empty : front = [] := by simpa [accepts] using fits
      simpa [empty] using fitsToo
  | cons token first ih =>
      cases token with
      | many =>
          obtain ⟨skipped, tail, rfl, found⟩ := accepts_many.mp fits
          exact accepts_many.mpr ⟨skipped, tail ++ back, by simp, ih found⟩
      | single =>
          cases front with
          | nil => simp [accepts] at fits
          | cons item front => exact ih fits
      | item value =>
          cases front with
          | nil => simp [accepts] at fits
          | cons item front =>
              simp only [accepts, Bool.and_eq_true] at fits
              simp only [List.cons_append, accepts, Bool.and_eq_true]
              exact ⟨fits.1, ih fits.2⟩

/-- Between two runs of anything, a pattern matches wherever a part of the text does. -/
theorem accepts_around {pattern : List (Token α)} {word : List α}
    (fits : accepts pattern word = true) {text : List α} (occurs : word <:+: text) :
    accepts (.many :: (pattern ++ [.many])) text = true := by
  obtain ⟨before, after, rfl⟩ := occurs
  refine accepts_many.mpr ⟨before, word ++ after, by simp, ?_⟩
  exact accepts_append fits (accepts_only_many after)

end Wildcard
