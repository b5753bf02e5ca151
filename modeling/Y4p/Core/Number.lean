import Y4p.Core.Config

/-! What `str::parse::<usize>` takes for a number. -/

namespace Y4p

def usizeMax : Nat := 2 ^ 64 - 1

-- `str::parse::<usize>`: an optional `+`, then digits in range. All errors are one here.
def parseIndex (text : Str) : Option Nat :=
  let digits := if startsWith text ['+'] then text.drop 1 else text
  (parseDigits digits).filter fun n => n ≤ usizeMax

structure IsNumber (text : Str) (n : Nat) : Prop where
  some : text ≠ []
  digits : ∀ c ∈ text, c.isDigit = true
  value : Nat.ofDigitChars 10 text 0 = n
  fits : n ≤ usizeMax

def IsIndex (text : Str) (n : Nat) : Prop :=
  IsNumber text n ∨ ∃ digits, text = '+' :: digits ∧ IsNumber digits n

theorem parseDigits_iff {text : Str} {n : Nat} :
    parseDigits text = some n ↔
      (text ≠ [] ∧ ∀ c ∈ text, c.isDigit = true) ∧ Nat.ofDigitChars 10 text 0 = n := by
  have value : text.foldl (fun value c => value * 10 + (c.toNat - '0'.toNat)) 0 =
      Nat.ofDigitChars 10 text 0 := by
    rw [Nat.ofDigitChars_eq_foldl]
    simp only [Nat.mul_comm]
  rw [parseDigits, value]
  simp only [List.all_eq_true]
  split
  · rename_i digits
    rw [Option.some_inj, and_iff_right digits]
  · rename_i other
    exact iff_of_false (Option.some_ne_none n).symm fun both => other both.1

theorem parseDigits_filter {text : Str} {n : Nat} :
    (parseDigits text).filter (fun n => n ≤ usizeMax) = some n ↔ IsNumber text n := by
  rw [Option.filter_eq_some_iff, parseDigits_iff, decide_eq_true_eq]
  constructor
  · rintro ⟨⟨⟨some, digits⟩, value⟩, fits⟩
    exact ⟨some, digits, value, fits⟩
  · rintro ⟨some, digits, value, fits⟩
    exact ⟨⟨⟨some, digits⟩, value⟩, fits⟩

theorem IsNumber.head {c : Char} {rest : Str} {n : Nat} (number : IsNumber (c :: rest) n) :
    c.isDigit = true :=
  number.digits c List.mem_cons_self

theorem not_isNumber_plus {digits : Str} {n : Nat} : ¬ IsNumber ('+' :: digits) n := by
  intro number
  exact absurd number.head (by decide)

theorem parseIndex_iff {text : Str} {n : Nat} : parseIndex text = some n ↔ IsIndex text n := by
  unfold parseIndex IsIndex startsWith
  dsimp only
  rw [parseDigits_filter]
  cases text with
  | nil =>
      change IsNumber [] n ↔ _
      constructor
      · exact .inl
      · rintro (number | ⟨_, signed, _⟩)
        · exact number
        · cases signed
  | cons c rest =>
      by_cases plus : c = '+'
      · subst plus
        change IsNumber rest n ↔ _
        constructor
        · intro number
          exact .inr ⟨rest, rfl, number⟩
        · rintro (number | ⟨_, same, number⟩)
          · exact absurd number not_isNumber_plus
          · cases same
            exact number
      · have unsigned : ['+'].isPrefixOf (c :: rest) = false := by
          simp [List.isPrefixOf, Ne.symm plus]
        rw [unsigned, if_neg Bool.false_ne_true]
        constructor
        · exact .inl
        · rintro (number | ⟨_, signed, _⟩)
          · exact number
          · cases signed
            exact absurd rfl plus

theorem IsNumber.isIndex {text : Str} {n : Nat} (number : IsNumber text n) : IsIndex text n :=
  .inl number

theorem IsIndex.isNumber {text : Str} {n : Nat} (index : IsIndex text n)
    (unsigned : text.head? ≠ some '+') : IsNumber text n := by
  rcases index with number | ⟨digits, rfl, _⟩
  · exact number
  · exact absurd rfl unsigned

theorem IsIndex.not_blank {text : Str} {n : Nat} (index : IsIndex text n) : text ≠ [] := by
  rcases index with number | ⟨digits, rfl, _⟩
  · exact number.some
  · exact List.cons_ne_nil _ _

theorem IsIndex.plain {text : Str} {n : Nat} (index : IsIndex text n) : '-' ∉ text := by
  have digits : ∀ {number : Str}, IsNumber number n → '-' ∉ number := by
    intro number isNumber member
    exact absurd (isNumber.digits _ member) (by decide)
  rcases index with number | ⟨rest, rfl, number⟩
  · exact digits number
  · exact List.not_mem_cons_of_ne_of_not_mem (by decide) (digits number)

end Y4p
