import Y4p.Core.Constants

/-!
An `i64` and its decimal text: `to_string`, and `str::parse` with its checked arithmetic.
-/

namespace Y4p

structure I64 where
  value : Int
  bounds : -2 ^ 63 ≤ value ∧ value < 2 ^ 63
  deriving DecidableEq

namespace I64

def checked (value : Int) : Option I64 :=
  if bounds : -2 ^ 63 ≤ value ∧ value < 2 ^ 63 then some ⟨value, bounds⟩ else none

def zero : I64 where
  value := 0
  bounds := by decide

def text (n : I64) : Str :=
  if n.value < 0 then '-' :: Nat.toDigits 10 n.value.natAbs else Nat.toDigits 10 n.value.natAbs

end I64

def toDigit (c : Char) : Option Nat :=
  if c.isDigit then some (c.toNat - '0'.toNat) else none

def parseI64Digits (positive : Bool) : Str → I64 → Option I64
  | [], result => some result
  | c :: rest, result => do
      let digit ← toDigit c
      let scaled ← I64.checked (result.value * 10)
      let next ← I64.checked (if positive then scaled.value + digit else scaled.value - digit)
      parseI64Digits positive rest next

-- All errors are one here.
def parseI64 : Str → Option I64
  | [] | ['+'] | ['-'] => none
  | '+' :: digits => parseI64Digits true digits .zero
  | '-' :: digits => parseI64Digits false digits .zero
  | digits => parseI64Digits true digits .zero

def signed (positive : Bool) (magnitude : Nat) : Int :=
  if positive then magnitude else -magnitude

theorem checked_of_bounds {value : Int} (bounds : -2 ^ 63 ≤ value ∧ value < 2 ^ 63) :
    I64.checked value = some ⟨value, bounds⟩ :=
  dif_pos bounds

theorem parseI64Digits_append (positive : Bool) (first second : Str) (result : I64) :
    parseI64Digits positive (first ++ second) result =
      (parseI64Digits positive first result).bind (parseI64Digits positive second) := by
  induction first generalizing result with
  | nil => rfl
  | cons c rest ih =>
      simp only [List.cons_append, parseI64Digits, Option.bind_eq_bind, Option.bind_assoc]
      simp only [ih]

theorem toDigit_digitChar {digit : Nat} (small : digit < 10) :
    toDigit digit.digitChar = some digit := by
  have table : ∀ digit < 10, toDigit digit.digitChar = some digit := by decide
  exact table digit small

theorem parseI64Digits_digit {positive : Bool} {magnitude digit : Nat} (small : digit < 10)
    {result : I64} (sofar : result.value = signed positive magnitude)
    (bounds : -2 ^ 63 ≤ signed positive (magnitude * 10 + digit) ∧
      signed positive (magnitude * 10 + digit) < 2 ^ 63) :
    parseI64Digits positive [digit.digitChar] result =
      some ⟨signed positive (magnitude * 10 + digit), bounds⟩ := by
  unfold signed at sofar
  have scaled : -2 ^ 63 ≤ result.value * 10 ∧ result.value * 10 < 2 ^ 63 := by
    unfold signed at bounds
    cases positive
    · simp only [Bool.false_eq_true, if_false] at sofar bounds
      omega
    · simp only [if_true] at sofar bounds
      omega
  have next : (if positive then result.value * 10 + digit else result.value * 10 - digit) =
      signed positive (magnitude * 10 + digit) := by
    unfold signed
    cases positive
    · simp only [Bool.false_eq_true, if_false] at sofar ⊢
      omega
    · simp only [if_true] at sofar ⊢
      omega
  simp only [parseI64Digits, toDigit_digitChar small, Option.bind_eq_bind, Option.bind_some,
    checked_of_bounds scaled, next, checked_of_bounds bounds]

/-- No step overflows on the way to a number that does not. -/
theorem parseI64Digits_toDigits {positive : Bool} (magnitude : Nat)
    (bounds : -2 ^ 63 ≤ signed positive magnitude ∧ signed positive magnitude < 2 ^ 63) :
    parseI64Digits positive (Nat.toDigits 10 magnitude) .zero =
      some ⟨signed positive magnitude, bounds⟩ := by
  induction magnitude using Nat.strongRecOn with
  | ind magnitude ih =>
      by_cases short : magnitude < 10
      · rw [Nat.toDigits_of_lt_base short]
        have read := @parseI64Digits_digit positive 0 magnitude short .zero
          (by cases positive <;> rfl)
          (by simpa only [Nat.zero_mul, Nat.zero_add] using bounds)
        simpa only [Nat.zero_mul, Nat.zero_add] using read
      · have whole : magnitude / 10 * 10 + magnitude % 10 = magnitude :=
          Nat.div_add_mod' magnitude 10
        have smaller : -2 ^ 63 ≤ signed positive (magnitude / 10) ∧
            signed positive (magnitude / 10) < 2 ^ 63 := by
          unfold signed at bounds ⊢
          cases positive
          · simp only [Bool.false_eq_true, if_false] at bounds ⊢
            omega
          · simp only [if_true] at bounds ⊢
            omega
        rw [Nat.toDigits_of_base_le (by decide) (Nat.not_lt.mp short), parseI64Digits_append,
          ih (magnitude / 10) (by omega) smaller, Option.bind_some]
        have read := @parseI64Digits_digit positive (magnitude / 10) (magnitude % 10)
          (Nat.mod_lt _ (by decide)) ⟨_, smaller⟩ rfl (by rw [whole]; exact bounds)
        simpa only [whole] using read

/-- What a number's digits begin with is another number's digits. -/
theorem toDigits_take {count : Nat} (some : 0 < count) (magnitude : Nat) :
    ∃ other ≤ magnitude, (Nat.toDigits 10 magnitude).take count = Nat.toDigits 10 other := by
  induction magnitude using Nat.strongRecOn with
  | ind magnitude ih =>
      by_cases whole : (Nat.toDigits 10 magnitude).length ≤ count
      · exact ⟨magnitude, Nat.le_refl _, List.take_of_length_le whole⟩
      · by_cases short : magnitude < 10
        · rw [Nat.toDigits_of_lt_base short] at whole
          exact absurd some whole
        · have split := Nat.toDigits_of_base_le (show 1 < 10 by decide) (Nat.not_lt.mp short)
          obtain ⟨other, less, same⟩ := ih (magnitude / 10) (by omega)
          refine ⟨other, by omega, ?_⟩
          rw [split, List.length_append, List.length_singleton] at whole
          rw [split, List.take_append_of_le_length (by omega), same]

theorem parseI64_eq {digits : Str} (some : digits ≠ [])
    (all : ∀ c ∈ digits, c.isDigit = true) :
    parseI64 digits = parseI64Digits true digits .zero := by
  cases digits with
  | nil => exact absurd rfl some
  | cons c rest =>
      have digit := all c List.mem_cons_self
      unfold parseI64
      split
      · rename_i same
        cases same
      · rename_i same
        cases same
        cases digit
      · rename_i same
        cases same
        cases digit
      · rename_i same
        cases same
        cases digit
      · rename_i same
        cases same
        cases digit
      · rfl

theorem toDigits_all (magnitude : Nat) : ∀ c ∈ Nat.toDigits 10 magnitude, c.isDigit = true :=
  fun _ member => Nat.isDigit_of_mem_toDigits (by decide) (by decide) member

theorem parseI64_toDigits (magnitude : Nat) (bound : magnitude < 2 ^ 63) :
    parseI64 (Nat.toDigits 10 magnitude) = I64.checked magnitude := by
  have bounds : -2 ^ 63 ≤ signed true magnitude ∧ signed true magnitude < 2 ^ 63 := by
    unfold signed
    rw [if_pos rfl]
    omega
  rw [parseI64_eq Nat.toDigits_ne_nil (toDigits_all magnitude),
    parseI64Digits_toDigits magnitude bounds]
  exact (checked_of_bounds bounds).symm

theorem checked_value {value : Int} {result : I64} (fits : I64.checked value = some result) :
    result.value = value := by
  unfold I64.checked at fits
  split at fits
  · cases fits
    rfl
  · cases fits

theorem parseI64Digits_step {digit : Nat} (small : digit < 10) {before after : I64}
    (parsed : parseI64Digits true [digit.digitChar] before = some after) :
    after.value = before.value * 10 + digit := by
  simp only [parseI64Digits, toDigit_digitChar small, Option.bind_eq_bind, Option.bind_some,
    if_true] at parsed
  obtain ⟨scaled, times, rest⟩ := Option.bind_eq_some_iff.mp parsed
  obtain ⟨next, plus, same⟩ := Option.bind_eq_some_iff.mp rest
  cases same
  rw [checked_value plus, checked_value times]

theorem parseI64Digits_exact (magnitude : Nat) {result : I64}
    (parsed : parseI64Digits true (Nat.toDigits 10 magnitude) .zero = some result) :
    result.value = magnitude := by
  induction magnitude using Nat.strongRecOn generalizing result with
  | ind magnitude ih =>
      by_cases short : magnitude < 10
      · rw [Nat.toDigits_of_lt_base short] at parsed
        have read := parseI64Digits_step short parsed
        have start : I64.zero.value = 0 := rfl
        omega
      · rw [Nat.toDigits_of_base_le (by decide) (Nat.not_lt.mp short),
          parseI64Digits_append] at parsed
        obtain ⟨leading, first, last⟩ := Option.bind_eq_some_iff.mp parsed
        have read := parseI64Digits_step (Nat.mod_lt _ (by decide)) last
        have value := ih (magnitude / 10) (by omega) first
        omega

/-- What does not fit is refused. -/
theorem parseI64_overflow {magnitude : Nat} (large : 2 ^ 63 ≤ magnitude) :
    parseI64 (Nat.toDigits 10 magnitude) = none := by
  rw [parseI64_eq Nat.toDigits_ne_nil (toDigits_all magnitude)]
  cases parsed : parseI64Digits true (Nat.toDigits 10 magnitude) .zero with
  | none => rfl
  | some result =>
      have exact := parseI64Digits_exact magnitude parsed
      have bounds := result.bounds
      omega

theorem parseI64_minus (magnitude : Nat) (bound : magnitude ≤ 2 ^ 63) :
    parseI64 ('-' :: Nat.toDigits 10 magnitude) = I64.checked (-magnitude) := by
  have bounds : -2 ^ 63 ≤ signed false magnitude ∧ signed false magnitude < 2 ^ 63 := by
    unfold signed
    rw [if_neg Bool.false_ne_true]
    omega
  have negative : parseI64 ('-' :: Nat.toDigits 10 magnitude) =
      parseI64Digits false (Nat.toDigits 10 magnitude) .zero := by
    cases digits : Nat.toDigits 10 magnitude with
    | nil => exact absurd digits Nat.toDigits_ne_nil
    | cons c rest => rfl
  rw [negative, parseI64Digits_toDigits magnitude bounds]
  exact (checked_of_bounds bounds).symm

/-- Parsing undoes `to_string`. -/
theorem parseI64_text (n : I64) : parseI64 n.text = some n := by
  obtain ⟨value, bounds⟩ := n
  unfold I64.text
  dsimp only
  by_cases negative : value < 0
  · have magnitude : -(value.natAbs : Int) = value := by omega
    rw [if_pos negative, parseI64_minus _ (by omega), magnitude, checked_of_bounds bounds]
  · have magnitude : (value.natAbs : Int) = value := by omega
    rw [if_neg negative, parseI64_toDigits _ (by omega), magnitude, checked_of_bounds bounds]

end Y4p
