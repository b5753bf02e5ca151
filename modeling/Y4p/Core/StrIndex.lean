import Mathlib.Data.Nat.Basic
import Y4p.Core.Constants

/-!
The bytes of a `str`: where a slice of them is in range and where it panics, and what numbers are
formatted as.
-/

namespace Y4p

-- `str::as_bytes`.
def strBytes (s : Str) : Bytes :=
  s.flatMap String.utf8EncodeChar

-- `str::split_at_checked`: none outside of the text, or inside a character.
def splitAtByte : Str → Nat → Option (Str × Str)
  | s, 0 => some ([], s)
  | [], _ + 1 => none
  | c :: rest, index + 1 =>
      if c.utf8Size ≤ index + 1 then
        (splitAtByte rest (index + 1 - c.utf8Size)).map fun parts => (c :: parts.1, parts.2)
      else none

-- `&s[start..stop]`: none where it panics.
def strSlice (s : Str) (start stop : Nat) : Option Str :=
  if start ≤ stop then
    (splitAtByte s stop).bind fun upTo => (splitAtByte upTo.1 start).map fun parts => parts.2
  else none

theorem strBytes_append (first second : Str) :
    strBytes (first ++ second) = strBytes first ++ strBytes second :=
  List.flatMap_append

theorem strBytes_cons (c : Char) (rest : Str) :
    strBytes (c :: rest) = String.utf8EncodeChar c ++ strBytes rest :=
  List.flatMap_cons

theorem length_strBytes_cons (c : Char) (rest : Str) :
    (strBytes (c :: rest)).length = c.utf8Size + (strBytes rest).length := by
  rw [strBytes_cons, List.length_append, String.length_utf8EncodeChar]

theorem splitAtByte_append (first second : Str) :
    splitAtByte (first ++ second) (strBytes first).length = some (first, second) := by
  induction first with
  | nil => cases second <;> rfl
  | cons c rest ih =>
      obtain ⟨size, some⟩ := Nat.exists_eq_add_of_lt c.utf8Size_pos
      rw [Nat.zero_add] at some
      have later : size + 1 + (strBytes rest).length - c.utf8Size = (strBytes rest).length := by
        omega
      rw [length_strBytes_cons, some, Nat.add_right_comm, List.cons_append, splitAtByte,
        if_pos (by omega), Nat.add_right_comm, later, ih, Option.map_some]

theorem strSlice_append (first second third : Str) :
    strSlice (first ++ second ++ third) (strBytes first).length
      (strBytes (first ++ second)).length = some second := by
  rw [strSlice, splitAtByte_append, Option.bind_some, splitAtByte_append, Option.map_some]
  rw [if_pos]
  rw [strBytes_append, List.length_append]
  exact Nat.le_add_right _ _

theorem high_ofNat {n : Nat} (high : 128 ≤ n) (small : n < 256) : 0x80 ≤ UInt8.ofNat n := by
  rw [UInt8.le_iff_toNat_le, UInt8.toNat_ofNat_of_lt' small]
  exact high

/-- A character is one byte of its own, or bytes that are no ASCII. -/
theorem utf8EncodeChar_cases (c : Char) :
    (c.toNat < 128 ∧ String.utf8EncodeChar c = [UInt8.ofNat c.toNat]) ∨
      128 ≤ c.toNat ∧ ∀ byte ∈ String.utf8EncodeChar c, 0x80 ≤ byte := by
  unfold String.utf8EncodeChar
  dsimp only
  change (c.toNat < 128 ∧ (if c.toNat ≤ 127 then _ else _) = _) ∨
    128 ≤ c.toNat ∧ ∀ byte ∈ (if c.toNat ≤ 127 then _ else _), 0x80 ≤ byte
  split
  · rename_i ascii
    exact .inl ⟨by omega, rfl⟩
  · rename_i wide
    refine .inr ⟨by omega, ?_⟩
    split
    · simp only [List.forall_mem_cons, List.not_mem_nil, false_implies, implies_true, and_true]
      exact ⟨high_ofNat (by omega) (by omega), high_ofNat (by omega) (by omega)⟩
    · split
      · simp only [List.forall_mem_cons, List.not_mem_nil, false_implies, implies_true, and_true]
        exact ⟨high_ofNat (by omega) (by omega), high_ofNat (by omega) (by omega),
          high_ofNat (by omega) (by omega)⟩
      · simp only [List.forall_mem_cons, List.not_mem_nil, false_implies, implies_true, and_true]
        exact ⟨high_ofNat (by omega) (by omega), high_ofNat (by omega) (by omega),
          high_ofNat (by omega) (by omega), high_ofNat (by omega) (by omega)⟩

/-- An ASCII byte is a byte of its own character only. -/
theorem ofNat_mem_utf8EncodeChar {c : Char} {n : Nat} (ascii : n < 128)
    (member : UInt8.ofNat n ∈ String.utf8EncodeChar c) : c.toNat = n := by
  rcases utf8EncodeChar_cases c with ⟨low, single⟩ | ⟨_, high⟩
  · rw [single, List.mem_singleton] at member
    have same := congrArg UInt8.toNat member
    rw [UInt8.toNat_ofNat_of_lt' (show n < 256 by omega),
      UInt8.toNat_ofNat_of_lt' (show c.toNat < 256 by omega)] at same
    exact same.symm
  · have atLeast := UInt8.le_iff_toNat_le.mp (high _ member)
    rw [UInt8.toNat_ofNat_of_lt' (show n < 256 by omega)] at atLeast
    exact absurd ascii (Nat.not_lt.mpr atLeast)

theorem strBytes_ascii {s : Str} (ascii : ∀ c ∈ s, c.toNat < 128) :
    strBytes s = s.map fun c => UInt8.ofNat c.toNat := by
  induction s with
  | nil => rfl
  | cons c rest ih =>
      obtain ⟨low, others⟩ := List.forall_mem_cons.mp ascii
      rw [strBytes_cons, List.map_cons, ih others]
      rcases utf8EncodeChar_cases c with ⟨_, single⟩ | ⟨wide, _⟩
      · rw [single, List.singleton_append]
      · exact absurd low (Nat.not_lt.mpr wide)

def decimal (n : Nat) : Bytes :=
  strBytes (Nat.toDigits 10 n)

def isAsciiDigit (byte : UInt8) : Bool :=
  0x30 ≤ byte && byte ≤ 0x39

theorem isAsciiDigit_iff {byte : UInt8} :
    isAsciiDigit byte = true ↔ 48 ≤ byte.toNat ∧ byte.toNat ≤ 57 := by
  rw [isAsciiDigit, Bool.and_eq_true, decide_eq_true_eq, decide_eq_true_eq, UInt8.le_iff_toNat_le,
    UInt8.le_iff_toNat_le]
  rfl

theorem toDigits_code {n : Nat} {c : Char} (member : c ∈ Nat.toDigits 10 n) :
    48 ≤ c.toNat ∧ c.toNat ≤ 57 :=
  Char.isDigit_iff_toNat.mp (Nat.isDigit_of_mem_toDigits (by decide) (by decide) member)

theorem decimal_eq (n : Nat) :
    decimal n = (Nat.toDigits 10 n).map fun c => UInt8.ofNat c.toNat := by
  refine strBytes_ascii fun c member => ?_
  have code := toDigits_code member
  omega

theorem toNat_digit {n : Nat} {c : Char} (member : c ∈ Nat.toDigits 10 n) :
    (UInt8.ofNat c.toNat).toNat = c.toNat := by
  have code := toDigits_code member
  exact UInt8.toNat_ofNat_of_lt' (show c.toNat < 256 by omega)

theorem decimal_ne_nil (n : Nat) : decimal n ≠ [] := by
  rw [decimal_eq, Ne, List.map_eq_nil_iff]
  exact Nat.toDigits_ne_nil

theorem decimal_digits {n : Nat} {byte : UInt8} (member : byte ∈ decimal n) :
    isAsciiDigit byte = true := by
  rw [decimal_eq] at member
  obtain ⟨c, among, rfl⟩ := List.mem_map.mp member
  rw [isAsciiDigit_iff, toNat_digit among]
  exact toDigits_code among

end Y4p
