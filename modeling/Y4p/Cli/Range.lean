import Y4p.Core.Mimes
import Y4p.Core.Number
import Y4p.Lib.Data

/-!
A range on the command line (`parse_range` of `crates/cli/src/utils.rs`): what it should spell,
and what is read all the same.
-/

namespace Y4p

inductive RangeSelection where
  | single (index : Nat)
  | range (start stop : Nat)
  | latest (count : Nat)
  deriving DecidableEq

-- One side of a `-`; a blank one is none.
def parseBound (text : Str) : Except Str (Option Nat) :=
  if text = [] then .ok none
  else
    match parseIndex text with
    | some n => .ok (some n)
    | none => .error ("invalid index: ".toList ++ text)

def parseRange (arg : Option Str) (defaultLimit : Nat) : Except Str RangeSelection :=
  match arg with
  | none => .ok (.latest defaultLimit)
  | some arg =>
      let s := trim arg
      if '-' ∈ s then do
        let parts := s.splitOn '-'
        let n1 ← parseBound (trim (parts[0]?.getD []))
        let n2 ← parseBound (trim (parts[1]?.getD []))
        match n1, n2 with
        | some start, some stop => .ok (.range (min start stop) (max start stop))
        | some start, none => .ok (.range start (min (start + defaultLimit) usizeMax))
        | none, some stop => .ok (.range 0 stop)
        | none, none => .error ("invalid range: ".toList ++ s)
      else
        match parseIndex s with
        | some n => .ok (.single n)
        | none => .error ("invalid ID: ".toList ++ s)

theorem parseBound_iff {text : Str} {n : Nat} :
    parseBound text = .ok (some n) ↔ IsIndex text n := by
  unfold parseBound
  by_cases blank : text = []
  · rw [if_pos blank]
    exact iff_of_false (fun same => by cases same) fun index => index.not_blank blank
  · rw [if_neg blank, ← parseIndex_iff]
    cases parseIndex text with
    | none => exact iff_of_false (fun same => by cases same) (Option.some_ne_none n).symm
    | some m => simp only [Except.ok.injEq]

theorem parseBound_none {text : Str} : parseBound text = .ok none ↔ text = [] := by
  unfold parseBound
  by_cases blank : text = []
  · rw [if_pos blank]
    exact iff_of_true rfl blank
  · rw [if_neg blank]
    refine iff_of_false ?_ blank
    cases parseIndex text <;> exact fun same => by cases same

structure Parted (s first second rest : Str) : Prop where
  text : s = first ++ '-' :: (second ++ rest)
  first : '-' ∉ first
  second : '-' ∉ second
  ends : rest = [] ∨ rest.head? = some '-'

theorem Parted.exists {s : Str} (dash : '-' ∈ s) :
    ∃ first second rest, Parted s first second rest := by
  obtain ⟨first, after, rfl, plain⟩ := List.eq_append_cons_of_mem dash
  by_cases another : '-' ∈ after
  · obtain ⟨second, more, rfl, inside⟩ := List.eq_append_cons_of_mem another
    exact ⟨first, second, '-' :: more, rfl, plain, inside, .inr rfl⟩
  · exact ⟨first, after, [], by rw [List.append_nil], plain, another, .inl rfl⟩

theorem Parted.splitOn {s first second rest : Str} (parted : Parted s first second rest) :
    ∃ others, s.splitOn '-' = first :: second :: others := by
  rw [parted.text, List.splitOn_append_cons_self_of_not_mem parted.first]
  rcases parted.ends with rfl | more
  · exact ⟨[], by rw [List.append_nil, List.splitOn_eq_singleton parted.second]⟩
  · obtain ⟨others, rfl⟩ := List.head?_eq_some_iff.mp more
    exact ⟨_, by rw [List.splitOn_append_cons_self_of_not_mem parted.second]⟩

theorem Parted.unique {s first second rest first' second' rest' : Str}
    (parted : Parted s first second rest) (other : Parted s first' second' rest') :
    first = first' ∧ second = second' ∧ rest = rest' := by
  obtain ⟨others, split⟩ := parted.splitOn
  obtain ⟨others', split'⟩ := other.splitOn
  obtain ⟨rfl, same⟩ := List.cons.inj (split.symm.trans split')
  obtain ⟨rfl, _⟩ := List.cons.inj same
  have text := parted.text.symm.trans other.text
  exact ⟨rfl, rfl, List.append_cancel_left (List.cons.inj (List.append_cancel_left text)).2⟩

theorem trim_at_dash (before after : Str) :
    trim (before ++ '-' :: after) =
      trimStart before ++ '-' :: after.rdropWhile isWhitespace := by
  have visible : isWhitespace '-' = false := by decide
  have start : (before ++ '-' :: after).dropWhile isWhitespace =
      trimStart before ++ '-' :: after := by
    rw [trimStart, List.dropWhile_append]
    split
    · rename_i blank
      rw [List.isEmpty_iff.mp blank, List.nil_append]
      exact List.dropWhile_cons_of_neg (by rw [visible]; exact Bool.false_ne_true)
    · rfl
  rw [trim_eq, start, rdropWhile_append_cons visible]

theorem mem_trim_dash {s : Str} : '-' ∈ trim s ↔ '-' ∈ s := by
  constructor
  · exact fun member => (trim_part s).subset member
  · intro member
    obtain ⟨before, after, rfl⟩ := List.append_of_mem member
    rw [trim_at_dash]
    exact List.mem_append_right _ List.mem_cons_self

theorem trim_trimStart (s : Str) : trim (trimStart s) = trim s := by
  unfold trim trimStart
  rw [List.dropWhile_idempotent]

theorem trim_rdropWhile (s : Str) : trim (s.rdropWhile isWhitespace) = trim s := by
  have blank : ∀ c ∈ s.rtakeWhile isWhitespace, isWhitespace c = true :=
    fun _ => List.mem_rtakeWhile_imp
  have around := @trim_around [] _ (s.rdropWhile isWhitespace)
    (fun _ member => absurd member List.not_mem_nil) blank
  rw [List.nil_append, List.rdropWhile_append_rtakeWhile] at around
  exact around.symm

/-- Trimmed as a whole, a string has the same parts, up to the blanks around them. -/
theorem Parted.trimmed {s first second rest : Str} (parted : Parted s first second rest) :
    ∃ first' second' rest', Parted (trim s) first' second' rest' ∧
      trim first' = trim first ∧ trim second' = trim second := by
  have plain : '-' ∉ trimStart first :=
    fun member => parted.first ((List.dropWhile_suffix _).subset member)
  have text : trim s = trimStart first ++ '-' :: (second ++ rest).rdropWhile isWhitespace := by
    rw [parted.text, trim_at_dash]
  rcases parted.ends with rfl | more
  · refine ⟨trimStart first, second.rdropWhile isWhitespace, [], ⟨?_, plain, ?_, .inl rfl⟩,
      trim_trimStart first, trim_rdropWhile second⟩
    · rw [text, List.append_nil, List.append_nil]
    · exact fun member => parted.second ((List.rdropWhile_prefix _ _).subset member)
  · obtain ⟨others, rfl⟩ := List.head?_eq_some_iff.mp more
    refine ⟨trimStart first, second, '-' :: others.rdropWhile isWhitespace,
      ⟨?_, plain, parted.second, .inr rfl⟩, trim_trimStart first, rfl⟩
    rw [text, rdropWhile_append_cons (by decide)]

theorem parseRange_parted {s first second rest : Str} (parted : Parted s first second rest)
    (defaultLimit : Nat) (selection : RangeSelection) :
    parseRange (some s) defaultLimit = .ok selection ↔
      (∃ start stop, IsIndex (trim first) start ∧ IsIndex (trim second) stop ∧
        selection = .range (min start stop) (max start stop)) ∨
      (∃ start, IsIndex (trim first) start ∧ trim second = [] ∧
        selection = .range start (min (start + defaultLimit) usizeMax)) ∨
      (∃ stop, trim first = [] ∧ IsIndex (trim second) stop ∧ selection = .range 0 stop) := by
  have dash : '-' ∈ trim s := by
    rw [mem_trim_dash, parted.text]
    exact List.mem_append_right _ List.mem_cons_self
  obtain ⟨first', second', rest', trimmed, sameFirst, sameSecond⟩ := parted.trimmed
  obtain ⟨others, split⟩ := trimmed.splitOn
  simp only [parseRange, if_pos dash, split, List.getElem?_cons_zero, List.getElem?_cons_succ,
    Option.getD_some, sameFirst, sameSecond]
  constructor
  · intro read
    obtain ⟨n1, left, read⟩ := Results.bind_eq_ok.mp read
    obtain ⟨n2, right, read⟩ := Results.bind_eq_ok.mp read
    cases n1 with
    | none =>
        cases n2 with
        | none => cases read
        | some stop =>
            cases read
            exact .inr (.inr ⟨stop, parseBound_none.mp left, parseBound_iff.mp right, rfl⟩)
    | some start =>
        cases n2 with
        | none =>
            cases read
            exact .inr (.inl ⟨start, parseBound_iff.mp left, parseBound_none.mp right, rfl⟩)
        | some stop =>
            cases read
            exact .inl ⟨start, stop, parseBound_iff.mp left, parseBound_iff.mp right, rfl⟩
  · rintro (⟨start, stop, left, right, rfl⟩ | ⟨start, left, blank, rfl⟩ | ⟨stop, blank, right, rfl⟩)
    · rw [parseBound_iff.mpr left, parseBound_iff.mpr right]
      rfl
    · rw [parseBound_iff.mpr left, parseBound_none.mpr blank]
      rfl
    · rw [parseBound_none.mpr blank, parseBound_iff.mpr right]
      rfl

theorem parseRange_plain {s : Str} (plain : '-' ∉ s) (defaultLimit : Nat)
    (selection : RangeSelection) :
    parseRange (some s) defaultLimit = .ok selection ↔
      ∃ n, IsIndex (trim s) n ∧ selection = .single n := by
  simp only [parseRange, if_neg (mt mem_trim_dash.mp plain), ← parseIndex_iff]
  cases parseIndex (trim s) with
  | none =>
      constructor
      · intro read
        cases read
      · rintro ⟨n, read, _⟩
        cases read
  | some m =>
      constructor
      · intro read
        cases read
        exact ⟨m, rfl, rfl⟩
      · rintro ⟨n, read, rfl⟩
        cases read
        rfl

inductive Spells (defaultLimit : Nat) (s : Str) : RangeSelection → Prop
  | single {n} (number : IsNumber (trim s) n) : Spells defaultLimit s (.single n)
  | range {first second a b} (text : s = first ++ '-' :: second) (start : IsNumber (trim first) a)
      (stop : IsNumber (trim second) b) : Spells defaultLimit s (.range (min a b) (max a b))
  | starting {first second a} (text : s = first ++ '-' :: second)
      (start : IsNumber (trim first) a) (blank : trim second = []) :
      Spells defaultLimit s (.range a (min (a + defaultLimit) usizeMax))
  | upTo {first second b} (text : s = first ++ '-' :: second) (blank : trim first = [])
      (stop : IsNumber (trim second) b) : Spells defaultLimit s (.range 0 b)

def Readable (part : Str) : Prop :=
  trim part = [] ∨ ∃ n, IsIndex (trim part) n

-- Read as a range all the same: a number has a plus sign, or another `-` follows.
inductive Lax (s : Str) : Prop
  | single {digits n} (text : trim s = '+' :: digits) (number : IsNumber digits n)
  | range {first second rest} (parted : Parted s first second rest) (left : Readable first)
      (right : Readable second) (given : ¬ (trim first = [] ∧ trim second = []))
      (lax : rest ≠ [] ∨ (trim first).head? = some '+' ∨ (trim second).head? = some '+')

theorem plain_of_blank {part : Str} (blank : trim part = []) : '-' ∉ part := by
  rw [← mem_trim_dash, blank]
  exact List.not_mem_nil

theorem IsNumber.plain {part : Str} {n : Nat} (number : IsNumber (trim part) n) : '-' ∉ part := by
  rw [← mem_trim_dash]
  exact number.isIndex.plain

theorem Parted.two {s first second : Str} (text : s = first ++ '-' :: second)
    (left : '-' ∉ first) (right : '-' ∉ second) : Parted s first second [] where
  text := by rw [text, List.append_nil]
  first := left
  second := right
  ends := .inl rfl

theorem Spells.parsed {defaultLimit : Nat} {s : Str} {selection : RangeSelection}
    (spells : Spells defaultLimit s selection) :
    parseRange (some s) defaultLimit = .ok selection := by
  cases spells with
  | single number => exact (parseRange_plain number.plain _ _).mpr ⟨_, number.isIndex, rfl⟩
  | range text start stop =>
      exact (parseRange_parted (.two text start.plain stop.plain) _ _).mpr
        (.inl ⟨_, _, start.isIndex, stop.isIndex, rfl⟩)
  | starting text start blank =>
      exact (parseRange_parted (.two text start.plain (plain_of_blank blank)) _ _).mpr
        (.inr (.inl ⟨_, start.isIndex, blank, rfl⟩))
  | upTo text blank stop =>
      exact (parseRange_parted (.two text (plain_of_blank blank) stop.plain) _ _).mpr
        (.inr (.inr ⟨_, blank, stop.isIndex, rfl⟩))

theorem spells_or_lax {defaultLimit : Nat} {s : Str} {selection : RangeSelection}
    (parsed : parseRange (some s) defaultLimit = .ok selection) :
    Spells defaultLimit s selection ∨ Lax s := by
  by_cases dash : '-' ∈ s
  · obtain ⟨first, second, rest, parted⟩ := Parted.exists dash
    by_cases lax : rest ≠ [] ∨ (trim first).head? = some '+' ∨ (trim second).head? = some '+'
    · refine .inr ?_
      rcases (parseRange_parted parted _ _).mp parsed with
        ⟨start, stop, left, right, _⟩ | ⟨start, left, blank, _⟩ | ⟨stop, blank, right, _⟩
      · exact .range parted (.inr ⟨_, left⟩) (.inr ⟨_, right⟩) (fun both => left.not_blank both.1) lax
      · exact .range parted (.inr ⟨_, left⟩) (.inl blank) (fun both => left.not_blank both.1) lax
      · exact .range parted (.inl blank) (.inr ⟨_, right⟩) (fun both => right.not_blank both.2) lax
    · simp only [not_or, not_not] at lax
      obtain ⟨rfl, unsignedFirst, unsignedSecond⟩ := lax
      have text : s = first ++ '-' :: second := by rw [parted.text, List.append_nil]
      refine .inl ?_
      rcases (parseRange_parted parted _ _).mp parsed with
        ⟨start, stop, left, right, rfl⟩ | ⟨start, left, blank, rfl⟩ | ⟨stop, blank, right, rfl⟩
      · exact .range text (left.isNumber unsignedFirst) (right.isNumber unsignedSecond)
      · exact .starting text (left.isNumber unsignedFirst) blank
      · exact .upTo text blank (right.isNumber unsignedSecond)
  · obtain ⟨n, number | ⟨digits, text, number⟩, rfl⟩ := (parseRange_plain dash _ _).mp parsed
    · exact .inl (.single number)
    · exact .inr (.single text number)

theorem Lax.parsed {s : Str} (lax : Lax s) (defaultLimit : Nat) :
    ∃ selection, parseRange (some s) defaultLimit = .ok selection := by
  cases lax with
  | single text number =>
      have index : IsIndex (trim s) _ := .inr ⟨_, text, number⟩
      have plain : '-' ∉ s := by
        rw [← mem_trim_dash]
        exact index.plain
      exact ⟨_, (parseRange_plain plain _ _).mpr ⟨_, index, rfl⟩⟩
  | range parted left right given _ =>
      rcases left with blank | ⟨start, left⟩
      · rcases right with nothing | ⟨stop, right⟩
        · exact absurd ⟨blank, nothing⟩ given
        · exact ⟨_, (parseRange_parted parted _ _).mpr (.inr (.inr ⟨stop, blank, right, rfl⟩))⟩
      · rcases right with blank | ⟨stop, right⟩
        · exact ⟨_, (parseRange_parted parted _ _).mpr (.inr (.inl ⟨start, left, blank, rfl⟩))⟩
        · exact ⟨_, (parseRange_parted parted _ _).mpr (.inl ⟨start, stop, left, right, rfl⟩)⟩

theorem unsigned {part : Str} (spelled : trim part = [] ∨ ∃ n, IsNumber (trim part) n) :
    (trim part).head? ≠ some '+' := by
  rcases spelled with blank | ⟨n, number⟩
  · rw [blank]
    exact (Option.some_ne_none _).symm
  · intro plus
    obtain ⟨rest, text⟩ := List.head?_eq_some_iff.mp plus
    rw [text] at number
    exact not_isNumber_plus number

theorem Spells.not_lax {defaultLimit : Nat} {s : Str} {selection : RangeSelection}
    (spells : Spells defaultLimit s selection) : ¬ Lax s := by
  have two : ∀ {first second : Str}, s = first ++ '-' :: second →
      (trim first = [] ∨ ∃ n, IsNumber (trim first) n) →
      (trim second = [] ∨ ∃ n, IsNumber (trim second) n) → ¬ Lax s := by
    intro first second text left right lax
    have plain : ∀ {part : Str}, (trim part = [] ∨ ∃ n, IsNumber (trim part) n) → '-' ∉ part := by
      intro part spelled
      rcases spelled with blank | ⟨n, number⟩
      · exact plain_of_blank blank
      · exact number.plain
    cases lax with
    | single signed number =>
        have dash : '-' ∈ trim s := by
          rw [mem_trim_dash, text]
          exact List.mem_append_right _ List.mem_cons_self
        exact (IsIndex.plain (.inr ⟨_, signed, number⟩)) dash
    | range parted _ _ _ lax =>
        obtain ⟨rfl, rfl, rfl⟩ := parted.unique (.two text (plain left) (plain right))
        rcases lax with more | plus | plus
        · exact more rfl
        · exact unsigned left plus
        · exact unsigned right plus
  cases spells with
  | single number =>
      intro lax
      cases lax with
      | single signed other =>
          rw [signed] at number
          exact not_isNumber_plus number
      | range parted _ _ _ _ =>
          refine number.plain ?_
          rw [parted.text]
          exact List.mem_append_right _ List.mem_cons_self
  | range text start stop => exact two text (.inr ⟨_, start⟩) (.inr ⟨_, stop⟩)
  | starting text start blank => exact two text (.inr ⟨_, start⟩) (.inl blank)
  | upTo text blank stop => exact two text (.inl blank) (.inr ⟨_, stop⟩)

/-- What is read is what is spelled, but for what is read all the same. -/
theorem parseRange_strict_iff (s : Str) :
    (∀ defaultLimit selection,
      parseRange (some s) defaultLimit = .ok selection ↔ Spells defaultLimit s selection) ↔
      ¬ Lax s := by
  constructor
  · intro strict lax
    obtain ⟨selection, parsed⟩ := lax.parsed 0
    exact ((strict 0 selection).mp parsed).not_lax lax
  · intro careful defaultLimit selection
    constructor
    · intro parsed
      exact (spells_or_lax parsed).resolve_right careful
    · exact Spells.parsed

end Y4p
