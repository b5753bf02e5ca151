import Y4p.Core.Mimes
import Y4p.Core.Number
import Y4p.Core.StrIndex
import Y4p.Lib.Latest

/-!
`Config::parse` of `crates/core/src/config.rs` with its slices, and what a configuration text says:
the last valid setting of a key counts.
-/

namespace Y4p

open Lists

-- The loop of `strip_comment`: the index it cuts the line at.
def commentAt : Bool → Nat → Bytes → Option Nat
  | _, _, [] => none
  | inString, i, b :: rest =>
      if b = 0x22 then commentAt (!inString) (i + 1) rest
      else if b = 0x23 ∧ !inString then some i
      else commentAt inString (i + 1) rest

def stripCommentSlice (line : Str) : Option Str :=
  match commentAt false 0 (strBytes line) with
  | some i => strSlice line 0 i
  | none => some line

-- `parse_line` with `&line[1..line.len() - 1]` for the name of a section; none if a slice panics.
def parseLineSlice (config : Config) (heading line : Str) : Option (Config × Str) := do
  let line := trim (← stripCommentSlice line)
  if line = [] then some (config, heading)
  else if startsWith line ['['] ∧ line.getLast? = some ']' ∧ ¬ contains line ['='] then do
    let name ← strSlice line 1 ((strBytes line).length - 1)
    some (config, trim name)
  else
    match splitOnce line with
    | none => some (config, heading)
    | some (key, value) => some (applyKv config heading (trim key) (trim value), heading)

def Config.parseSlice (content : Str) : Option Config := do
  let last ← (splitLines content).foldlM (fun state line => parseLineSlice state.1 state.2 line)
    (Config.default, [])
  some last.1

theorem commentAt_plain {inString : Bool} {i : Nat} {plain rest : Bytes}
    (noQuote : 0x22 ∉ plain) (noHash : 0x23 ∉ plain) :
    commentAt inString i (plain ++ rest) = commentAt inString (i + plain.length) rest := by
  induction plain generalizing i with
  | nil => rfl
  | cons byte plain ih =>
      rw [List.mem_cons, not_or] at noQuote noHash
      rw [List.cons_append, commentAt, if_neg (Ne.symm noQuote.1),
        if_neg fun both => noHash.1 both.1.symm, ih noQuote.2 noHash.2, List.length_cons,
        Nat.add_assoc, Nat.add_comm 1]

theorem stripCommentFrom_prefix (inString : Bool) (line : Str) :
    ∃ after, line = stripCommentFrom inString line ++ after := by
  induction line generalizing inString with
  | nil => exact ⟨[], rfl⟩
  | cons c rest ih =>
      rw [stripCommentFrom]
      split
      · obtain ⟨after, same⟩ := ih (!inString)
        exact ⟨after, congrArg (c :: ·) same⟩
      · split
        · exact ⟨c :: rest, rfl⟩
        · obtain ⟨after, same⟩ := ih inString
          exact ⟨after, congrArg (c :: ·) same⟩

/-- The index is that of the cut which `stripCommentFrom` makes among the characters. -/
theorem commentAt_strBytes (inString : Bool) (i : Nat) (line : Str) :
    (∀ j, commentAt inString i (strBytes line) = some j →
      j = i + (strBytes (stripCommentFrom inString line)).length) ∧
    (commentAt inString i (strBytes line) = none → stripCommentFrom inString line = line) := by
  induction line generalizing inString i with
  | nil => exact ⟨fun j found => absurd found.symm (Option.some_ne_none j), fun _ => rfl⟩
  | cons c rest ih =>
      by_cases quote : c = '"'
      · subst quote
        have step : commentAt inString i (strBytes ('"' :: rest)) =
            commentAt (!inString) (i + 1) (strBytes rest) := rfl
        obtain ⟨cut, whole⟩ := ih (!inString) (i + 1)
        rw [step, stripCommentFrom, if_pos rfl, length_strBytes_cons]
        constructor
        · intro j found
          rw [cut j found, Nat.add_assoc]
          rfl
        · intro none
          rw [whole none]
      · rw [stripCommentFrom, if_neg quote]
        by_cases hash : c = '#' ∧ !inString
        · obtain ⟨rfl, outside⟩ := hash
          rw [Bool.not_eq_true'] at outside
          subst outside
          rw [if_pos ⟨rfl, rfl⟩]
          have step : commentAt false i (strBytes ('#' :: rest)) = some i := rfl
          rw [step]
          exact ⟨fun j found => (Option.some_inj.mp found).symm,
            fun none => absurd none (Option.some_ne_none i)⟩
        · rw [if_neg hash, length_strBytes_cons]
          obtain ⟨cut, whole⟩ := ih inString (i + c.utf8Size)
          have step : commentAt inString i (strBytes (c :: rest)) =
              commentAt inString (i + c.utf8Size) (strBytes rest) := by
            by_cases inside : c = '#'
            · subst inside
              cases inString with
              | false => exact absurd ⟨rfl, rfl⟩ hash
              | true => rfl
            · rw [strBytes_cons, ← String.length_utf8EncodeChar]
              apply commentAt_plain
              · intro member
                exact quote (Char.toNat_inj.mp
                  (ofNat_mem_utf8EncodeChar (n := 34) (by decide) member))
              · intro member
                exact inside (Char.toNat_inj.mp
                  (ofNat_mem_utf8EncodeChar (n := 35) (by decide) member))
          rw [step]
          constructor
          · intro j found
            rw [cut j found, Nat.add_assoc]
          · intro none
            rw [whole none]

theorem stripCommentSlice_eq (line : Str) : stripCommentSlice line = some (stripComment line) := by
  obtain ⟨cut, whole⟩ := commentAt_strBytes false 0 line
  rw [stripCommentSlice, stripComment]
  split
  · rename_i i found
    obtain ⟨after, same⟩ := stripCommentFrom_prefix false line
    have slice := strSlice_append [] (stripCommentFrom false line) after
    rw [List.nil_append, ← same] at slice
    rw [cut i found, Nat.zero_add]
    exact slice
  · rename_i found
    rw [whole found]

theorem bracketed {line : Str} (opens : startsWith line ['['] = true)
    (closes : line.getLast? = some ']') : ∃ inner, line = '[' :: inner ++ [']'] := by
  cases line with
  | nil => cases closes
  | cons c rest =>
      have first : c = '[' := by
        rw [startsWith, List.isPrefixOf_cons_cons, Bool.and_eq_true, beq_iff_eq] at opens
        exact opens.1.symm
      subst first
      rcases List.eq_nil_or_concat rest with rfl | ⟨inner, last, rfl⟩
      · cases closes
      · rw [List.concat_eq_append, ← List.cons_append, List.getLast?_concat,
          Option.some_inj] at closes
        exact ⟨inner, by rw [closes, List.concat_eq_append]; rfl⟩

theorem parseLineSlice_eq (config : Config) (heading line : Str) :
    parseLineSlice config heading line = some (parseLine config heading line) := by
  simp only [parseLineSlice, stripCommentSlice_eq, Option.bind_eq_bind, Option.bind_some, parseLine]
  generalize trim (stripComment line) = line
  split
  · rfl
  · split
    · rename_i shape
      obtain ⟨inner, rfl⟩ := bracketed shape.1 shape.2.1
      have slice := strSlice_append ['['] inner [']']
      have ends : (strBytes ('[' :: inner ++ [']'])).length - 1 =
          (strBytes (['['] ++ inner)).length := by
        rw [← List.singleton_append, strBytes_append, List.length_append]
        rfl
      rw [ends]
      change (strSlice ('[' :: inner ++ [']']) 1 _).bind _ = _
      change strSlice ('[' :: inner ++ [']']) 1 _ = some inner at slice
      rw [slice, Option.bind_some, List.cons_append, List.drop_one, List.tail_cons,
        List.dropLast_concat]
    · cases splitOnce line with
      | none => rfl
      | some parts => rfl

/-- No slice of `Config::parse` is out of range, or inside a character. -/
theorem parseSlice_eq (content : Str) :
    Config.parseSlice content = some (Config.parse content) := by
  have run : ∀ (lines : List Str) (state : Config × Str),
      lines.foldlM (fun state line => parseLineSlice state.1 state.2 line) state =
        some (lines.foldl (fun state line => parseLine state.1 state.2 line) state) := by
    intro lines
    induction lines with
    | nil => intro state; rfl
    | cons line lines ih =>
        intro state
        rw [List.foldlM_cons, parseLineSlice_eq, List.foldl_cons, ← ih]
        rfl
  rw [Config.parseSlice, run]
  rfl

structure IsBodyAfter (quotes : Nat) (line body : Str) : Prop where
  quoted : ∀ before after, body = before ++ '#' :: after → (quotes + before.count '"') % 2 = 1
  ends : body = line ∨ ∃ after, line = body ++ '#' :: after ∧ (quotes + body.count '"') % 2 = 0

-- The line up to its comment: up to the first `#` that is not between double quotes.
def IsBody (line body : Str) : Prop :=
  IsBodyAfter 0 line body

theorem isBodyAfter_stripCommentFrom (quotes : Nat) (line : Str) :
    IsBodyAfter quotes line (stripCommentFrom (quotes % 2 = 1) line) := by
  induction line generalizing quotes with
  | nil =>
      refine ⟨fun before after split => ?_, .inl rfl⟩
      exact absurd split.symm (List.append_ne_nil_of_right_ne_nil before (List.cons_ne_nil _ _))
  | cons c rest ih =>
      have step : IsBodyAfter (quotes + [c].count '"') rest
            (stripCommentFrom ((quotes + [c].count '"') % 2 = 1) rest) →
          (c = '#' → quotes % 2 = 1) →
          IsBodyAfter quotes (c :: rest)
            (c :: stripCommentFrom ((quotes + [c].count '"') % 2 = 1) rest) := by
        rintro ⟨quoted, ends⟩ first
        have count : ∀ text : Str, ([c] ++ text).count '"' = [c].count '"' + text.count '"' :=
          fun _ => List.count_append
        simp only [List.singleton_append] at count
        constructor
        · intro before after split
          cases before with
          | nil =>
              cases split
              exact first rfl
          | cons d before =>
              obtain ⟨rfl, later⟩ := List.cons.inj split
              rw [count, ← Nat.add_assoc]
              exact quoted before after later
        · rcases ends with same | ⟨after, same, even⟩
          · exact .inl (congrArg (c :: ·) same)
          · refine .inr ⟨after, congrArg (c :: ·) same, ?_⟩
            rw [count, ← Nat.add_assoc]
            exact even
      rw [stripCommentFrom]
      by_cases quote : c = '"'
      · subst quote
        rw [if_pos rfl]
        have toggled :
            (!decide (quotes % 2 = 1)) = decide ((quotes + ['"'].count '"') % 2 = 1) := by
          rw [List.count_singleton_self, ← decide_not, decide_eq_decide]
          omega
        rw [toggled]
        exact step (ih _) fun hash => absurd hash (by decide)
      · rw [if_neg quote]
        have unquoted : [c].count '"' = 0 := List.count_eq_zero.mpr fun member =>
          quote (List.mem_singleton.mp member).symm
        rw [unquoted, Nat.add_zero] at step
        split
        · rename_i hash
          obtain ⟨rfl, outside⟩ := hash
          rw [Bool.not_eq_true', decide_eq_false_iff_not] at outside
          refine ⟨fun before after split => ?_, .inr ⟨rest, rfl, ?_⟩⟩
          · exact absurd split.symm
              (List.append_ne_nil_of_right_ne_nil before (List.cons_ne_nil _ _))
          · rw [List.count_nil]
            omega
        · rename_i other
          refine step (ih quotes) fun hash => ?_
          by_contra even
          exact other ⟨hash, by rw [Bool.not_eq_true', decide_eq_false_iff_not]; exact even⟩

theorem IsBodyAfter.not_past {quotes : Nat} {line first second more : Str}
    (body : IsBodyAfter quotes line first) (longer : first = second ++ '#' :: more) :
    (quotes + second.count '"') % 2 ≠ 0 := by
  have odd := body.quoted second more longer
  omega

theorem IsBodyAfter.unique {quotes : Nat} {line first second : Str}
    (left : IsBodyAfter quotes line first) (right : IsBodyAfter quotes line second) :
    first = second := by
  rcases left.ends with rfl | ⟨firstAfter, cutFirst, evenFirst⟩
  · rcases right.ends with same | ⟨after, cut, even⟩
    · exact same.symm
    · exact absurd even (left.not_past cut)
  · rcases right.ends with rfl | ⟨secondAfter, cutSecond, evenSecond⟩
    · exact absurd evenFirst (right.not_past cutFirst)
    · rcases List.append_eq_append_iff.mp (cutFirst.symm.trans cutSecond) with
        ⟨between, same, rest⟩ | ⟨between, same, rest⟩
      · cases between with
        | nil => rw [same, List.append_nil]
        | cons c between =>
            obtain ⟨rfl, _⟩ := List.cons.inj rest
            exact absurd evenFirst (right.not_past same)
      · cases between with
        | nil => rw [same, List.append_nil]
        | cons c between =>
            obtain ⟨rfl, _⟩ := List.cons.inj rest
            exact absurd evenSecond (left.not_past same)

theorem isBody_iff {line body : Str} : IsBody line body ↔ body = stripComment line := by
  have stripped : IsBody line (stripComment line) := isBodyAfter_stripCommentFrom 0 line
  constructor
  · intro isBody
    exact IsBodyAfter.unique isBody stripped
  · rintro rfl
    exact stripped

theorem stripComment_stripComment (line : Str) :
    stripComment (stripComment line) = stripComment line := by
  have stripped : IsBody line (stripComment line) := isBody_iff.mpr rfl
  exact (isBody_iff.mp ⟨stripped.quoted, .inl rfl⟩).symm

def IsHeading (line name : Str) : Prop :=
  ∃ body inner, IsBody line body ∧ trim body = '[' :: inner ++ [']'] ∧ '=' ∉ inner ∧
    name = trim inner

def Assigns (line key value : Str) : Prop :=
  ∃ body before after, IsBody line body ∧ trim body = before ++ '=' :: after ∧ '=' ∉ before ∧
    key = trim before ∧ value = trim after

def InSection (lines : List Str) (name : Str) : Prop :=
  Latest (fun _ line name => IsHeading line name) [] lines name

def SetsMaxHistory (before : List Str) (line : Str) (n : UInt64) : Prop :=
  InSection before "general".toList ∧
    ∃ value, Assigns line "max_history".toList value ∧ IsIndex value n.toNat ∧ n ≠ 0

def SetsDropRtf (before : List Str) (line : Str) (b : Bool) : Prop :=
  InSection before "mime".toList ∧
    ∃ value, Assigns line "drop_rtf".toList value ∧
      (value = "true".toList ∧ b = true ∨ value = "false".toList ∧ b = false)

theorem assigns_iff {line key value : Str} :
    Assigns line key value ↔
      ∃ before after, trim (stripComment line) = before ++ '=' :: after ∧ '=' ∉ before ∧
        key = trim before ∧ value = trim after := by
  constructor
  · rintro ⟨body, before, after, isBody, rest⟩
    rw [isBody_iff] at isBody
    subst isBody
    exact ⟨before, after, rest⟩
  · rintro ⟨before, after, rest⟩
    exact ⟨stripComment line, before, after, isBody_iff.mpr rfl, rest⟩

theorem isHeading_iff {line name : Str} :
    IsHeading line name ↔
      ∃ inner, trim (stripComment line) = '[' :: inner ++ [']'] ∧ '=' ∉ inner ∧
        name = trim inner := by
  constructor
  · rintro ⟨body, inner, isBody, rest⟩
    rw [isBody_iff] at isBody
    subst isBody
    exact ⟨inner, rest⟩
  · rintro ⟨inner, rest⟩
    exact ⟨stripComment line, inner, isBody_iff.mpr rfl, rest⟩

theorem contains_singleton {s : Str} {c : Char} : contains s [c] = true ↔ c ∈ s :=
  contains_iff.trans (List.singleton_infix_iff c s)

theorem splitOnce_append {before after : Str} (plain : '=' ∉ before) :
    splitOnce (before ++ '=' :: after) = some (before, after) := by
  have all : ∀ c ∈ before, (decide (c ≠ '=')) = true := by
    intro c member
    rw [decide_eq_true_eq]
    rintro rfl
    exact plain member
  rw [splitOnce, List.dropWhile_append_of_pos all, List.takeWhile_append_of_pos all]
  exact congrArg (fun key => some (key, after)) (List.append_nil before)

theorem splitOnce_none {line : Str} (plain : '=' ∉ line) : splitOnce line = none := by
  have all : ∀ c ∈ line, (decide (c ≠ '=')) = true := by
    intro c member
    rw [decide_eq_true_eq]
    rintro rfl
    exact plain member
  rw [splitOnce, List.dropWhile_eq_nil_iff.mpr all]

theorem parseLine_heading {config : Config} {heading line name : Str}
    (isHeading : IsHeading line name) : parseLine config heading line = (config, name) := by
  obtain ⟨inner, body, plain, rfl⟩ := isHeading_iff.mp isHeading
  have noSign : ¬ contains ('[' :: inner ++ [']']) ['='] = true := by
    rw [contains_singleton, List.cons_append, List.mem_cons, List.mem_append, List.mem_singleton]
    rintro (sign | member | sign)
    · exact absurd sign (by decide)
    · exact plain member
    · exact absurd sign (by decide)
  simp only [parseLine, body]
  rw [if_neg (List.append_ne_nil_of_left_ne_nil (List.cons_ne_nil _ _) _),
    if_pos ⟨rfl, List.getLast?_concat, noSign⟩, List.cons_append, List.drop_one, List.tail_cons,
    List.dropLast_concat]

theorem parseLine_assigns {config : Config} {heading line key value : Str}
    (assigns : Assigns line key value) :
    parseLine config heading line = (applyKv config heading key value, heading) := by
  obtain ⟨before, after, body, plain, rfl, rfl⟩ := assigns_iff.mp assigns
  have sign : contains (before ++ '=' :: after) ['='] = true :=
    contains_singleton.mpr (List.mem_append_right _ List.mem_cons_self)
  simp only [parseLine, body, splitOnce_append plain]
  rw [if_neg (List.append_ne_nil_of_right_ne_nil _ (List.cons_ne_nil _ _)),
    if_neg fun shape => shape.2.2 sign]

theorem parseLine_other {config : Config} {heading line : Str}
    (noHeading : ∀ name, ¬ IsHeading line name)
    (noAssigns : ∀ key value, ¬ Assigns line key value) :
    parseLine config heading line = (config, heading) := by
  have plain : '=' ∉ trim (stripComment line) := by
    intro member
    obtain ⟨before, after, split, first⟩ := List.eq_append_cons_of_mem member
    exact noAssigns _ _ (assigns_iff.mpr ⟨before, after, split, first, rfl, rfl⟩)
  simp only [parseLine, splitOnce_none plain]
  split
  · rfl
  · rw [if_neg]
    rintro ⟨opens, closes, _⟩
    obtain ⟨inner, body⟩ := bracketed opens closes
    refine noHeading _ (isHeading_iff.mpr ⟨inner, body, fun member => plain ?_, rfl⟩)
    rw [body, List.cons_append, List.mem_cons, List.mem_append]
    exact .inr (.inl member)

theorem IsHeading.unique {line first second : Str} (left : IsHeading line first)
    (right : IsHeading line second) : first = second := by
  obtain ⟨inner, body, _, rfl⟩ := isHeading_iff.mp left
  obtain ⟨other, same, _, rfl⟩ := isHeading_iff.mp right
  rw [body, List.cons_append, List.cons_append, List.cons.injEq] at same
  rw [List.append_cancel_right same.2]

theorem Assigns.unique {line key value other also : Str} (left : Assigns line key value)
    (right : Assigns line other also) : key = other ∧ value = also := by
  obtain ⟨before, after, body, plain, rfl, rfl⟩ := assigns_iff.mp left
  obtain ⟨first, second, same, unsigned, rfl, rfl⟩ := assigns_iff.mp right
  have parts : splitOnce (before ++ '=' :: after) = some (before, after) := splitOnce_append plain
  rw [← body, same, splitOnce_append unsigned, Option.some_inj, Prod.mk.injEq] at parts
  rw [parts.1, parts.2]
  exact ⟨rfl, rfl⟩

theorem parseUsize_iff {value : Str} {n : UInt64} :
    parseUsize value = some n ↔ IsIndex value n.toNat ∧ n ≠ 0 := by
  rw [← parseIndex_iff, parseUsize, parseIndex, Option.filter_eq_some_iff, decide_eq_true_eq]
  cases parseDigits (if startsWith value ['+'] = true then value.drop 1 else value) with
  | none =>
      exact iff_of_false (Option.some_ne_none n).symm fun both =>
        (Option.some_ne_none _) both.1.1.symm
  | some m =>
      have zero : n ≠ 0 ↔ 0 < n.toNat := by
        rw [Nat.pos_iff_ne_zero, ← UInt64.toNat_zero, Ne, Ne, UInt64.toNat_inj]
      have small : n.toNat ≤ usizeMax := Nat.le_pred_of_lt n.toNat_lt
      dsimp only
      rw [Option.some_inj, zero]
      split
      · rename_i fits
        rw [Option.some_inj]
        constructor
        · rintro rfl
          rw [UInt64.toNat_ofNat_of_lt' fits.2] at small ⊢
          exact ⟨⟨rfl, small⟩, fits.1⟩
        · rintro ⟨⟨rfl, _⟩, _⟩
          exact UInt64.ofNat_toNat
      · rename_i other
        refine iff_of_false (Option.some_ne_none n).symm ?_
        rintro ⟨⟨rfl, _⟩, positive⟩
        exact other ⟨positive, n.toNat_lt⟩

theorem parseBool_iff {value : Str} {b : Bool} :
    parseBool value = some b ↔
      (value = "true".toList ∧ b = true ∨ value = "false".toList ∧ b = false) := by
  rw [parseBool]
  split
  · rename_i same
    subst same
    rw [Option.some_inj, eq_comm, and_iff_right rfl, or_iff_left]
    rintro ⟨other, _⟩
    exact absurd other (by decide)
  · rename_i noTrue
    split
    · rename_i same
      subst same
      rw [Option.some_inj, eq_comm, and_iff_right rfl, or_iff_right fun both => noTrue both.1]
    · rename_i noFalse
      refine iff_of_false (Option.some_ne_none b).symm ?_
      rintro (⟨same, _⟩ | ⟨same, _⟩)
      · exact noTrue same
      · exact noFalse same

theorem applyKv_maxHistory (config : Config) (heading key value : Str) :
    (applyKv config heading key value).maxHistory =
      if heading = "general".toList ∧ key = "max_history".toList then
        (parseUsize value).getD config.maxHistory
      else config.maxHistory := by
  rw [applyKv]
  split
  · cases parseUsize value <;> rfl
  · split
    · cases parseBool value <;> rfl
    · rfl

theorem applyKv_dropRtf (config : Config) (heading key value : Str) :
    (applyKv config heading key value).dropRtf =
      if heading = "mime".toList ∧ key = "drop_rtf".toList then
        (parseBool value).getD config.dropRtf
      else config.dropRtf := by
  rw [applyKv]
  split
  · rename_i general
    rw [if_neg fun mime => absurd (general.1.symm.trans mime.1) (by decide)]
    cases parseUsize value <;> rfl
  · split
    · cases parseBool value <;> rfl
    · rfl

def scanLines (lines : List Str) : Config × Str :=
  lines.foldl (fun state line => parseLine state.1 state.2 line) (Config.default, [])

theorem parseLine_keeps_heading {config : Config} {heading line : Str}
    (noHeading : ∀ name, ¬ IsHeading line name) : (parseLine config heading line).2 = heading := by
  by_cases assigns : ∃ key value, Assigns line key value
  · obtain ⟨key, value, assigns⟩ := assigns
    rw [parseLine_assigns assigns]
  · rw [parseLine_other noHeading fun key value also => assigns ⟨key, value, also⟩]

theorem inSection_iff {lines : List Str} {name : Str} :
    InSection lines name ↔ (scanLines lines).2 = name := by
  have scanned : InSection lines (scanLines lines).2 := by
    apply latest_foldl (fun state line => parseLine state.1 state.2 line) (fun state => state.2)
      (Config.default, [])
    · intro entries entry name isHeading
      rw [parseLine_heading isHeading]
    · intro entries entry noHeading
      exact parseLine_keeps_heading noHeading
  constructor
  · intro named
    exact latest_unique (fun _ _ _ _ left right => left.unique right) scanned named
  · rintro rfl
    exact scanned

theorem scanLines_latest {β : Type} (read : Config → β) (wanted name : Str)
    (parse : Str → Option β)
    (field : ∀ config heading key value, read (applyKv config heading key value) =
      if heading = wanted ∧ key = name then (parse value).getD (read config) else read config)
    (lines : List Str) :
    Latest (fun before line v => InSection before wanted ∧
        ∃ value, Assigns line name value ∧ parse value = some v)
      (read Config.default) lines (read (scanLines lines).1) := by
  apply latest_foldl (fun state line => parseLine state.1 state.2 line) (fun state => read state.1)
    (Config.default, [])
  · rintro entries line v ⟨named, value, assigns, parsed⟩
    rw [parseLine_assigns assigns]
    dsimp only
    rw [field, if_pos ⟨inSection_iff.mp named, rfl⟩, parsed, Option.getD_some]
  · intro entries line quiet
    by_cases isHeading : ∃ name, IsHeading line name
    · obtain ⟨heading, isHeading⟩ := isHeading
      rw [parseLine_heading isHeading]
    · by_cases assigns : ∃ key value, Assigns line key value
      · obtain ⟨key, value, assigns⟩ := assigns
        rw [parseLine_assigns assigns]
        dsimp only
        rw [field]
        split
        · rename_i same
          obtain ⟨named, rfl⟩ := same
          cases parsed : parse value with
          | none => rfl
          | some v => exact absurd ⟨inSection_iff.mpr named, value, assigns, parsed⟩ (quiet v)
        · rfl
      · rw [parseLine_other (fun name also => isHeading ⟨name, also⟩)
          fun key value also => assigns ⟨key, value, also⟩]

theorem scanLines_maxHistory (lines : List Str) :
    Latest SetsMaxHistory defaultMaxHistory lines (scanLines lines).1.maxHistory := by
  have latest := scanLines_latest Config.maxHistory _ _ parseUsize applyKv_maxHistory lines
  simp only [parseUsize_iff] at latest
  exact latest

theorem scanLines_dropRtf (lines : List Str) :
    Latest SetsDropRtf true lines (scanLines lines).1.dropRtf := by
  have latest := scanLines_latest Config.dropRtf _ _ parseBool applyKv_dropRtf lines
  simp only [parseBool_iff] at latest
  exact latest

theorem scanLines_positive (lines : List Str) : (scanLines lines).1.maxHistory ≠ 0 := by
  rcases scanLines_maxHistory lines with ⟨_, _, _, _, ⟨_, _, _, _, positive⟩, _⟩ | ⟨same, _⟩
  · exact positive
  · rw [same]
    decide

theorem SetsMaxHistory.unique {before : List Str} {line : Str} {first second : UInt64}
    (left : SetsMaxHistory before line first) (right : SetsMaxHistory before line second) :
    first = second := by
  obtain ⟨_, value, assigns, number, positive⟩ := left
  obtain ⟨_, other, also, numberToo, positiveToo⟩ := right
  obtain ⟨_, rfl⟩ := assigns.unique also
  have read := parseUsize_iff.mpr ⟨number, positive⟩
  rw [parseUsize_iff.mpr ⟨numberToo, positiveToo⟩, Option.some_inj] at read
  exact read.symm

theorem SetsDropRtf.unique {before : List Str} {line : Str} {first second : Bool}
    (left : SetsDropRtf before line first) (right : SetsDropRtf before line second) :
    first = second := by
  obtain ⟨_, value, assigns, spelled⟩ := left
  obtain ⟨_, other, also, spelledToo⟩ := right
  obtain ⟨_, rfl⟩ := assigns.unique also
  have read := parseBool_iff.mpr spelled
  rw [parseBool_iff.mpr spelledToo, Option.some_inj] at read
  exact read.symm

theorem scanLines_snoc (before : List Str) (line : Str) :
    scanLines (before ++ [line]) = parseLine (scanLines before).1 (scanLines before).2 line := by
  rw [scanLines, List.foldl_append]
  rfl

theorem scanLines_congr {first second : List Str} (same : scanLines first = scanLines second)
    (after : List Str) : scanLines (first ++ after) = scanLines (second ++ after) := by
  unfold scanLines at same ⊢
  rw [List.foldl_append, List.foldl_append, same]

theorem Config.eq_of_fields {first second : Config} (history : first.maxHistory = second.maxHistory)
    (rtf : first.dropRtf = second.dropRtf) : first = second := by
  cases first
  cases second
  cases history
  cases rtf
  rfl

/-- A line that is no header and sets nothing may as well not be there. -/
theorem scanLines_quiet {before : List Str} {line : Str}
    (noHeading : ∀ name, ¬ IsHeading line name) (noHistory : ∀ n, ¬ SetsMaxHistory before line n)
    (noRtf : ∀ b, ¬ SetsDropRtf before line b) :
    scanLines (before ++ [line]) = scanLines before := by
  have heading : (scanLines (before ++ [line])).2 = (scanLines before).2 := by
    rw [scanLines_snoc]
    exact parseLine_keeps_heading noHeading
  have history : (scanLines (before ++ [line])).1.maxHistory = (scanLines before).1.maxHistory := by
    rcases latest_snoc_iff.mp (scanLines_maxHistory (before ++ [line])) with sets | ⟨_, latest⟩
    · exact absurd sets (noHistory _)
    · exact latest_unique (fun _ _ _ _ left right => left.unique right) latest
        (scanLines_maxHistory before)
  have rtf : (scanLines (before ++ [line])).1.dropRtf = (scanLines before).1.dropRtf := by
    rcases latest_snoc_iff.mp (scanLines_dropRtf (before ++ [line])) with sets | ⟨_, latest⟩
    · exact absurd sets (noRtf _)
    · exact latest_unique (fun _ _ _ _ left right => left.unique right) latest
        (scanLines_dropRtf before)
  exact Prod.ext (Config.eq_of_fields history rtf) heading

/-- A comment may as well not be there. -/
theorem scanLines_body (before : List Str) {line body : Str} (isBody : IsBody line body) :
    scanLines (before ++ [body]) = scanLines (before ++ [line]) := by
  rw [isBody_iff] at isBody
  subst isBody
  rw [scanLines_snoc, scanLines_snoc]
  simp only [parseLine, stripComment_stripComment]

/-- Of each setting the last line that sets it in its section counts; no slice panics, and comments
and lines that set nothing change nothing. -/
theorem config_parse_latest (content : Str) :
    Config.parseSlice content = some (Config.parse content) ∧
      Latest SetsMaxHistory defaultMaxHistory (splitLines content)
        (Config.parse content).maxHistory ∧
      Latest SetsDropRtf true (splitLines content) (Config.parse content).dropRtf ∧
      (Config.parse content).maxHistory ≠ 0 ∧
      ∀ before line after, splitLines content = before ++ line :: after →
        ((∀ name, ¬ IsHeading line name) → (∀ n, ¬ SetsMaxHistory before line n) →
          (∀ b, ¬ SetsDropRtf before line b) →
          (scanLines (before ++ after)).1 = Config.parse content) ∧
        ∀ body, IsBody line body →
          (scanLines (before ++ body :: after)).1 = Config.parse content := by
  refine ⟨parseSlice_eq content, scanLines_maxHistory _, scanLines_dropRtf _,
    scanLines_positive _, fun before line after split => ?_⟩
  have parsed : Config.parse content = (scanLines (before ++ [line] ++ after)).1 := by
    rw [List.append_assoc, List.singleton_append, ← split]
    rfl
  rw [parsed]
  constructor
  · intro noHeading noHistory noRtf
    rw [scanLines_congr (scanLines_quiet noHeading noHistory noRtf)]
  · intro body isBody
    rw [← scanLines_congr (scanLines_body before isBody), List.append_assoc]
    rfl

/-- Whatever the environment and the file say, the cap that storage is given is positive. -/
theorem getMaxHistory_ne_zero (setting : Option Str) (content : Str) :
    getMaxHistory setting (Config.parse content) ≠ 0 := by
  unfold getMaxHistory
  dsimp only
  split
  · rename_i n chosen
    obtain ⟨value, _, accepted⟩ := Option.bind_eq_some_iff.mp chosen
    have bounds : 0 < n ∧ n < 2 ^ 63 := of_decide_eq_true (Option.filter_eq_some_iff.mp accepted).2
    intro zero
    have size := congrArg UInt64.toNat zero
    rw [UInt64.toNat_ofNat', Nat.mod_eq_of_lt (by omega)] at size
    exact absurd size (Nat.ne_of_gt bounds.1)
  · exact scanLines_positive _

end Y4p
