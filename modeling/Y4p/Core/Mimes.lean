import Mathlib.Data.Bool.AllAny
import Mathlib.Data.List.DropRight
import Mathlib.Logic.Relation
import Y4p.Core.Sniff

/-!
The base type of a MIME (`mime_base` of `crates/core/src/utils.rs`): what case, parameters and
blanks leave of it.
-/

namespace Y4p

theorem toAsciiLowercase_toNat (c : Char) :
    (toAsciiLowercase c).toNat =
      if 65 ≤ c.toNat ∧ c.toNat ≤ 90 then c.toNat + 32 else c.toNat := by
  have upper : ('A' ≤ c ∧ c ≤ 'Z') ↔ (65 ≤ c.toNat ∧ c.toNat ≤ 90) := Iff.rfl
  simp only [toAsciiLowercase, upper]
  split
  · rename_i inside
    have valid : (c.toNat + 32).isValidChar := .inl (by omega)
    rw [Char.ofNat, dif_pos valid]
    rfl
  · rfl

-- Only themselves become `%`, `_`, `-` and `;`.
theorem toAsciiLowercase_eq {c wildcard : Char} (same : toAsciiLowercase c = wildcard)
    (symbol : wildcard.toNat < 97) : c = wildcard := by
  apply Char.toNat_inj.mp
  have lowered := toAsciiLowercase_toNat c
  rw [same] at lowered
  split at lowered
  · omega
  · exact lowered.symm

theorem isWhitespace_lower (c : Char) : isWhitespace (toAsciiLowercase c) = isWhitespace c := by
  unfold isWhitespace
  rw [toAsciiLowercase_toNat]
  split
  · rename_i upper
    rw [Bool.eq_iff_iff]
    simp only [Bool.or_eq_true, Bool.and_eq_true, decide_eq_true_eq]
    omega
  · rfl

theorem semicolon_lower (c : Char) :
    decide (toAsciiLowercase c ≠ ';') = decide (c ≠ ';') := by
  have same : toAsciiLowercase c = ';' ↔ c = ';' := by
    constructor
    · intro lowered
      exact toAsciiLowercase_eq lowered (by decide)
    · rintro rfl
      decide
  rw [Bool.eq_iff_iff, decide_eq_true_eq, decide_eq_true_eq]
  exact not_congr same

theorem eqIgnoreAsciiCase_iff {a b : Str} :
    eqIgnoreAsciiCase a b = true ↔ a.map toAsciiLowercase = b.map toAsciiLowercase :=
  beq_iff_eq

theorem contains_iff {s part : Str} : contains s part = true ↔ part <:+: s := by
  unfold contains startsWith
  rw [List.any_eq_true, List.infix_iff_prefix_suffix]
  simp only [List.mem_tails, List.isPrefixOf_iff_prefix]
  exact exists_congr fun rest => and_comm

theorem trim_eq (s : Str) : trim s = (s.dropWhile isWhitespace).rdropWhile isWhitespace := rfl

theorem trim_part (s : Str) : trim s <:+: s :=
  (List.rdropWhile_prefix isWhitespace _).isInfix.trans (List.dropWhile_suffix _).isInfix

theorem trim_trim (s : Str) : trim (trim s) = trim s := by
  have left : (trim s).dropWhile isWhitespace = trim s := by
    rw [List.dropWhile_eq_self_iff]
    intro some blank
    have start := List.rdropWhile_prefix isWhitespace (s.dropWhile isWhitespace)
    rw [← trim_eq] at start
    have longer : 0 < (s.dropWhile isWhitespace).length := some.trans_le start.length_le
    have same : (s.dropWhile isWhitespace)[0] = (trim s)[0] := (start.getElem some).symm
    have settled := List.dropWhile_eq_self_iff.mp (List.dropWhile_idempotent isWhitespace s)
    exact settled longer (by rw [same]; exact blank)
  rw [trim_eq (trim s), left, trim_eq, List.rdropWhile_idempotent]

theorem trim_lower (s : Str) :
    trim (s.map toAsciiLowercase) = (trim s).map toAsciiLowercase := by
  have blank : isWhitespace ∘ toAsciiLowercase = isWhitespace := funext isWhitespace_lower
  unfold trim trimStart
  rw [List.dropWhile_map, blank, ← List.map_reverse, List.dropWhile_map, blank, ← List.map_reverse]

/-- Blanks around a string do not show once it is trimmed. -/
theorem trim_around {before after : Str} (s : Str)
    (blankBefore : ∀ c ∈ before, isWhitespace c = true)
    (blankAfter : ∀ c ∈ after, isWhitespace c = true) : trim (before ++ s ++ after) = trim s := by
  unfold trim trimStart
  rw [List.append_assoc, List.dropWhile_append_of_pos blankBefore, List.dropWhile_append]
  split
  · rename_i empty
    rw [List.isEmpty_iff.mp empty, List.dropWhile_eq_nil_iff.mpr blankAfter]
  · have reversed : ∀ c ∈ after.reverse, isWhitespace c = true :=
      fun c member => blankAfter c (List.mem_reverse.mp member)
    rw [List.reverse_append, List.dropWhile_append_of_pos reversed]

theorem mimeBase_plain (mime : Str) : ∀ c ∈ mimeBase mime, decide (c ≠ ';') = true := by
  intro c member
  have kept : c ∈ (mime.takeWhile fun c => decide (c ≠ ';')).dropWhile isWhitespace :=
    (List.rdropWhile_prefix isWhitespace _).subset member
  have inside := (List.dropWhile_sublist _).subset kept
  exact (List.mem_takeWhile_imp inside :)

theorem mimeBase_mimeBase (mime : Str) : mimeBase (mimeBase mime) = mimeBase mime := by
  have whole : (mimeBase mime).takeWhile (fun c => decide (c ≠ ';')) = mimeBase mime :=
    List.takeWhile_eq_self_iff.mpr (mimeBase_plain mime)
  rw [mimeBase, whole]
  exact trim_trim _

def foldedBase (mime : Str) : Str :=
  (mimeBase mime).map toAsciiLowercase

theorem mimeBaseEq_iff {a b : Str} : mimeBaseEq a b = true ↔ foldedBase a = foldedBase b :=
  eqIgnoreAsciiCase_iff

theorem isHtmlMime_mimeBase (mime : Str) : isHtmlMime (mimeBase mime) = isHtmlMime mime := by
  unfold isHtmlMime
  rw [mimeBase_mimeBase]

theorem mimeBase_lower (mime : Str) :
    mimeBase (mime.map toAsciiLowercase) = foldedBase mime := by
  have plain : (fun c : Char => decide (c ≠ ';')) ∘ toAsciiLowercase = fun c => decide (c ≠ ';') :=
    funext semicolon_lower
  unfold mimeBase foldedBase
  rw [List.takeWhile_map, plain, trim_lower]
  rfl

inductive Respelled (mime : Str) : Str → Prop
  | case (other : Str) (same : other.map toAsciiLowercase = mime.map toAsciiLowercase) :
      Respelled mime other
  | parameters (added : Str) : Respelled mime (mime ++ ';' :: added)
  | blanks (before type after rest : Str) (isMime : mime = type ++ rest) (plain : ';' ∉ type)
      (ends : rest = [] ∨ rest.head? = some ';')
      (blankBefore : ∀ c ∈ before, isWhitespace c = true)
      (blankAfter : ∀ c ∈ after, isWhitespace c = true) :
      Respelled mime (before ++ type ++ after ++ rest)

theorem takeWhile_base {type rest : Str} (plain : ';' ∉ type)
    (ends : rest = [] ∨ rest.head? = some ';') :
    (type ++ rest).takeWhile (fun c => decide (c ≠ ';')) = type := by
  have kept : ∀ c ∈ type, decide (c ≠ ';') = true :=
    fun c member => decide_eq_true fun same => plain (same ▸ member)
  rw [List.takeWhile_append_of_pos kept]
  rcases ends with rfl | ends
  · rw [List.takeWhile_nil, List.append_nil]
  · cases rest with
    | nil => cases ends
    | cons first rest =>
        cases ends
        rw [List.takeWhile_cons_of_neg (by decide), List.append_nil]

theorem not_mem_blank {blanks : Str} (blank : ∀ c ∈ blanks, isWhitespace c = true) :
    ';' ∉ blanks := by
  intro member
  have visible : isWhitespace ';' = false := by decide
  rw [blank _ member] at visible
  cases visible

theorem Respelled.foldedBase_eq {mime other : Str} (respelled : Respelled mime other) :
    foldedBase other = foldedBase mime := by
  cases respelled with
  | case other same => rw [← mimeBase_lower, same, mimeBase_lower]
  | parameters added =>
      have same : mimeBase (mime ++ ';' :: added) = mimeBase mime := by
        unfold mimeBase
        rw [List.takeWhile_append]
        split
        · rename_i whole
          rw [List.takeWhile_cons_of_neg (by decide), List.append_nil,
            List.IsPrefix.eq_of_length (List.takeWhile_prefix _) whole]
        · rfl
      rw [foldedBase, same, foldedBase]
  | blanks before type after rest isMime plain ends blankBefore blankAfter =>
      subst isMime
      have wide : ';' ∉ before ++ type ++ after := by
        intro member
        rcases List.mem_append.mp member with front | back
        · rcases List.mem_append.mp front with blank | inside
          · exact not_mem_blank blankBefore blank
          · exact plain inside
        · exact not_mem_blank blankAfter back
      unfold foldedBase mimeBase
      rw [takeWhile_base wide ends, takeWhile_base plain ends,
        trim_around type blankBefore blankAfter]

/-- However often a MIME is written anew, or back, it names the same base type. -/
theorem foldedBase_of_respellings {mime other : Str}
    (respelled : Relation.EqvGen Respelled mime other) : foldedBase other = foldedBase mime := by
  induction respelled with
  | rel mime other once => exact once.foldedBase_eq
  | refl mime => rfl
  | symm mime other _ ih => exact ih.symm
  | trans mime middle other _ _ first second => exact second.trans first

theorem rdropWhile_append_cons {α : Type} {p : α → Bool} {x : α} (kept : p x = false)
    (before after : List α) :
    (before ++ x :: after).rdropWhile p = before ++ x :: after.rdropWhile p := by
  induction after using List.reverseRecOn with
  | nil => rw [List.rdropWhile_concat_neg _ _ _ (by rw [kept]; exact Bool.false_ne_true),
      List.rdropWhile_nil]
  | append_singleton after last ih =>
      rw [← List.cons_append, ← List.append_assoc]
      cases blank : p last with
      | true =>
          rw [List.rdropWhile_concat_pos _ _ _ blank, List.rdropWhile_concat_pos _ _ _ blank, ih]
      | false =>
          have visible : ¬ p last = true := by rw [blank]; exact Bool.false_ne_true
          rw [List.rdropWhile_concat_neg _ _ _ visible, List.rdropWhile_concat_neg _ _ _ visible,
            List.append_assoc, List.cons_append]

/-- Stripping both ends leaves a front that holds nothing to strip. -/
theorem strip_front {α : Type} (p : α → Bool) {front : List α} (some : front ≠ [])
    (kept : ∀ x ∈ front, p x = false) (rest : List α) :
    ((front ++ rest).dropWhile p).rdropWhile p = front ++ rest.rdropWhile p := by
  have settled : (front ++ rest).dropWhile p = front ++ rest := by
    cases front with
    | nil => exact absurd rfl some
    | cons first others =>
        refine List.dropWhile_cons_of_neg ?_
        rw [kept first List.mem_cons_self]
        exact Bool.false_ne_true
  rw [settled]
  obtain ⟨before, last, rfl⟩ := (List.eq_nil_or_concat' front).resolve_left some
  have final := kept last (List.mem_append_right _ (List.mem_singleton.mpr rfl))
  rw [List.append_assoc, List.append_assoc]
  exact rdropWhile_append_cons final before rest

/-- What a MIME begins with, if no blank and no `;` is in it, its base type begins with. -/
theorem mimeBase_front {front : Str} (some : front ≠ [])
    (type : ∀ c ∈ front, c ≠ ';' ∧ isWhitespace c = false) (rest : Str) :
    front <+: mimeBase (front ++ rest) := by
  have plain : ∀ c ∈ front, decide (c ≠ ';') = true :=
    fun c member => decide_eq_true (type c member).1
  unfold mimeBase
  rw [List.takeWhile_append_of_pos plain, trim_eq,
    strip_front isWhitespace some fun c member => (type c member).2]
  exact List.prefix_append _ _

theorem startsWithIgnoreAsciiCase_iff {s start : Str} :
    startsWithIgnoreAsciiCase s start = true ↔
      start.map toAsciiLowercase <+: s.map toAsciiLowercase := by
  unfold startsWithIgnoreAsciiCase
  rw [eqIgnoreAsciiCase_iff, List.map_take, List.prefix_iff_eq_take, List.length_map]
  exact eq_comm

theorem startsWith_base {mime start : Str} (some : start ≠ [])
    (type : ∀ c ∈ start, toAsciiLowercase c ≠ ';' ∧ isWhitespace (toAsciiLowercase c) = false)
    (starts : startsWithIgnoreAsciiCase mime start = true) :
    startsWithIgnoreAsciiCase (mimeBase mime) start = true := by
  rw [startsWithIgnoreAsciiCase_iff] at starts ⊢
  obtain ⟨rest, isLower⟩ := starts
  change _ <+: foldedBase mime
  rw [← mimeBase_lower, ← isLower]
  refine mimeBase_front (mt List.map_eq_nil_iff.mp some) ?_ rest
  intro c member
  obtain ⟨letter, listed, rfl⟩ := List.mem_map.mp member
  exact type letter listed

theorem startsWith_image {mime : Str}
    (image : startsWithIgnoreAsciiCase mime "image/".toList = true) :
    startsWithIgnoreAsciiCase (mimeBase mime) "image/".toList = true :=
  startsWith_base (by decide) (List.all_iff_forall_prop.mp (by decide)) image

theorem mimeBase_part (mime : Str) : mimeBase mime <:+: mime :=
  (trim_part _).trans (List.takeWhile_prefix _).isInfix

end Y4p
