import Mathlib.Data.Bool.AllAny
import Y4p.Core.Sniff

/-!
XML documents up to the name of their root element, as bytes, and what `detect_image_mime`
(`crates/core/src/utils.rs`) makes of them.
-/

namespace Y4p.Xml

def isSpace (byte : UInt8) : Bool :=
  byte = 0x20 || byte = 0x09 || byte = 0x0D || byte = 0x0A

def isNameByte (byte : UInt8) : Bool :=
  !isAsciiWhitespace byte && byte ≠ 0x3C && byte ≠ 0x3E && byte ≠ 0x2F && byte ≠ 0x3F &&
    byte ≠ 0x21

def IsName (bytes : Bytes) : Prop :=
  bytes ≠ [] ∧ ∀ byte ∈ bytes, isNameByte byte = true

def lowerByte (byte : UInt8) : UInt8 :=
  if 0x41 ≤ byte ∧ byte ≤ 0x5A then byte + 0x20 else byte

def xmlName : Bytes := [0x78, 0x6D, 0x6C]
def svgName : Bytes := [0x73, 0x76, 0x67]

inductive Misc where
  | space (blanks : Bytes)
  | comment (text : Bytes)
  | instruction (target data : Bytes)

namespace Misc

def bytes : Misc → Bytes
  | .space blanks => blanks
  | .comment text => 0x3C :: 0x21 :: 0x2D :: 0x2D :: (text ++ [0x2D, 0x2D, 0x3E])
  | .instruction target data => 0x3C :: 0x3F :: (target ++ (data ++ [0x3F, 0x3E]))

def Proper : Misc → Prop
  | .space blanks => blanks ≠ [] ∧ ∀ byte ∈ blanks, isSpace byte = true
  | .comment text => ¬ [0x2D, 0x2D] <:+: text ++ [0x2D]
  | .instruction target data =>
      IsName target ∧ target.map lowerByte ≠ xmlName ∧
        (∀ byte, data.head? = some byte → isSpace byte = true) ∧ ¬ [0x3F, 0x3E] <:+: data

end Misc

-- What follows the root's name is left open. `mark` is the mark of UTF-8.
structure Document where
  mark : Bool
  declaration : Option Bytes
  misc : List Misc
  doctype : Option (Bytes × List Misc)
  root : Bytes
  rest : Bytes

namespace Document

def markBytes (doc : Document) : Bytes :=
  if doc.mark then [0xEF, 0xBB, 0xBF] else []

def declarationBytes (doc : Document) : Bytes :=
  match doc.declaration with
  | none => []
  | some info => xmlProlog ++ info ++ [0x3F, 0x3E]

def doctypeBytes (doc : Document) : Bytes :=
  match doc.doctype with
  | none => []
  | some (body, misc) =>
      [0x3C, 0x21, 0x44, 0x4F, 0x43, 0x54, 0x59, 0x50, 0x45] ++ body ++ 0x3E ::
        misc.flatMap Misc.bytes

def rootBytes (doc : Document) : Bytes :=
  0x3C :: (doc.root ++ doc.rest)

def bytes (doc : Document) : Bytes :=
  doc.markBytes ++ (doc.declarationBytes ++
    (doc.misc.flatMap Misc.bytes ++ (doc.doctypeBytes ++ doc.rootBytes)))

-- Every well-formed document is of this shape.
structure Proper (doc : Document) : Prop where
  declared : ∀ info, doc.declaration = some info →
    (∀ byte, info.head? = some byte → isSpace byte = true) ∧ ¬ [0x3F, 0x3E] <:+: info
  misc : ∀ item ∈ doc.misc, item.Proper
  between : ∀ body misc, doc.doctype = some (body, misc) → ∀ item ∈ misc, item.Proper
  root : IsName doc.root
  closed : ∃ byte, doc.rest.head? = some byte ∧ isNameByte byte = false

def first (doc : Document) : Option Misc :=
  doc.misc.find? fun item => item matches .comment _ | .instruction _ _

-- It begins with `<?xml` or `<svg` for other reasons than being an image: a declaration, an
-- instruction like `xml-stylesheet`, or a name like `svgfile` or `svg:g` with nothing before it.
def Mistaken (doc : Document) : Prop :=
  doc.mark = false ∧
    (doc.declaration.isSome = true ∨
      match doc.first with
      | some (.instruction target _) => xmlName <+: target
      | some _ => False
      | none => doc.doctype = none ∧ svgName <+: doc.root)

end Document

def wideMarks : List Bytes :=
  [[0xFF, 0xFE], [0xFE, 0xFF], [0x00], [0x3C, 0x00], [0x4C, 0x6F]]

inductive Text where
  | ascii (doc : Document)
  | wide (mark rest : Bytes)

namespace Text

def bytes : Text → Bytes
  | .ascii doc => doc.bytes
  | .wide mark rest => mark ++ rest

def Proper : Text → Prop
  | .ascii doc => doc.Proper
  | .wide mark _ => mark ∈ wideMarks

def Mistaken : Text → Prop
  | .ascii doc => doc.Mistaken
  | .wide _ _ => False

end Text

theorem isSpace_blank {byte : UInt8} (space : isSpace byte = true) :
    isAsciiWhitespace byte = true := by
  unfold isSpace at space
  simp only [Bool.or_eq_true, decide_eq_true_eq] at space
  rcases space with ((rfl | rfl) | rfl) | rfl <;> decide

/-- A word of name bytes that begins a name and what closes it begins the name. -/
theorem prefix_name {word name rest : Bytes} (letters : ∀ byte ∈ word, isNameByte byte = true)
    (closed : ∀ byte, rest.head? = some byte → isNameByte byte = false) :
    word <+: name ++ rest ↔ word <+: name := by
  refine ⟨?_, fun inside => inside.trans (List.prefix_append _ _)⟩
  induction name generalizing word with
  | nil =>
      intro starts
      cases word with
      | nil => exact List.prefix_rfl
      | cons letter word =>
          obtain ⟨tail, isRest⟩ := starts
          have head : rest.head? = some letter := by
            rw [← List.nil_append rest, ← isRest]
            rfl
          have other := closed letter head
          rw [letters letter List.mem_cons_self] at other
          cases other
  | cons first name ih =>
      intro starts
      cases word with
      | nil => exact List.nil_prefix
      | cons letter word =>
          rw [List.cons_append, List.cons_prefix_cons] at starts
          rw [List.cons_prefix_cons]
          refine ⟨starts.1, ih (fun byte member => ?_) starts.2⟩
          exact letters byte (List.mem_cons_of_mem _ member)

theorem isSvg_markup (rest : Bytes) :
    isSvg (0x3C :: rest) = true ↔ [0x3F, 0x78, 0x6D, 0x6C] <+: rest ∨ svgName <+: rest := by
  have bare : trimAsciiStart (0x3C :: rest) = 0x3C :: rest := rfl
  unfold isSvg
  rw [bare, Bool.or_eq_true, List.isPrefixOf_iff_prefix, List.isPrefixOf_iff_prefix, xmlProlog,
    svgOpen, List.cons_prefix_cons, List.cons_prefix_cons, and_iff_right rfl, and_iff_right rfl]
  rfl

theorem not_isSvg {first : UInt8} (visible : isAsciiWhitespace first = false)
    (other : first ≠ 0x3C) (rest : Bytes) : isSvg (first :: rest) = false := by
  have bare : trimAsciiStart (first :: rest) = first :: rest := by
    refine List.dropWhile_cons_of_neg ?_
    rw [visible]
    exact Bool.false_ne_true
  rw [Bool.eq_false_iff, ne_eq, isSvg_iff, bare]
  rintro ⟨marker, rfl | rfl, starts⟩
  · exact other (List.cons_prefix_cons.mp starts).1.symm
  · exact other (List.cons_prefix_cons.mp starts).1.symm

theorem not_isSvg_bang (rest : Bytes) : isSvg (0x3C :: 0x21 :: rest) = false := by
  rw [Bool.eq_false_iff, ne_eq, isSvg_markup]
  rintro (xml | svg)
  · exact absurd (List.cons_prefix_cons.mp xml).1 (by decide)
  · exact absurd (List.cons_prefix_cons.mp svg).1 (by decide)

theorem isSvg_instruction {target : Bytes} {rest : Bytes}
    (closed : ∀ byte, rest.head? = some byte → isNameByte byte = false) :
    isSvg (0x3C :: 0x3F :: (target ++ rest)) = true ↔ xmlName <+: target := by
  have noSvg : ¬ svgName <+: 0x3F :: (target ++ rest) :=
    fun starts => absurd (List.cons_prefix_cons.mp starts).1 (by decide)
  rw [isSvg_markup, or_iff_left noSvg, List.cons_prefix_cons, and_iff_right rfl]
  exact prefix_name (List.all_iff_forall_prop.mp (by decide)) closed

theorem isSpace_closes {byte : UInt8} (space : isSpace byte = true) : isNameByte byte = false := by
  unfold isNameByte
  rw [isSpace_blank space]
  rfl

theorem isSvg_blank {blanks : Bytes} (blank : ∀ byte ∈ blanks, isSpace byte = true)
    (rest : Bytes) : isSvg (blanks ++ rest) = isSvg rest := by
  have same : trimAsciiStart (blanks ++ rest) = trimAsciiStart rest :=
    List.dropWhile_append_of_pos fun byte member => isSpace_blank (blank byte member)
  unfold isSvg
  rw [same]

theorem isSvg_root {doc : Document} (proper : doc.Proper) :
    isSvg doc.rootBytes = true ↔ svgName <+: doc.root := by
  obtain ⟨some, letters⟩ := proper.root
  obtain ⟨last, isLast, ends⟩ := proper.closed
  have closed : ∀ byte, doc.rest.head? = .some byte → isNameByte byte = false := by
    intro byte head
    rw [isLast] at head
    cases head
    exact ends
  have noPrompt : ¬ [0x3F, 0x78, 0x6D, 0x6C] <+: doc.root ++ doc.rest := by
    intro starts
    cases root : doc.root with
    | nil => exact some root
    | cons first more =>
        rw [root, List.cons_append, List.cons_prefix_cons] at starts
        have letter := letters first (root ▸ List.mem_cons_self)
        rw [← starts.1] at letter
        exact absurd letter (by decide)
  rw [Document.rootBytes, isSvg_markup, or_iff_right noPrompt,
    prefix_name (List.all_iff_forall_prop.mp (by decide)) closed]

theorem isSvg_misc {doc : Document} (proper : doc.Proper) (misc : List Misc)
    (each : ∀ item ∈ misc, item.Proper) :
    isSvg (misc.flatMap Misc.bytes ++ (doc.doctypeBytes ++ doc.rootBytes)) = true ↔
      match misc.find? fun item => item matches .comment _ | .instruction _ _ with
      | some (.instruction target _) => xmlName <+: target
      | some _ => False
      | none => doc.doctype = none ∧ svgName <+: doc.root := by
  induction misc with
  | nil =>
      rw [List.flatMap_nil, List.nil_append, List.find?_nil]
      unfold Document.doctypeBytes
      cases doctype : doc.doctype with
      | none =>
          rw [and_iff_right rfl]
          exact isSvg_root proper
      | some declared =>
          dsimp only [List.cons_append]
          rw [not_isSvg_bang]
          exact ⟨fun svg => absurd svg Bool.false_ne_true, fun both => absurd both.1 nofun⟩
  | cons item more ih =>
      rw [List.forall_mem_cons] at each
      rw [List.flatMap_cons, List.append_assoc]
      cases item with
      | space blanks =>
          rw [Misc.bytes, isSvg_blank each.1.2, List.find?_cons_of_neg Bool.false_ne_true]
          exact ih each.2
      | comment text =>
          rw [List.find?_cons_of_pos rfl]
          dsimp only [Misc.bytes, List.cons_append]
          rw [not_isSvg_bang]
          exact iff_of_false Bool.false_ne_true id
      | instruction target data =>
          obtain ⟨_, _, blank, _⟩ := each.1
          rw [List.find?_cons_of_pos rfl]
          dsimp only [Misc.bytes, List.cons_append]
          rw [List.append_assoc]
          refine isSvg_instruction fun byte head => ?_
          cases data with
          | nil =>
              cases head
              decide
          | cons first others => exact isSpace_closes (blank byte head)

theorem isSvg_document {doc : Document} (proper : doc.Proper) :
    isSvg doc.bytes = true ↔ doc.Mistaken := by
  unfold Document.bytes Document.Mistaken Document.markBytes Document.declarationBytes
  cases doc.mark with
  | true =>
      rw [if_pos rfl]
      dsimp only [List.cons_append]
      rw [not_isSvg (by decide) (by decide)]
      exact iff_of_false Bool.false_ne_true fun both => absurd both.1 nofun
  | false =>
      rw [if_neg Bool.false_ne_true, List.nil_append, and_iff_right rfl]
      cases doc.declaration with
      | some info =>
          refine iff_of_true ?_ (.inl rfl)
          exact (isSvg_markup _).mpr (.inl ⟨_, rfl⟩)
      | none =>
          rw [List.nil_append, or_iff_right (fun some => absurd some nofun)]
          exact isSvg_misc proper doc.misc proper.misc

def Branded (data : Bytes) : Prop :=
  12 ≤ data.length ∧ (data.drop 4).take 4 = ftyp ∧
    ((data.drop 8).take 4 = avif ∨ (data.drop 8).take 4 = avis)

instance (data : Bytes) : Decidable (Branded data) :=
  inferInstanceAs (Decidable (_ ∧ _))

theorem detectBinary_branded {data : Bytes} (png : data.take 4 ≠ [0x89, 0x50, 0x4E, 0x47])
    (jpeg : data.take 3 ≠ [0xFF, 0xD8, 0xFF]) (gif : data.take 4 ≠ [0x47, 0x49, 0x46, 0x38])
    (container : data.take 4 ≠ riff) : detectBinary data = none ↔ ¬ Branded data := by
  have noContainer : ¬ (data.take 4 = riff ∧ 12 ≤ data.length ∧ (data.drop 8).take 4 = webp) :=
    fun all => container all.1
  unfold detectBinary
  rw [if_neg png, if_neg jpeg, if_neg gif, if_neg noContainer]
  by_cases brand : Branded data
  · have long : ¬ data.length < 4 := by
      have size := brand.1
      omega
    rw [if_neg long]
    unfold Branded at brand
    rw [if_pos brand]
    exact iff_of_false nofun (not_not.mpr brand)
  · refine iff_of_true ?_ brand
    split
    · rfl
    · exact if_neg brand

theorem detectBinary_cons {first : UInt8} {rest : Bytes}
    (other : first ∉ ([0x89, 0xFF, 0x47, 0x52] : Bytes)) :
    detectBinary (first :: rest) = none ↔ ¬ Branded (first :: rest) := by
  simp only [List.mem_cons, List.not_mem_nil, or_false, not_or] at other
  obtain ⟨png, jpeg, gif, container⟩ := other
  refine detectBinary_branded ?_ ?_ ?_ ?_
  · exact fun same => png (List.cons.inj same).1
  · exact fun same => jpeg (List.cons.inj same).1
  · exact fun same => gif (List.cons.inj same).1
  · exact fun same => container (List.cons.inj same).1

theorem no_blanks : ∀ byte ∈ ([] : Bytes), isSpace byte = true :=
  fun _ member => absurd member List.not_mem_nil

theorem misc_opening {doc : Document} (misc : List Misc) (each : ∀ item ∈ misc, item.Proper) :
    ∃ blanks rest, misc.flatMap Misc.bytes ++ (doc.doctypeBytes ++ doc.rootBytes) =
      blanks ++ 0x3C :: rest ∧ ∀ byte ∈ blanks, isSpace byte = true := by
  induction misc with
  | nil =>
      unfold Document.doctypeBytes
      cases doc.doctype with
      | none => exact ⟨[], _, rfl, no_blanks⟩
      | some declared => exact ⟨[], _, rfl, no_blanks⟩
  | cons item more ih =>
      rw [List.forall_mem_cons] at each
      rw [List.flatMap_cons, List.append_assoc]
      cases item with
      | comment text => exact ⟨[], _, rfl, no_blanks⟩
      | instruction target data => exact ⟨[], _, rfl, no_blanks⟩
      | space front =>
          obtain ⟨blanks, rest, same, blank⟩ := ih each.2
          refine ⟨front ++ blanks, rest, ?_, List.forall_mem_append.mpr ⟨each.1.2, blank⟩⟩
          rw [Misc.bytes, same, List.append_assoc]

theorem Document.opening {doc : Document} (proper : doc.Proper) :
    ∃ blanks first rest, doc.bytes = blanks ++ first :: rest ∧
      (∀ byte ∈ blanks, isSpace byte = true) ∧ (first = 0xEF ∨ first = 0x3C) := by
  unfold Document.bytes Document.markBytes Document.declarationBytes
  cases doc.mark with
  | true => exact ⟨[], 0xEF, _, rfl, no_blanks, .inl rfl⟩
  | false =>
      cases doc.declaration with
      | some info => exact ⟨[], 0x3C, _, rfl, no_blanks, .inr rfl⟩
      | none =>
          obtain ⟨blanks, rest, same, blank⟩ := misc_opening doc.misc proper.misc
          exact ⟨blanks, 0x3C, rest, same, blank, .inr rfl⟩

theorem wide_signature {mark : Bytes} (listed : mark ∈ wideMarks) (rest : Bytes) :
    isSvg (mark ++ rest) = false ∧
      (detectBinary (mark ++ rest) = none ↔ ¬ Branded (mark ++ rest)) := by
  simp only [wideMarks, List.mem_cons, List.not_mem_nil, or_false] at listed
  rcases listed with rfl | rfl | rfl | rfl | rfl
  · refine ⟨not_isSvg (by decide) (by decide) _, detectBinary_branded ?_ ?_ ?_ ?_⟩
    · exact fun same => absurd (List.cons.inj same).1 (by decide)
    · exact fun same => absurd (List.cons.inj (List.cons.inj same).2).1 (by decide)
    · exact fun same => absurd (List.cons.inj same).1 (by decide)
    · exact fun same => absurd (List.cons.inj same).1 (by decide)
  · exact ⟨not_isSvg (by decide) (by decide) _, detectBinary_cons (by decide)⟩
  · exact ⟨not_isSvg (by decide) (by decide) _, detectBinary_cons (by decide)⟩
  · refine ⟨?_, detectBinary_cons (by decide)⟩
    change isSvg (0x3C :: 0x00 :: rest) = false
    rw [Bool.eq_false_iff, ne_eq, isSvg_markup]
    rintro (xml | svg)
    · exact absurd (List.cons_prefix_cons.mp xml).1 (by decide)
    · exact absurd (List.cons_prefix_cons.mp svg).1 (by decide)
  · exact ⟨not_isSvg (by decide) (by decide) _, detectBinary_cons (by decide)⟩

/-- A text is taken for an image if it begins like SVG or bears the brand of AVIF. -/
theorem Text.detected {text : Text} (proper : text.Proper) :
    detectImageMime text.bytes = none ↔ ¬ text.Mistaken ∧ ¬ Branded text.bytes := by
  have apart : detectImageMime text.bytes = none ↔
      detectBinary text.bytes = none ∧ ¬ isSvg text.bytes = true := by
    unfold detectImageMime
    cases detectBinary text.bytes with
    | some mime => exact iff_of_false nofun fun both => absurd both.1 nofun
    | none =>
        rw [and_iff_right rfl]
        dsimp only
        split
        · rename_i svg
          exact iff_of_false nofun fun other => other svg
        · rename_i other
          exact iff_of_true rfl other
  rw [apart, and_comm]
  cases text with
  | ascii doc =>
      obtain ⟨blanks, first, rest, isBytes, blank, opens⟩ := Document.opening proper
      have brand : detectBinary doc.bytes = none ↔ ¬ Branded doc.bytes := by
        rw [isBytes]
        cases blanks with
        | nil =>
            refine detectBinary_cons ?_
            rcases opens with rfl | rfl <;> decide
        | cons space more =>
            refine detectBinary_cons fun signed => ?_
            have visible : ∀ byte ∈ ([0x89, 0xFF, 0x47, 0x52] : Bytes), isSpace byte = false :=
              List.all_iff_forall_prop.mp (by decide)
            have isBlank := blank space List.mem_cons_self
            rw [visible space signed] at isBlank
            cases isBlank
      have svg := isSvg_document proper
      unfold Text.bytes Text.Mistaken
      dsimp only
      rw [svg, brand]
  | wide mark rest =>
      obtain ⟨svg, brand⟩ := wide_signature proper rest
      unfold Text.bytes Text.Mistaken
      dsimp only
      rw [svg, brand]
      exact and_congr_left fun _ => iff_of_true Bool.false_ne_true id

theorem Text.opening {text : Text} (proper : text.Proper) :
    ∃ blanks first rest, text.bytes = blanks ++ first :: rest ∧
      (∀ byte ∈ blanks, isSpace byte = true) ∧
      first ∈ ([0xEF, 0x3C, 0xFF, 0xFE, 0x00, 0x4C] : Bytes) := by
  cases text with
  | ascii doc =>
      obtain ⟨blanks, first, rest, isBytes, blank, opens⟩ := Document.opening proper
      refine ⟨blanks, first, rest, isBytes, blank, ?_⟩
      rcases opens with rfl | rfl <;> decide
  | wide mark rest =>
      have listed : mark ∈ wideMarks := proper
      simp only [wideMarks, List.mem_cons, List.not_mem_nil, or_false] at listed
      rcases listed with rfl | rfl | rfl | rfl | rfl
      · exact ⟨[], 0xFF, _, rfl, no_blanks, by decide⟩
      · exact ⟨[], 0xFE, _, rfl, no_blanks, by decide⟩
      · exact ⟨[], 0x00, _, rfl, no_blanks, by decide⟩
      · exact ⟨[], 0x3C, _, rfl, no_blanks, by decide⟩
      · exact ⟨[], 0x4C, _, rfl, no_blanks, by decide⟩

end Y4p.Xml
