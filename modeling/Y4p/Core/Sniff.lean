import Mathlib.Data.List.TakeDrop
import Y4p.Core.Utils

/-!
What a payload is, judged from its bytes or from the MIME it is announced as:
image signatures and URI lists (`crates/core/src/utils.rs`).
-/

namespace Y4p

def mimeBaseEq (a b : Str) : Bool :=
  eqIgnoreAsciiCase (mimeBase a) (mimeBase b)

def isAsciiWhitespace (byte : UInt8) : Bool :=
  byte = 0x20 || byte = 0x09 || byte = 0x0A || byte = 0x0C || byte = 0x0D

def trimAsciiStart (data : Bytes) : Bytes :=
  data.dropWhile isAsciiWhitespace

def trimAscii (data : Bytes) : Bytes :=
  (trimAsciiStart (trimAsciiStart data).reverse).reverse

-- `RIFF`, `WEBP`, `VP8X`, `ftyp`, `avif`, `avis`, `<?xml` and `<svg`.
def riff : Bytes := [0x52, 0x49, 0x46, 0x46]
def webp : Bytes := [0x57, 0x45, 0x42, 0x50]
def vp8x : Bytes := [0x56, 0x50, 0x38, 0x58]
def ftyp : Bytes := [0x66, 0x74, 0x79, 0x70]
def avif : Bytes := [0x61, 0x76, 0x69, 0x66]
def avis : Bytes := [0x61, 0x76, 0x69, 0x73]
def xmlProlog : Bytes := [0x3C, 0x3F, 0x78, 0x6D, 0x6C]
def svgOpen : Bytes := [0x3C, 0x73, 0x76, 0x67]

def detectBinary (data : Bytes) : Option Str :=
  if data.length < 4 then none
  else if data.take 4 = [0x89, 0x50, 0x4E, 0x47] then some "image/png".toList
  else if data.take 3 = [0xFF, 0xD8, 0xFF] then some "image/jpeg".toList
  else if data.take 4 = [0x47, 0x49, 0x46, 0x38] then some "image/gif".toList
  else if data.take 4 = riff ∧ 12 ≤ data.length ∧ (data.drop 8).take 4 = webp then
    some "image/webp".toList
  else if 12 ≤ data.length ∧ (data.drop 4).take 4 = ftyp ∧
      ((data.drop 8).take 4 = avif ∨ (data.drop 8).take 4 = avis) then
    some "image/avif".toList
  else none

def isSvg (data : Bytes) : Bool :=
  xmlProlog.isPrefixOf (trimAsciiStart data) || svgOpen.isPrefixOf (trimAsciiStart data)

def detectImageMime (data : Bytes) : Option Str :=
  match detectBinary data with
  | some mime => some mime
  | none => if isSvg data then some "image/svg+xml".toList else none

def isAnimatedWebp (data : Bytes) : Bool :=
  21 ≤ data.length && data.take 4 = riff && (data.drop 8).take 4 = webp &&
    (data.drop 12).take 4 = vp8x && data.getD 20 0 &&& 0x02 != 0

def stripFileScheme (line : Bytes) : Bytes :=
  match [0x66, 0x69, 0x6C, 0x65, 0x3A].isPrefixOf? line with
  | none => line
  | some rest =>
      match [0x2F, 0x2F].isPrefixOf? rest with
      | some after =>
          if [0x2F].isPrefixOf after then after else after.dropWhile fun byte => byte ≠ 0x2F
      | none => rest

-- `percentDecode` is the crate's `percent_decode`.
def normalizeUriList (percentDecode : Bytes → Bytes) (data : Bytes) : Bytes :=
  ((data.splitOn 0x0A).foldl (fun (out, wroteAny) rawLine =>
    let line := trimAscii rawLine
    if line = [] ∨ line.head? = some 0x23 then (out, wroteAny)
    else
      let decoded := percentDecode (stripFileScheme line)
      if decoded = [] then (out, wroteAny)
      else ((if wroteAny then out ++ [0x0A] else out) ++ decoded, true)) ([], false)).1

/-- The bytes a prefix holds at any place below its end are those of the whole. -/
theorem take_drop_take {data : Bytes} {n skip count : Nat} (within : skip + count ≤ n) :
    ((data.take n).drop skip).take count = (data.drop skip).take count := by
  rw [List.drop_take, List.take_take, Nat.min_eq_left (by omega)]

theorem detectBinary_take {n : Nat} (enough : 12 ≤ n) (data : Bytes) :
    detectBinary (data.take n) = detectBinary data := by
  have first : ∀ count ≤ 12, (data.take n).take count = data.take count := by
    intro count small
    rw [List.take_take, Nat.min_eq_left (by omega)]
  have short : (data.take n).length < 4 ↔ data.length < 4 := by
    rw [List.length_take]
    omega
  have long : 12 ≤ (data.take n).length ↔ 12 ≤ data.length := by
    rw [List.length_take]
    omega
  have middle : ((data.take n).drop 4).take 4 = (data.drop 4).take 4 := take_drop_take (by omega)
  have last : ((data.take n).drop 8).take 4 = (data.drop 8).take 4 := take_drop_take (by omega)
  unfold detectBinary
  simp only [first 4 (by omega), first 3 (by omega), short, long, middle, last]

theorem isAnimatedWebp_take {n : Nat} (enough : 21 ≤ n) (data : Bytes) :
    isAnimatedWebp (data.take n) = isAnimatedWebp data := by
  have first : (data.take n).take 4 = data.take 4 := by
    rw [List.take_take, Nat.min_eq_left (by omega)]
  have long : 21 ≤ (data.take n).length ↔ 21 ≤ data.length := by
    rw [List.length_take]
    omega
  have kind : ((data.take n).drop 8).take 4 = (data.drop 8).take 4 := take_drop_take (by omega)
  have flagged : ((data.take n).drop 12).take 4 = (data.drop 12).take 4 :=
    take_drop_take (by omega)
  have flags : (data.take n).getD 20 0 = data.getD 20 0 := by
    simp only [List.getD_eq_getElem?_getD, List.getElem?_take]
    rw [if_pos (by omega)]
  unfold isAnimatedWebp
  simp only [first, long, kind, flagged, flags]

def LateMarker (n : Nat) (data : Bytes) : Prop :=
  ∃ marker, (marker = xmlProlog ∨ marker = svgOpen) ∧ marker <+: trimAsciiStart data ∧
    n < (data.takeWhile isAsciiWhitespace).length + marker.length

theorem dropWhile_take {α : Type} (p : α → Bool) (list : List α) (n : Nat) :
    (list.take n).dropWhile p = (list.dropWhile p).take (n - (list.takeWhile p).length) := by
  induction list generalizing n with
  | nil => simp
  | cons head rest ih =>
      cases n with
      | zero => simp
      | succ n =>
          by_cases holds : p head = true
          · simp only [List.take_succ_cons, List.dropWhile_cons_of_pos holds,
              List.takeWhile_cons_of_pos holds, List.length_cons, Nat.add_sub_add_right]
            exact ih n
          · simp only [List.take_succ_cons, List.dropWhile_cons_of_neg holds,
              List.takeWhile_cons_of_neg holds, List.length_nil, Nat.sub_zero]

theorem isSvg_iff (data : Bytes) :
    isSvg data = true ↔
      ∃ marker, (marker = xmlProlog ∨ marker = svgOpen) ∧ marker <+: trimAsciiStart data := by
  unfold isSvg
  rw [Bool.or_eq_true, List.isPrefixOf_iff_prefix, List.isPrefixOf_iff_prefix]
  constructor
  · rintro (xml | svg)
    · exact ⟨xmlProlog, .inl rfl, xml⟩
    · exact ⟨svgOpen, .inr rfl, svg⟩
  · rintro ⟨marker, rfl | rfl, starts⟩
    · exact .inl starts
    · exact .inr starts

theorem marker_unique {data first second : Bytes}
    (one : first = xmlProlog ∨ first = svgOpen) (two : second = xmlProlog ∨ second = svgOpen)
    (firstStarts : first <+: data) (secondStarts : second <+: data) : first = second := by
  have comparable := List.prefix_or_prefix_of_prefix firstStarts secondStarts
  rcases one with rfl | rfl
  · rcases two with rfl | rfl
    · rfl
    · revert comparable
      decide
  · rcases two with rfl | rfl
    · revert comparable
      decide
    · rfl

theorem isSvg_take (n : Nat) (data : Bytes) :
    isSvg (data.take n) = true ↔ isSvg data = true ∧ ¬ LateMarker n data := by
  rw [isSvg_iff, isSvg_iff]
  unfold trimAsciiStart LateMarker
  rw [dropWhile_take]
  constructor
  · rintro ⟨marker, known, starts⟩
    rw [List.prefix_take_iff] at starts
    refine ⟨⟨marker, known, starts.1⟩, ?_⟩
    rintro ⟨other, otherKnown, otherStarts, late⟩
    have same := marker_unique known otherKnown starts.1 otherStarts
    have fits := starts.2
    have positive : 0 < other.length := by
      rcases otherKnown with rfl | rfl <;> decide
    rw [same] at fits
    omega
  · rintro ⟨⟨marker, known, starts⟩, early⟩
    refine ⟨marker, known, List.prefix_take_iff.mpr ⟨starts, ?_⟩⟩
    by_contra late
    exact early ⟨marker, known, starts, by omega⟩

theorem detectBinary_late {n : Nat} (enough : 17 ≤ n) {data : Bytes} (late : LateMarker n data) :
    detectBinary data = none := by
  obtain ⟨marker, known, _, beyond⟩ := late
  have small : marker.length ≤ 5 := by
    rcases known with rfl | rfl <;> decide
  have blank : ∀ byte ∈ data.take 12, isAsciiWhitespace byte = true := by
    intro byte member
    have whole : data.takeWhile isAsciiWhitespace ++ data.dropWhile isAsciiWhitespace = data :=
      List.takeWhile_append_dropWhile
    rw [← whole, List.take_append_of_le_length (by omega)] at member
    exact List.all_eq_true.mp List.all_takeWhile byte (List.mem_of_mem_take member)
  have absent : ∀ skip count (signature : Bytes) byte, skip + count ≤ 12 → byte ∈ signature →
      isAsciiWhitespace byte = false → (data.drop skip).take count ≠ signature := by
    rintro skip count signature byte within member visible rfl
    have there : byte ∈ (data.take 12).drop skip := by
      rw [List.drop_take]
      have wider := List.take_subset_take_left (data.drop skip)
        (show count ≤ 12 - skip by omega)
      exact wider member
    rw [blank byte (List.mem_of_mem_drop there)] at visible
    cases visible
  have png : data.take 4 ≠ [0x89, 0x50, 0x4E, 0x47] := absent 0 4 _ _ (by omega) (.head _) rfl
  have jpeg : data.take 3 ≠ [0xFF, 0xD8, 0xFF] := absent 0 3 _ _ (by omega) (.head _) rfl
  have gif : data.take 4 ≠ [0x47, 0x49, 0x46, 0x38] := absent 0 4 _ _ (by omega) (.head _) rfl
  have container : data.take 4 ≠ riff := absent 0 4 _ _ (by omega) (.head _) rfl
  have brand : (data.drop 4).take 4 ≠ ftyp := absent 4 4 _ _ (by omega) (.head _) rfl
  simp only [detectBinary, png, jpeg, gif, container, brand, false_and, and_false, if_false,
    ite_self]

theorem detectImageMime_take {n : Nat} (enough : 17 ≤ n) {data : Bytes}
    (early : ¬ LateMarker n data) : detectImageMime (data.take n) = detectImageMime data := by
  have svg : isSvg (data.take n) = isSvg data := by
    rw [Bool.eq_iff_iff, isSvg_take]
    exact and_iff_left early
  unfold detectImageMime
  rw [detectBinary_take (by omega), svg]

theorem detectImageMime_late {n : Nat} (enough : 17 ≤ n) {data : Bytes}
    (late : LateMarker n data) :
    detectImageMime (data.take n) = none ∧
      detectImageMime data = some "image/svg+xml".toList := by
  have none := detectBinary_late enough late
  have whole : isSvg data = true := by
    obtain ⟨marker, known, starts, _⟩ := late
    exact (isSvg_iff data).mpr ⟨marker, known, starts⟩
  have head : ¬ isSvg (data.take n) = true := by
    rw [isSvg_take]
    exact fun both => both.2 late
  unfold detectImageMime
  rw [detectBinary_take (by omega), none]
  exact ⟨if_neg head, if_pos whole⟩

end Y4p
