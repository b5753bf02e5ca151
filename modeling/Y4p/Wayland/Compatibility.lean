import Y4p.Wayland.Source

/-!
What `mime_is_compatible` (`handlers/data_control/mod.rs`) tells two MIMEs apart by: their base
types in lower case, with neither side above the other.
-/

namespace Y4p

theorem startsWithIgnoreAsciiCase_congr {a b : Str} (start : Str)
    (same : a.map toAsciiLowercase = b.map toAsciiLowercase) :
    startsWithIgnoreAsciiCase a start = startsWithIgnoreAsciiCase b start := by
  unfold startsWithIgnoreAsciiCase eqIgnoreAsciiCase
  rw [List.map_take, List.map_take, same]

theorem isTextCategory_congr {a b : Str} (same : foldedBase a = foldedBase b) :
    isTextCategory (mimeBase a) = isTextCategory (mimeBase b) :=
  startsWithIgnoreAsciiCase_congr "text/".toList same

theorem isTextAlias_congr {a b : Str} (same : foldedBase a = foldedBase b) :
    isTextAlias (mimeBase a) = isTextAlias (mimeBase b) := by
  unfold foldedBase at same
  unfold isTextAlias eqIgnoreAsciiCase
  rw [same]

theorem isHtmlMime_congr {a b : Str} (same : foldedBase a = foldedBase b) :
    isHtmlMime (mimeBase a) = isHtmlMime (mimeBase b) := by
  rw [isHtmlMime_mimeBase, isHtmlMime_mimeBase]
  unfold foldedBase at same
  unfold isHtmlMime eqIgnoreAsciiCase
  rw [same]

theorem mimeIsCompatible_congr {a b other another : Str} (left : foldedBase a = foldedBase other)
    (right : foldedBase b = foldedBase another) :
    mimeIsCompatible a b = mimeIsCompatible other another := by
  have equal : eqIgnoreAsciiCase (mimeBase a) (mimeBase b) =
      eqIgnoreAsciiCase (mimeBase other) (mimeBase another) := by
    unfold foldedBase at left right
    unfold eqIgnoreAsciiCase
    rw [left, right]
  unfold mimeIsCompatible isTextCompatible
  simp only [equal, isTextCategory_congr left, isTextCategory_congr right, isTextAlias_congr left,
    isTextAlias_congr right, isHtmlMime_congr left, isHtmlMime_congr right]

theorem eqIgnoreAsciiCase_comm (a b : Str) : eqIgnoreAsciiCase a b = eqIgnoreAsciiCase b a :=
  Bool.beq_comm

theorem mimeIsCompatible_comm (a b : Str) : mimeIsCompatible a b = mimeIsCompatible b a := by
  unfold mimeIsCompatible
  dsimp only
  rw [eqIgnoreAsciiCase_comm (mimeBase a), Bool.and_comm (isTextCategory (mimeBase a)),
    Bool.and_comm (isHtmlMime (mimeBase a)),
    Bool.or_comm (isTextAlias (mimeBase a) && isTextCompatible (mimeBase b))]

theorem not_text_of_image {mime : Str}
    (image : startsWithIgnoreAsciiCase (mimeBase mime) "image/".toList = true) :
    isTextCategory (mimeBase mime) = false ∧ isTextAlias (mimeBase mime) = false ∧
      isHtmlMime (mimeBase mime) = false := by
  have starts : "image/".toList <+: foldedBase mime := startsWithIgnoreAsciiCase_iff.mp image
  have apart : ∀ name : Str, "image/".toList.head? ≠ name.head? → name ≠ [] →
      ¬ name <+: foldedBase mime := by
    rintro name differ some ⟨rest, same⟩
    obtain ⟨tail, isFolded⟩ := starts
    cases name with
    | nil => exact some rfl
    | cons first more =>
        rw [← isFolded] at same
        injection same with head _
        exact differ (congrArg Option.some head.symm)
  have whole : ∀ name, foldedBase mime = name → name <+: foldedBase mime := by
    rintro name rfl
    exact List.prefix_rfl
  refine ⟨?_, ?_, ?_⟩
  · rw [Bool.eq_false_iff]
    intro category
    exact apart "text/".toList (by decide) (by decide) (startsWithIgnoreAsciiCase_iff.mp category)
  · rw [Bool.eq_false_iff]
    intro atom
    obtain ⟨name, listed, same⟩ := List.any_eq_true.mp atom
    have unlike : ∀ name ∈ textAliases, "image/".toList.head? ≠
        (name.map toAsciiLowercase).head? ∧ name.map toAsciiLowercase ≠ [] := by decide
    exact apart _ (unlike name listed).1 (unlike name listed).2
      (whole _ (eqIgnoreAsciiCase_iff.mp same))
  · rw [Bool.eq_false_iff, isHtmlMime_mimeBase]
    intro markup
    unfold isHtmlMime at markup
    rcases Bool.or_eq_true_iff.mp markup with same | same
    · exact apart "text/html".toList (by decide) (by decide)
        (whole _ (eqIgnoreAsciiCase_iff.mp same))
    · exact apart "application/xhtml+xml".toList (by decide) (by decide)
        (whole _ (eqIgnoreAsciiCase_iff.mp same))

theorem mimeIsCompatible_image {a b : Str}
    (image : startsWithIgnoreAsciiCase (mimeBase a) "image/".toList = true)
    (compatible : mimeIsCompatible a b = true) :
    eqIgnoreAsciiCase (mimeBase a) (mimeBase b) = true := by
  obtain ⟨category, atom, markup⟩ := not_text_of_image image
  unfold mimeIsCompatible isTextCompatible at compatible
  simpa only [category, atom, markup, Bool.false_and, Bool.and_false, Bool.or_false] using compatible

/-- Compatibility is symmetric and blind to spelling, follows from equal base types, and where
one of them is an image type, from nothing else. -/
theorem mimeIsCompatible_symmetric (a b : Str) :
    mimeIsCompatible a b = mimeIsCompatible b a ∧
    (∀ other another, Relation.EqvGen Respelled a other → Relation.EqvGen Respelled b another →
      mimeIsCompatible other another = mimeIsCompatible a b) ∧
    (eqIgnoreAsciiCase (mimeBase a) (mimeBase b) = true → mimeIsCompatible a b = true) ∧
    (startsWithIgnoreAsciiCase (mimeBase a) "image/".toList = true ∨
        startsWithIgnoreAsciiCase (mimeBase b) "image/".toList = true →
      mimeIsCompatible a b = true → eqIgnoreAsciiCase (mimeBase a) (mimeBase b) = true) := by
  refine ⟨mimeIsCompatible_comm a b, ?_, ?_, ?_⟩
  · intro other another left right
    exact mimeIsCompatible_congr (foldedBase_of_respellings left)
      (foldedBase_of_respellings right)
  · intro equal
    unfold mimeIsCompatible
    simp only [equal, Bool.true_or]
  · rintro (image | image) compatible
    · exact mimeIsCompatible_image image compatible
    · rw [mimeIsCompatible_comm] at compatible
      rw [eqIgnoreAsciiCase_comm]
      exact mimeIsCompatible_image image compatible

example : mimeIsCompatible " Text/Plain ; charset=UTF-8".toList "UTF8_STRING".toList = true ∧
    mimeIsCompatible "image/png".toList "image/webp".toList = false := by decide

end Y4p
