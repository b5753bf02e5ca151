import Y4p.Storage.Search

/-!
What storage takes for text, in Rust (`is_text_like_mime`) and in SQL (`TEXT_MIME_SQL_PREDICATE`):
where the two part.
-/

namespace Y4p

def textSqlWords : List Str :=
  ["text".toList, "utf8".toList, "json".toList, "xml".toList, "uri-list".toList, "string".toList]

def HoldsWord (mime : Str) : Prop :=
  ∃ word ∈ textSqlWords, Occurs word (untilNul mime)

def HoldsTextHint (mime : Str) : Prop :=
  ∃ hint ∈ textLikeMimeHints, Occurs hint (mimeBase mime)

instance (mime : Str) : Decidable (HoldsWord mime) :=
  inferInstanceAs (Decidable (∃ word ∈ textSqlWords, _))

instance (mime : Str) : Decidable (HoldsTextHint mime) :=
  inferInstanceAs (Decidable (∃ hint ∈ textLikeMimeHints, _))

def BaseIs (mime family : Str) : Prop :=
  startsWithIgnoreAsciiCase (mimeBase mime) family = true

def IsMedia (mime : Str) : Prop :=
  BaseIs mime "image/".toList ∨ BaseIs mime "audio/".toList ∨ BaseIs mime "video/".toList

theorem prefix_untilNul {word text : Str} (whole : nul ∉ word) :
    word <+: (untilNul text).map toAsciiLowercase ↔ word <+: text.map toAsciiLowercase := by
  induction word generalizing text with
  | nil => simp
  | cons c word ih =>
      rw [List.mem_cons, not_or] at whole
      cases text with
      | nil => simp [untilNul]
      | cons first text =>
          by_cases cut : first = nul
          · have itself : toAsciiLowercase nul = nul := by decide
            simp [untilNul, cut, itself, List.cons_prefix_cons, Ne.symm whole.1]
          · have kept : untilNul (first :: text) = first :: untilNul text := by
              simp [untilNul, cut]
            rw [kept, List.map_cons, List.map_cons, List.cons_prefix_cons, List.cons_prefix_cons,
              ih whole.2]

theorem like_image (mime : Str) :
    like "image/%".toList mime = startsWithIgnoreAsciiCase mime "image/".toList := by
  have pattern : (untilNul "image/%".toList).map likeToken =
      Wildcard.literal "image/".toList ++ [.many] := by
    rfl
  have whole : nul ∉ "image/".toList := by decide
  rw [Bool.eq_iff_iff, startsWithIgnoreAsciiCase_iff, like, pattern,
    Wildcard.accepts_literal_append]
  change _ ↔ "image/".toList <+: _
  rw [← prefix_untilNul whole]
  constructor
  · rintro ⟨tail, isLower, _⟩
    exact ⟨tail, isLower.symm⟩
  · rintro ⟨tail, isLower⟩
    exact ⟨tail, isLower.symm, Wildcard.accepts_only_many tail⟩

theorem textMimeSqlPredicate_iff (mime : Str) :
    textMimeSqlPredicate mime = true ↔
      ¬ startsWithIgnoreAsciiCase mime "image/".toList = true ∧ HoldsWord mime := by
  have word : ∀ word ∈ textSqlWords,
      (like (likePattern word) mime = true ↔ Occurs word (untilNul mime)) := by
    have plain : ∀ word ∈ textSqlWords, '%' ∉ word ∧ '_' ∉ word ∧ nul ∉ word := by decide
    exact fun word listed => like_literal (plain word listed) mime
  simp only [textSqlWords, List.mem_cons, List.not_mem_nil, or_false, forall_eq_or_imp,
    forall_eq] at word
  obtain ⟨text, utf8, json, xml, uriList, string⟩ := word
  unfold textMimeSqlPredicate HoldsWord textSqlWords
  simp only [Bool.and_eq_true, Bool.not_eq_true', Bool.or_eq_true, List.mem_cons,
    List.not_mem_nil, or_false, exists_eq_or_imp, exists_eq_left, ← text, ← utf8, ← json, ← xml,
    ← uriList, ← string, like_image, Bool.not_eq_true]
  simp only [or_assoc]
  rfl

theorem isTextLikeMime_iff (mime : Str) :
    isTextLikeMime mime = true ↔ ¬ IsMedia mime ∧ HoldsTextHint mime := by
  unfold isTextLikeMime IsMedia BaseIs HoldsTextHint
  dsimp only
  split
  · rename_i media
    rw [Bool.or_eq_true, Bool.or_eq_true, or_assoc] at media
    exact ⟨fun text => absurd text Bool.false_ne_true, fun text => absurd media text.1⟩
  · rename_i other
    rw [Bool.or_eq_true, Bool.or_eq_true, or_assoc] at other
    rw [and_iff_right other]
    simp only [List.any_eq_true, contains_iff]
    rfl

inductive Astray (mime : Str) : Prop
  -- A sound or a film, some word anywhere in its MIME.
  | media (family : Str) (listed : family ∈ ["audio/".toList, "video/".toList])
      (base : BaseIs mime family) (word : HoldsWord mime)
  -- An image behind blanks.
  | blankImage (base : BaseIs mime "image/".toList)
      (blank : ¬ startsWithIgnoreAsciiCase mime "image/".toList = true) (word : HoldsWord mime)
  -- No text, but for its parameters.
  | parameters (other : ¬ IsMedia mime) (noHint : ¬ HoldsTextHint mime) (word : HoldsWord mime)
  -- A text whose hint SQLite does not come to.
  | cut (other : ¬ IsMedia mime) (hinted : HoldsTextHint mime) (nulInside : nul ∈ mime)
      (noWord : ¬ HoldsWord mime)
  -- XHTML without `+xml`.
  | xhtml (other : ¬ IsMedia mime) (base : Occurs "xhtml".toList (mimeBase mime))
      (noWord : ¬ HoldsWord mime)

theorem HoldsTextHint.word {mime : Str} (hinted : HoldsTextHint mime) :
    HoldsWord mime ∨ Occurs "xhtml".toList (mimeBase mime) ∨ nul ∈ mime := by
  obtain ⟨hint, listed, occurs⟩ := hinted
  have known : ∀ hint ∈ textLikeMimeHints, hint ∈ textSqlWords ∨ hint = "xhtml".toList := by decide
  rcases known hint listed with word | rfl
  · by_cases cut : nul ∈ mime
    · exact .inr (.inr cut)
    · refine .inl ⟨hint, word, ?_⟩
      rw [untilNul_eq cut]
      exact occurs.trans ((mimeBase_part mime).map toAsciiLowercase)
  · exact .inr (.inl occurs)

theorem baseIs_image {mime : Str}
    (image : startsWithIgnoreAsciiCase mime "image/".toList = true) :
    BaseIs mime "image/".toList :=
  startsWith_image image

theorem not_astray_of_image {mime : Str}
    (image : startsWithIgnoreAsciiCase mime "image/".toList = true) : ¬ Astray mime := by
  have base : "image/".toList <+: foldedBase mime :=
    startsWithIgnoreAsciiCase_iff.mp (baseIs_image image)
  have media : IsMedia mime := .inl (baseIs_image image)
  intro astray
  cases astray with
  | media family listed isFamily word =>
      have other : family.map toAsciiLowercase <+: foldedBase mime :=
        startsWithIgnoreAsciiCase_iff.mp isFamily
      have apart : ∀ family ∈ ["audio/".toList, "video/".toList],
          ¬ "image/".toList <+: family.map toAsciiLowercase ∧
            ¬ family.map toAsciiLowercase <+: "image/".toList := by decide
      rcases List.prefix_or_prefix_of_prefix base other with first | second
      · exact (apart family listed).1 first
      · exact (apart family listed).2 second
  | blankImage isImage blank word => exact blank image
  | parameters other noHint word => exact other media
  | cut other hinted nulInside noWord => exact other media
  | xhtml other isXhtml noWord => exact other media

theorem sql_eq_textLike_iff (mime : Str) :
    textMimeSqlPredicate mime = isTextLikeMime mime ↔ ¬ Astray mime := by
  rw [Bool.eq_iff_iff, textMimeSqlPredicate_iff, isTextLikeMime_iff]
  by_cases image : startsWithIgnoreAsciiCase mime "image/".toList = true
  · have media : IsMedia mime := .inl (baseIs_image image)
    exact ⟨fun _ => not_astray_of_image image,
      fun _ => ⟨fun sql => absurd image sql.1, fun rust => absurd media rust.1⟩⟩
  · rw [and_iff_right image]
    by_cases word : HoldsWord mime
    · constructor
      · intro same astray
        obtain ⟨plain, hinted⟩ := same.mp word
        cases astray with
        | media family listed isFamily word =>
            simp only [List.mem_cons, List.not_mem_nil, or_false] at listed
            rcases listed with rfl | rfl
            · exact plain (.inr (.inl isFamily))
            · exact plain (.inr (.inr isFamily))
        | blankImage isImage blank word => exact plain (.inl isImage)
        | parameters other noHint word => exact noHint hinted
        | cut other hinted nulInside noWord => exact noWord word
        | xhtml other isXhtml noWord => exact noWord word
      · intro straight
        refine ⟨fun _ => ?_, fun _ => word⟩
        have plain : ¬ IsMedia mime := by
          rintro (isImage | audio | video)
          · exact straight (.blankImage isImage image word)
          · exact straight (.media _ (.head _) audio word)
          · exact straight (.media _ (.tail _ (.head _)) video word)
        exact ⟨plain, by_contra fun noHint => straight (.parameters plain noHint word)⟩
    · constructor
      · intro same astray
        cases astray with
        | media family listed isFamily held => exact word held
        | blankImage isImage blank held => exact word held
        | parameters other noHint held => exact word held
        | cut other hinted nulInside noWord => exact word (same.mpr ⟨other, hinted⟩)
        | xhtml other isXhtml noWord =>
            exact word (same.mpr ⟨other, _, by decide, isXhtml⟩)
      · intro straight
        refine ⟨fun held => absurd held word, ?_⟩
        rintro ⟨plain, hinted⟩
        rcases hinted.word with held | isXhtml | cut
        · exact held
        · exact absurd (.xhtml plain isXhtml word) straight
        · exact absurd (.cut plain hinted cut word) straight

structure SearchedAsText (mime : Str) : Prop where
  same : textMimeSqlPredicate mime = isTextLikeMime mime
  previewed : ∀ data, (previewOf mime data).isSome = textMimeSqlPredicate mime

/-- The two predicates agree on all MIMEs but five kinds. -/
theorem searchedAsText_iff (mime : Str) : SearchedAsText mime ↔ ¬ Astray mime := by
  rw [← sql_eq_textLike_iff]
  refine ⟨SearchedAsText.same, fun same => ⟨same, fun data => ?_⟩⟩
  rw [same]
  unfold previewOf
  split
  · rename_i text
    rw [text]
    rfl
  · rename_i other
    rw [Bool.not_eq_true] at other
    rw [other]
    rfl

/-- A film with subtitles in its parameters, a MIME with a word in its parameters only, and XHTML
under its short name. -/
theorem searchedAsText_counterexample :
    textMimeSqlPredicate "video/mp4;codecs=text".toList = true ∧
      isTextLikeMime "video/mp4;codecs=text".toList = false ∧
      textMimeSqlPredicate "application/octet-stream;name=a.json".toList = true ∧
      isTextLikeMime "application/octet-stream;name=a.json".toList = false ∧
      textMimeSqlPredicate "application/xhtml".toList = false ∧
      isTextLikeMime "application/xhtml".toList = true ∧
      ¬ ∀ mime, SearchedAsText mime := by
  refine ⟨by decide, by decide, by decide, by decide, by decide, by decide, fun all => ?_⟩
  have same := (all "application/xhtml".toList).same
  exact absurd same (by decide)

end Y4p
