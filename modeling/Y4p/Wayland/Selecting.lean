import Y4p.Core.Mimes
import Y4p.Lib.Preference

/-!
Which of an offer's MIMEs a selection is read as (`select_mime` of
`handlers/data_control/device.rs`).
-/

namespace Y4p

def isImageOffer (mime : Str) : Bool :=
  startsWithIgnoreAsciiCase mime "image/".toList

def isTextOffer (mime : Str) : Bool :=
  startsWithIgnoreAsciiCase mime "text/".toList

-- `drop_rtf` is applied where RTF could get through.
def isAdmitted (dropRtf : Bool) (mime : Str) : Bool :=
  !dropRtf || !isRtfMime mime

def isAdmittedText (dropRtf : Bool) (mime : Str) : Bool :=
  isTextOffer mime && isAdmitted dropRtf mime

def selectMime (mimes : List Str) (targetMime : Option Str) (dropRtf : Bool) : Option Str :=
  match targetMime with
  | some target => mimes.find? fun m => mimeBaseEq m target
  | none =>
      (((mimePriorityOrder.findSome? fun p => mimes.find? fun m => mimeBaseEq m p).or
        (mimes.find? isImageOffer)).or
        (mimes.find? (isAdmittedText dropRtf))).or
        (mimes.find? (isAdmitted dropRtf))

def Admissible (dropRtf : Bool) (mime : Str) : Prop :=
  dropRtf = true → isRtfMime mime = false

def selectionRank (mime : Str) : Nat :=
  let place := mimePriorityOrder.findIdx fun p => mimeBaseEq mime p
  if place < mimePriorityOrder.length then place
  else if isImageOffer mime then mimePriorityOrder.length
  else if isTextOffer mime then mimePriorityOrder.length + 1
  else mimePriorityOrder.length + 2

def selectionStages (dropRtf : Bool) : List (Str → Bool) :=
  mimePriorityOrder.map (fun p m => mimeBaseEq m p) ++
    [isImageOffer, isAdmittedText dropRtf, isAdmitted dropRtf]

theorem selectMime_pick (mimes : List Str) (dropRtf : Bool) :
    selectMime mimes none dropRtf = Preference.pick (selectionStages dropRtf) mimes := by
  unfold selectMime Preference.pick selectionStages
  simp only [List.findSome?_append, List.findSome?_map, List.findSome?_cons, List.findSome?_nil,
    Option.or_assoc]
  congr 1
  cases mimes.find? isImageOffer with
  | some image => rfl
  | none =>
      cases mimes.find? (isAdmittedText dropRtf) with
      | some text => rfl
      | none => cases mimes.find? (isAdmitted dropRtf) <;> rfl

theorem admissible_iff {dropRtf : Bool} {mime : Str} :
    Admissible dropRtf mime ↔ isAdmitted dropRtf mime = true := by
  unfold Admissible isAdmitted
  cases dropRtf <;> simp

theorem selectionStages_length (dropRtf : Bool) :
    (selectionStages dropRtf).length = mimePriorityOrder.length + 3 := rfl

theorem grade_stages (dropRtf : Bool) (mime : Str) :
    Preference.grade (selectionStages dropRtf) mime =
      if mimePriorityOrder.findIdx (fun p => mimeBaseEq mime p) < mimePriorityOrder.length then
        mimePriorityOrder.findIdx fun p => mimeBaseEq mime p
      else
        Preference.grade [isImageOffer, isAdmittedText dropRtf, isAdmitted dropRtf] mime +
          mimePriorityOrder.length := by
  unfold Preference.grade selectionStages
  rw [List.findIdx_append, List.findIdx_map, List.length_map]
  rfl

theorem grade_admissible {dropRtf : Bool} {mime : Str} (admissible : Admissible dropRtf mime) :
    Preference.grade (selectionStages dropRtf) mime = selectionRank mime := by
  have passes := admissible_iff.mp admissible
  rw [grade_stages]
  unfold selectionRank
  dsimp only
  by_cases placed : mimePriorityOrder.findIdx (fun p => mimeBaseEq mime p) <
      mimePriorityOrder.length
  · rw [if_pos placed, if_pos placed]
  · rw [if_neg placed, if_neg placed]
    cases image : isImageOffer mime with
    | true =>
        rw [Preference.grade_cons_of_pos image, if_pos rfl, Nat.zero_add]
    | false =>
        rw [Preference.grade_cons_of_neg image, if_neg Bool.false_ne_true]
        cases text : isTextOffer mime with
        | true =>
            have second : isAdmittedText dropRtf mime = true := by
              rw [isAdmittedText, text, passes, Bool.and_self]
            rw [Preference.grade_cons_of_pos second, if_pos rfl]
            omega
        | false =>
            have second : isAdmittedText dropRtf mime = false := by
              rw [isAdmittedText, text, Bool.false_and]
            rw [Preference.grade_cons_of_neg second, Preference.grade_cons_of_pos passes,
              if_neg Bool.false_ne_true]
            omega

theorem foldedBase_of_rtf {mime : Str} (rtf : isRtfMime mime = true) :
    foldedBase mime = "text/rtf".toList ∨ foldedBase mime = "application/rtf".toList := by
  unfold isRtfMime at rtf
  rcases Bool.or_eq_true_iff.mp rtf with same | same
  · exact .inl (eqIgnoreAsciiCase_iff.mp same)
  · exact .inr (eqIgnoreAsciiCase_iff.mp same)

theorem foldedBase_of_image {mime : Str} (image : isImageOffer mime = true) :
    "image/".toList <+: foldedBase mime :=
  startsWithIgnoreAsciiCase_iff.mp (startsWith_image image)

theorem grade_refused {mime : Str} (rtf : isRtfMime mime = true) :
    Preference.grade (selectionStages true) mime = (selectionStages true).length := by
  have base := foldedBase_of_rtf rtf
  have unlisted : ∀ p ∈ mimePriorityOrder, foldedBase p ≠ "text/rtf".toList ∧
      foldedBase p ≠ "application/rtf".toList := by decide
  have notImage : isImageOffer mime = false := by
    rw [Bool.eq_false_iff]
    intro image
    have starts := foldedBase_of_image image
    rcases base with same | same
    · rw [same] at starts
      exact absurd starts (by decide)
    · rw [same] at starts
      exact absurd starts (by decide)
  rw [Preference.grade_eq_length]
  intro stage listed
  rcases List.mem_append.mp listed with order | fallback
  · obtain ⟨p, member, rfl⟩ := List.mem_map.mp order
    rw [Bool.eq_false_iff]
    intro equal
    have same := mimeBaseEq_iff.mp equal
    rcases base with text | application
    · exact (unlisted p member).1 (same.symm.trans text)
    · exact (unlisted p member).2 (same.symm.trans application)
  · simp only [List.mem_cons, List.not_mem_nil, or_false] at fallback
    rcases fallback with rfl | rfl | rfl
    · exact notImage
    · rw [isAdmittedText, isAdmitted, rtf, Bool.not_true, Bool.or_self, Bool.and_false]
    · rw [isAdmitted, rtf, Bool.not_true, Bool.or_self]

theorem grade_inadmissible {dropRtf : Bool} {mime : Str} (refused : ¬ Admissible dropRtf mime) :
    Preference.grade (selectionStages dropRtf) mime = (selectionStages dropRtf).length := by
  unfold Admissible at refused
  rw [Classical.not_imp, Bool.not_eq_false] at refused
  rw [refused.1]
  exact grade_refused refused.2

theorem selectionRank_lt (mime : Str) : selectionRank mime < mimePriorityOrder.length + 3 := by
  unfold selectionRank
  dsimp only
  split
  · omega
  · split
    · omega
    · split <;> omega

theorem selectMime_none_iff {mimes : List Str} (some : mimes ≠ []) (dropRtf : Bool) :
    selectMime mimes none dropRtf = none ↔
      dropRtf = true ∧ ∀ mime ∈ mimes, isRtfMime mime = true := by
  rw [selectMime_pick, Preference.pick_eq_none]
  have refused : ∀ mime, Preference.grade (selectionStages dropRtf) mime =
      (selectionStages dropRtf).length ↔ ¬ Admissible dropRtf mime := by
    intro mime
    constructor
    · intro full admissible
      rw [grade_admissible admissible, selectionStages_length] at full
      exact absurd full (Nat.ne_of_lt (selectionRank_lt mime))
    · exact grade_inadmissible
  simp only [refused, Admissible, Classical.not_imp, Bool.not_eq_false]
  obtain ⟨mime, member⟩ := List.exists_mem_of_ne_nil mimes some
  exact ⟨fun all => ⟨(all mime member).1, fun other listed => (all other listed).2⟩,
    fun all other listed => ⟨all.1, all.2 other listed⟩⟩

theorem selectMime_best {mimes : List Str} {dropRtf : Bool} {best : Str}
    (chosen : selectMime mimes none dropRtf = some best) :
    ∃ before after, mimes = before ++ best :: after ∧ Admissible dropRtf best ∧
      (∀ other ∈ before, Admissible dropRtf other → selectionRank best < selectionRank other) ∧
      ∀ other ∈ after, Admissible dropRtf other → selectionRank best ≤ selectionRank other := by
  rw [selectMime_pick] at chosen
  obtain ⟨before, after, rfl, passes, earlier, later⟩ := Preference.pick_best chosen
  have admissible : Admissible dropRtf best := by
    by_contra refused
    rw [grade_inadmissible refused] at passes
    exact Nat.lt_irrefl _ passes
  refine ⟨before, after, rfl, admissible, ?_, ?_⟩
  · intro other member also
    have ranks := earlier other member
    rwa [grade_admissible admissible, grade_admissible also] at ranks
  · intro other member also
    have ranks := later other member
    rwa [grade_admissible admissible, grade_admissible also] at ranks

/-- Without a target the first of the best admissible offers is chosen, none only where every
offer is refused as RTF; with one, the first offer of that base type. -/
theorem selectMime_optimal (mimes : List Str) (some : mimes ≠ []) (dropRtf : Bool) :
    (selectMime mimes none dropRtf = none ↔
      dropRtf = true ∧ ∀ mime ∈ mimes, isRtfMime mime = true) ∧
    (∀ best, selectMime mimes none dropRtf = .some best →
      ∃ before after, mimes = before ++ best :: after ∧ Admissible dropRtf best ∧
        (∀ other ∈ before, Admissible dropRtf other →
          selectionRank best < selectionRank other) ∧
        ∀ other ∈ after, Admissible dropRtf other →
          selectionRank best ≤ selectionRank other) ∧
    ∀ target,
      (∀ best, selectMime mimes (.some target) dropRtf = .some best ↔
        ∃ before after, mimes = before ++ best :: after ∧ mimeBaseEq best target = true ∧
          ∀ other ∈ before, mimeBaseEq other target = false) ∧
      (selectMime mimes (.some target) dropRtf = none ↔
        ∀ mime ∈ mimes, mimeBaseEq mime target = false) := by
  refine ⟨selectMime_none_iff some dropRtf, fun _ chosen => selectMime_best chosen, ?_⟩
  intro target
  unfold selectMime
  dsimp only
  constructor
  · intro best
    rw [List.find?_eq_some_iff_append]
    simp only [Bool.not_eq_true']
    constructor
    · rintro ⟨passes, before, after, isMimes, earlier⟩
      exact ⟨before, after, isMimes, passes, earlier⟩
    · rintro ⟨before, after, isMimes, passes, earlier⟩
      exact ⟨passes, before, after, isMimes, earlier⟩
  · simp only [List.find?_eq_none, Bool.not_eq_true]

def sampleOffers : List Str :=
  ["text/rtf".toList, "TEXT/CSS".toList, "Image/X".toList, "text/html".toList]

theorem selectMime_optimal_sample :
    selectMime sampleOffers none true = some "text/html".toList ∧
      (selectMime sampleOffers none true = none ↔
        true = true ∧ ∀ mime ∈ sampleOffers, isRtfMime mime = true) ∧
      (∀ best, selectMime sampleOffers none true = some best →
        ∃ before after, sampleOffers = before ++ best :: after ∧ Admissible true best ∧
          (∀ other ∈ before, Admissible true other → selectionRank best < selectionRank other) ∧
          ∀ other ∈ after, Admissible true other → selectionRank best ≤ selectionRank other) ∧
      ∀ target,
        (∀ best, selectMime sampleOffers (some target) true = some best ↔
          ∃ before after, sampleOffers = before ++ best :: after ∧
            mimeBaseEq best target = true ∧ ∀ other ∈ before, mimeBaseEq other target = false) ∧
        (selectMime sampleOffers (some target) true = none ↔
          ∀ mime ∈ sampleOffers, mimeBaseEq mime target = false) :=
  ⟨by decide, selectMime_optimal sampleOffers (by decide) true⟩

end Y4p
