import Y4p.Core.Utils

/-! Tag stripping (`strip_html_tags` of `crates/core/src/utils.rs`) as an operation on bytes. -/

namespace Y4p

def tagAfter : Bool → Bytes → Bool
  | inTag, [] => inTag
  | inTag, byte :: rest =>
      if byte = 0x3C then tagAfter true rest
      else if byte = 0x3E then tagAfter false rest
      else tagAfter inTag rest

def EndsInTag (data : Bytes) : Prop :=
  ∃ before inside, data = before ++ 0x3C :: inside ∧ 0x3E ∉ inside

theorem not_endsInTag_nil : ¬ EndsInTag [] := by
  rintro ⟨before, inside, empty, _⟩
  exact List.append_ne_nil_of_right_ne_nil before (List.cons_ne_nil _ _) empty.symm

theorem endsInTag_cons {byte : UInt8} {rest : Bytes} :
    EndsInTag (byte :: rest) ↔ byte = 0x3C ∧ 0x3E ∉ rest ∨ EndsInTag rest := by
  constructor
  · rintro ⟨before, inside, same, unclosed⟩
    cases before with
    | nil =>
        cases same
        exact .inl ⟨rfl, unclosed⟩
    | cons first before =>
        cases same
        exact .inr ⟨before, inside, rfl, unclosed⟩
  · rintro (⟨rfl, unclosed⟩ | ⟨before, inside, rfl, unclosed⟩)
    · exact ⟨[], rest, rfl, unclosed⟩
    · exact ⟨byte :: before, inside, rfl, unclosed⟩

theorem tagAfter_iff (inTag : Bool) (data : Bytes) :
    tagAfter inTag data = true ↔ EndsInTag data ∨ inTag = true ∧ 0x3E ∉ data := by
  induction data generalizing inTag with
  | nil =>
      rw [tagAfter, or_iff_right not_endsInTag_nil]
      exact (and_iff_left List.not_mem_nil).symm
  | cons byte rest ih =>
      rw [tagAfter, endsInTag_cons, List.mem_cons, not_or]
      split
      · rename_i isOpen
        rw [ih true]
        constructor
        · rintro (later | ⟨_, unclosed⟩)
          · exact .inl (.inr later)
          · exact .inl (.inl ⟨isOpen, unclosed⟩)
        · rintro ((⟨_, unclosed⟩ | later) | ⟨_, _, unclosed⟩)
          · exact .inr ⟨rfl, unclosed⟩
          · exact .inl later
          · exact .inr ⟨rfl, unclosed⟩
      · rename_i noOpen
        split
        · rename_i close
          rw [ih false]
          constructor
          · rintro (later | ⟨outside, _⟩)
            · exact .inl (.inr later)
            · cases outside
          · rintro ((⟨isOpen, _⟩ | later) | ⟨_, noClose, _⟩)
            · exact absurd isOpen noOpen
            · exact .inl later
            · exact absurd close.symm noClose
        · rename_i noClose
          rw [ih inTag]
          simp only [noOpen, false_and, false_or, Ne.symm noClose, not_false_eq_true, true_and]

/-- Outside of tags means: the bytes do not end in an open one. -/
theorem tagAfter_false {data : Bytes} (closed : ¬ EndsInTag data) :
    tagAfter false data = false := by
  rw [← Bool.not_eq_true, tagAfter_iff]
  rintro (ends | ⟨outside, _⟩)
  · exact closed ends
  · cases outside

theorem stripTagsFrom_append (inTag : Bool) (first second : Bytes) :
    stripTagsFrom inTag (first ++ second) =
      stripTagsFrom inTag first ++ stripTagsFrom (tagAfter inTag first) second := by
  induction first generalizing inTag with
  | nil => rfl
  | cons byte rest ih =>
      simp only [List.cons_append, stripTagsFrom, tagAfter]
      split
      · exact ih true
      · by_cases close : byte = 0x3E
        · cases inTag with
          | true =>
              simp only [close, and_self, if_true]
              exact ih false
          | false =>
              simp only [close, Bool.false_eq_true, and_false, if_false, if_true, List.cons_append]
              rw [ih false]
        · cases inTag with
          | true =>
              simp only [close, false_and, if_false, if_true]
              exact ih true
          | false =>
              simp only [close, false_and, if_false, Bool.false_eq_true, List.cons_append]
              rw [ih false]

theorem stripTagsFrom_sublist (inTag : Bool) (data : Bytes) :
    (stripTagsFrom inTag data).Sublist data := by
  induction data generalizing inTag with
  | nil => exact List.nil_sublist []
  | cons byte rest ih =>
      rw [stripTagsFrom]
      split
      · exact (ih true).cons byte
      · split
        · exact (ih false).cons byte
        · split
          · exact (ih true).cons byte
          · exact (ih false).cons_cons byte

theorem stripTagsFrom_no_open (inTag : Bool) (data : Bytes) : 0x3C ∉ stripTagsFrom inTag data := by
  induction data generalizing inTag with
  | nil => exact List.not_mem_nil
  | cons byte rest ih =>
      rw [stripTagsFrom]
      split
      · exact ih true
      · rename_i other
        split
        · exact ih false
        · split
          · exact ih true
          · exact List.not_mem_cons_of_ne_of_not_mem (Ne.symm other) (ih false)

theorem stripTagsFrom_plain {data : Bytes} (plain : 0x3C ∉ data) :
    stripTagsFrom false data = data := by
  induction data with
  | nil => rfl
  | cons byte rest ih =>
      rw [List.mem_cons, not_or] at plain
      rw [stripTagsFrom, if_neg (Ne.symm plain.1), if_neg fun both => Bool.false_ne_true both.2,
        if_neg Bool.false_ne_true, ih plain.2]

structure IsPiece (piece : Bytes) : Prop where
  filled : piece ≠ []
  whole : ∀ rest, (decodeStep (piece ++ rest)).1.isSome = true ∧
    (decodeStep (piece ++ rest)).2 = piece.length
  bytes : (∃ byte, piece = [byte]) ∨ ∀ byte ∈ piece, 0x80 ≤ byte

theorem low_continuation {byte : UInt8} (isCont : isContinuation byte = true) : 0x80 ≤ byte := by
  rw [isContinuation, Bool.and_eq_true, decide_eq_true_eq] at isCont
  exact isCont.1

theorem low_secondOfThree {lead second : UInt8} (follows : secondOfThree lead second = true) :
    0x80 ≤ second := by
  rw [secondOfThree] at follows
  split at follows
  · rw [Bool.and_eq_true, decide_eq_true_eq] at follows
    exact UInt8.le_trans (by decide) follows.1
  · split at follows
    · rw [Bool.and_eq_true, decide_eq_true_eq] at follows
      exact follows.1
    · exact low_continuation follows

theorem low_secondOfFour {lead second : UInt8} (follows : secondOfFour lead second = true) :
    0x80 ≤ second := by
  rw [secondOfFour] at follows
  split at follows
  · rw [Bool.and_eq_true, decide_eq_true_eq] at follows
    exact UInt8.le_trans (by decide) follows.1
  · split at follows
    · rw [Bool.and_eq_true, decide_eq_true_eq] at follows
      exact follows.1
    · exact low_continuation follows

theorem isPiece_one {lead : UInt8} (low : lead < 0x80) : IsPiece [lead] where
  filled := List.cons_ne_nil lead []
  whole := fun rest => by
    simp only [List.singleton_append, decodeStep, if_pos low]
    exact ⟨rfl, rfl⟩
  bytes := .inl ⟨lead, rfl⟩

theorem isPiece_two {lead second : UInt8} (first : 0xC2 ≤ lead ∧ lead ≤ 0xDF)
    (isSecond : isContinuation second = true) : IsPiece [lead, second] where
  filled := List.cons_ne_nil lead [second]
  whole := fun rest => by
    have high : ¬ lead < 0x80 := by grind
    simp only [List.cons_append, decodeStep, if_neg high, if_pos first, if_pos isSecond]
    exact ⟨rfl, rfl⟩
  bytes := .inr (List.forall_mem_cons.mpr ⟨UInt8.le_trans (by decide) first.1,
    List.forall_mem_singleton.mpr (low_continuation isSecond)⟩)

theorem isPiece_three {lead second third : UInt8} (first : 0xE0 ≤ lead ∧ lead ≤ 0xEF)
    (isSecond : secondOfThree lead second = true) (isThird : isContinuation third = true) :
    IsPiece [lead, second, third] where
  filled := List.cons_ne_nil lead [second, third]
  whole := fun rest => by
    have high : ¬ lead < 0x80 := by grind
    have noTwo : ¬ (0xC2 ≤ lead ∧ lead ≤ 0xDF) := by grind
    simp only [List.cons_append, decodeStep, if_neg high, if_neg noTwo, if_pos first,
      if_pos isSecond, if_pos isThird]
    exact ⟨rfl, rfl⟩
  bytes := .inr (List.forall_mem_cons.mpr ⟨UInt8.le_trans (by decide) first.1,
    List.forall_mem_cons.mpr ⟨low_secondOfThree isSecond,
      List.forall_mem_singleton.mpr (low_continuation isThird)⟩⟩)

theorem isPiece_four {lead second third fourth : UInt8} (first : 0xF0 ≤ lead ∧ lead ≤ 0xF4)
    (isSecond : secondOfFour lead second = true) (isThird : isContinuation third = true)
    (isFourth : isContinuation fourth = true) : IsPiece [lead, second, third, fourth] where
  filled := List.cons_ne_nil lead [second, third, fourth]
  whole := fun rest => by
    have high : ¬ lead < 0x80 := by grind
    have noTwo : ¬ (0xC2 ≤ lead ∧ lead ≤ 0xDF) := by grind
    have noThree : ¬ (0xE0 ≤ lead ∧ lead ≤ 0xEF) := by grind
    simp only [List.cons_append, decodeStep, if_neg high, if_neg noTwo, if_neg noThree,
      if_pos first, if_pos isSecond, if_pos isThird, if_pos isFourth]
    exact ⟨rfl, rfl⟩
  bytes := .inr (List.forall_mem_cons.mpr ⟨UInt8.le_trans (by decide) first.1,
    List.forall_mem_cons.mpr ⟨low_secondOfFour isSecond,
      List.forall_mem_cons.mpr ⟨low_continuation isThird,
        List.forall_mem_singleton.mpr (low_continuation isFourth)⟩⟩⟩)

theorem decodeStep_piece {data : Bytes} (decoded : (decodeStep data).1.isSome = true) :
    ∃ piece rest, data = piece ++ rest ∧ IsPiece piece := by
  unfold decodeStep at decoded
  split at decoded
  · cases decoded
  · rename_i lead tail
    split at decoded
    · rename_i low
      exact ⟨[lead], tail, rfl, isPiece_one low⟩
    · split at decoded
      · rename_i two
        split at decoded
        · rename_i second rest
          split at decoded
          · rename_i isSecond
            exact ⟨[lead, second], rest, rfl, isPiece_two two isSecond⟩
          · cases decoded
        · cases decoded
      · split at decoded
        · rename_i three
          split at decoded
          · rename_i second third rest
            split at decoded
            · rename_i isSecond
              split at decoded
              · rename_i isThird
                exact ⟨[lead, second, third], rest, rfl, isPiece_three three isSecond isThird⟩
              · cases decoded
            · cases decoded
          · cases decoded
          · cases decoded
        · split at decoded
          · rename_i four
            split at decoded
            · rename_i second third fourth rest
              split at decoded
              · rename_i isSecond
                split at decoded
                · rename_i isThird
                  split at decoded
                  · rename_i isFourth
                    exact ⟨[lead, second, third, fourth], rest, rfl,
                      isPiece_four four isSecond isThird isFourth⟩
                  · cases decoded
                · cases decoded
              · cases decoded
            · cases decoded
            · cases decoded
            · cases decoded
          · cases decoded

theorem decodeFrom_pieces {fuel : Nat} {data : Bytes} (enough : data.length ≤ fuel)
    (valid : (decodeFrom fuel data).all Option.isSome = true) :
    ∃ pieces : List Bytes, data = pieces.flatten ∧ ∀ piece ∈ pieces, IsPiece piece := by
  induction fuel generalizing data with
  | zero =>
      cases List.eq_nil_of_length_eq_zero (Nat.le_zero.mp enough)
      exact ⟨[], rfl, fun _ member => absurd member List.not_mem_nil⟩
  | succ fuel ih =>
      cases data with
      | nil => exact ⟨[], rfl, fun _ member => absurd member List.not_mem_nil⟩
      | cons byte tail =>
          rw [decodeFrom, List.all_cons, Bool.and_eq_true] at valid
          · obtain ⟨piece, rest, same, isPiece⟩ := decodeStep_piece valid.1
            have step := (isPiece.whole rest).2
            have later := valid.2
            have filled := List.length_pos_of_ne_nil isPiece.filled
            rw [same] at later enough
            rw [step, List.drop_left] at later
            rw [List.length_append] at enough
            obtain ⟨pieces, flat, each⟩ := ih (by omega) later
            refine ⟨piece :: pieces, ?_, List.forall_mem_cons.mpr ⟨isPiece, each⟩⟩
            rw [same, flat, List.flatten_cons]
          · exact List.cons_ne_nil byte tail

theorem pieces_decodeFrom {fuel : Nat} {pieces : List Bytes}
    (each : ∀ piece ∈ pieces, IsPiece piece) :
    (decodeFrom fuel pieces.flatten).all Option.isSome = true := by
  induction fuel generalizing pieces with
  | zero => rfl
  | succ fuel ih =>
      cases pieces with
      | nil => rfl
      | cons piece pieces =>
          obtain ⟨isPiece, each⟩ := List.forall_mem_cons.mp each
          have step := isPiece.whole pieces.flatten
          rw [List.flatten_cons, decodeFrom, List.all_cons, Bool.and_eq_true, step.2,
            List.drop_left]
          · exact ⟨step.1, ih each⟩
          · exact List.append_ne_nil_of_left_ne_nil isPiece.filled _

/-- UTF-8 is what the bytes of whole characters make up. -/
theorem isUtf8_iff (data : Bytes) :
    isUtf8 data = true ↔
      ∃ pieces : List Bytes, data = pieces.flatten ∧ ∀ piece ∈ pieces, IsPiece piece := by
  constructor
  · exact decodeFrom_pieces (Nat.le_refl data.length)
  · rintro ⟨pieces, rfl, each⟩
    exact pieces_decodeFrom each

theorem isUtf8_ascii {data : Bytes} (ascii : ∀ byte ∈ data, byte < 0x80) : isUtf8 data = true := by
  refine (isUtf8_iff data).mpr ⟨data.map fun byte => [byte], ?_, ?_⟩
  · exact List.flatMap_singleton' data |>.symm
  · intro piece member
    obtain ⟨byte, among, rfl⟩ := List.mem_map.mp member
    exact isPiece_one (ascii byte among)

theorem stripTagsFrom_piece (inTag : Bool) {piece : Bytes} (isPiece : IsPiece piece) :
    stripTagsFrom inTag piece = piece ∨ stripTagsFrom inTag piece = [] := by
  obtain (⟨byte, rfl⟩ | high) := isPiece.bytes
  · simp only [stripTagsFrom]
    split
    · exact .inr rfl
    · split
      · exact .inr rfl
      · split
        · exact .inr rfl
        · exact .inl rfl
  · clear isPiece
    cases inTag with
    | false => exact .inl (stripTagsFrom_plain fun isOpen => absurd (high _ isOpen) (by decide))
    | true =>
        refine .inr ?_
        induction piece with
        | nil => rfl
        | cons byte rest ih =>
            obtain ⟨first, others⟩ := List.forall_mem_cons.mp high
            have noOpen : byte ≠ 0x3C := by rintro rfl; exact absurd first (by decide)
            have noClose : byte ≠ 0x3E := by rintro rfl; exact absurd first (by decide)
            rw [stripTagsFrom, if_neg noOpen, if_neg fun both => noClose both.1, if_pos rfl,
              ih others]

theorem stripTagsFrom_pieces (inTag : Bool) {pieces : List Bytes}
    (each : ∀ piece ∈ pieces, IsPiece piece) :
    ∃ kept : List Bytes, stripTagsFrom inTag pieces.flatten = kept.flatten ∧
      ∀ piece ∈ kept, IsPiece piece := by
  induction pieces generalizing inTag with
  | nil => exact ⟨[], rfl, each⟩
  | cons piece pieces ih =>
      obtain ⟨isPiece, each⟩ := List.forall_mem_cons.mp each
      obtain ⟨kept, flat, all⟩ := ih (tagAfter inTag piece) each
      rw [List.flatten_cons, stripTagsFrom_append, flat]
      obtain (same | gone) := stripTagsFrom_piece inTag isPiece
      · exact ⟨piece :: kept, by rw [same, List.flatten_cons],
          List.forall_mem_cons.mpr ⟨isPiece, all⟩⟩
      · exact ⟨kept, by rw [gone, List.nil_append], all⟩

theorem isUtf8_stripHtmlTags {data : Bytes} (valid : isUtf8 data = true) :
    isUtf8 (stripHtmlTags data) = true := by
  obtain ⟨pieces, rfl, each⟩ := (isUtf8_iff data).mp valid
  exact (isUtf8_iff _).mpr (stripTagsFrom_pieces false each)

/-- Stripping only drops bytes: no `<` is left, a text without one stays, a second pass changes
nothing, UTF-8 stays UTF-8, and where no tag is open it goes piece by piece. -/
theorem stripHtmlTags_laws (data : Bytes) :
    (stripHtmlTags data).Sublist data ∧
      0x3C ∉ stripHtmlTags data ∧
      (0x3C ∉ data → stripHtmlTags data = data) ∧
      stripHtmlTags (stripHtmlTags data) = stripHtmlTags data ∧
      (isUtf8 data = true → isUtf8 (stripHtmlTags data) = true) ∧
      (¬ EndsInTag data → ∀ more : Bytes,
        stripHtmlTags (data ++ more) = stripHtmlTags data ++ stripHtmlTags more) := by
  have stripped : 0x3C ∉ stripHtmlTags data := stripTagsFrom_no_open false data
  refine ⟨stripTagsFrom_sublist false data, stripped, stripTagsFrom_plain,
    stripTagsFrom_plain stripped, isUtf8_stripHtmlTags, fun closed more => ?_⟩
  rw [stripHtmlTags, stripTagsFrom_append, tagAfter_false closed]
  rfl

end Y4p
