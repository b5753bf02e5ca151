import Y4p.Core.Mimes

/-!
URI lists (`normalize_uri_list` of `crates/core/src/utils.rs`): what becomes of a list of paths
that was written as `file:` URIs.
-/

namespace Y4p

def hexValue (byte : UInt8) : Option Nat :=
  if 0x30 ≤ byte ∧ byte ≤ 0x39 then some (byte.toNat - 0x30)
  else if 0x41 ≤ byte ∧ byte ≤ 0x46 then some (byte.toNat - 0x37)
  else if 0x61 ≤ byte ∧ byte ≤ 0x66 then some (byte.toNat - 0x57)
  else none

-- What `percent_decode` promises: `%` with two hexadecimal digits is a byte, any other byte itself.
structure PercentDecodes (percentDecode : Bytes → Bytes) : Prop where
  nil : percentDecode [] = []
  plain : ∀ byte rest, byte ≠ 0x25 → percentDecode (byte :: rest) = byte :: percentDecode rest
  escape : ∀ high low rest first second, hexValue high = some first → hexValue low = some second →
    percentDecode (0x25 :: high :: low :: rest) =
      UInt8.ofNat (16 * first + second) :: percentDecode rest

inductive Encodes : Bytes → Bytes → Prop
  | nil : Encodes [] []
  | plain (byte : UInt8) {bytes written : Bytes} (visible : isAsciiWhitespace byte = false)
      (literal : byte ≠ 0x25) (rest : Encodes bytes written) :
      Encodes (byte :: bytes) (byte :: written)
  | escape (high low : UInt8) {first second : Nat} {bytes written : Bytes}
      (isHigh : hexValue high = some first) (isLow : hexValue low = some second)
      (rest : Encodes bytes written) :
      Encodes (UInt8.ofNat (16 * first + second) :: bytes) (0x25 :: high :: low :: written)

theorem Encodes.decoded {percentDecode : Bytes → Bytes} (decodes : PercentDecodes percentDecode)
    {bytes written : Bytes} (encodes : Encodes bytes written) : percentDecode written = bytes := by
  induction encodes with
  | nil => exact decodes.nil
  | plain byte visible literal rest ih => rw [decodes.plain byte _ literal, ih]
  | escape high low isHigh isLow rest ih => rw [decodes.escape high low _ _ _ isHigh isLow, ih]

theorem hexValue_visible {byte : UInt8} {value : Nat} (digit : hexValue byte = some value) :
    isAsciiWhitespace byte = false := by
  by_contra blank
  rw [Bool.not_eq_false] at blank
  unfold isAsciiWhitespace at blank
  simp only [Bool.or_eq_true, decide_eq_true_eq] at blank
  have none : hexValue byte = none := by
    rcases blank with (((rfl | rfl) | rfl) | rfl) | rfl <;> decide
  rw [none] at digit
  cases digit

theorem Encodes.visible {bytes written : Bytes} (encodes : Encodes bytes written) :
    ∀ byte ∈ written, isAsciiWhitespace byte = false := by
  induction encodes with
  | nil => exact fun byte member => absurd member List.not_mem_nil
  | plain byte visible literal rest ih => exact List.forall_mem_cons.mpr ⟨visible, ih⟩
  | escape high low isHigh isLow rest ih =>
      simp only [List.forall_mem_cons]
      exact ⟨by decide, hexValue_visible isHigh, hexValue_visible isLow, ih⟩

-- `file:`
def fileScheme : Bytes := [0x66, 0x69, 0x6C, 0x65, 0x3A]

inductive SpellsUri : Bytes → Bytes → Prop
  | emptyAuthority {path written : Bytes} (encodes : Encodes path written) :
      SpellsUri (0x2F :: path) (fileScheme ++ 0x2F :: 0x2F :: 0x2F :: written)
  | authority {path written : Bytes} (host : Bytes) (some : host ≠ [])
      (plain : ∀ byte ∈ host, byte ≠ 0x2F ∧ isAsciiWhitespace byte = false)
      (encodes : Encodes path written) :
      SpellsUri (0x2F :: path) (fileScheme ++ 0x2F :: 0x2F :: (host ++ 0x2F :: written))
  | noAuthority {path written : Bytes} (single : written.head? ≠ some 0x2F)
      (encodes : Encodes path written) :
      SpellsUri (0x2F :: path) (fileScheme ++ 0x2F :: written)

inductive UriLine : Option Bytes → Bytes → Prop
  | uri {path line : Bytes} (spells : SpellsUri path line) : UriLine (some path) line
  | comment (text : Bytes) (inside : 0x0A ∉ text) : UriLine none (0x23 :: text)
  | blank (blanks : Bytes) (blank : ∀ byte ∈ blanks, isAsciiWhitespace byte = true)
      (inside : 0x0A ∉ blanks) : UriLine none blanks

inductive SpellsList : List Bytes → Bytes → Prop
  | nil : SpellsList [] []
  | line {path : Option Bytes} {line : Bytes} (isLine : UriLine path line) (ending : Bytes)
      (ends : ending = [] ∨ ending = [0x0D]) {paths : List Bytes} {rest : Bytes}
      (others : SpellsList paths rest) :
      SpellsList (path.toList ++ paths) (line ++ ending ++ 0x0A :: rest)

def hexDigitByte (value : Nat) : UInt8 :=
  if value < 10 then UInt8.ofNat (0x30 + value) else UInt8.ofNat (0x37 + value)

theorem hexValue_hexDigitByte {value : Nat} (small : value < 16) :
    hexValue (hexDigitByte value) = some value := by
  have table : ∀ value < 16, hexValue (hexDigitByte value) = some value := by decide
  exact table value small

theorem Encodes.exists (bytes : Bytes) : ∃ written, Encodes bytes written := by
  induction bytes with
  | nil => exact ⟨[], .nil⟩
  | cons byte rest ih =>
      obtain ⟨written, encodes⟩ := ih
      have bound := byte.toNat_lt
      have whole : byte = UInt8.ofNat (16 * (byte.toNat / 16) + byte.toNat % 16) := by
        rw [Nat.div_add_mod, UInt8.ofNat_toNat]
      rw [whole]
      exact ⟨_, .escape (hexDigitByte (byte.toNat / 16)) (hexDigitByte (byte.toNat % 16))
        (hexValue_hexDigitByte (by omega)) (hexValue_hexDigitByte (by omega)) encodes⟩

/-- Whatever its bytes, each list of absolute paths can be written. -/
theorem SpellsList.exists {paths : List Bytes} (absolute : ∀ path ∈ paths, path.head? = some 0x2F) :
    ∃ data, SpellsList paths data := by
  induction paths with
  | nil => exact ⟨[], .nil⟩
  | cons path rest ih =>
      rw [List.forall_mem_cons] at absolute
      obtain ⟨data, others⟩ := ih absolute.2
      cases path with
      | nil => cases absolute.1
      | cons slash bytes =>
          cases absolute.1
          obtain ⟨written, encodes⟩ := Encodes.exists bytes
          exact ⟨_, .line (.uri (.emptyAuthority encodes)) [] (.inl rfl) others⟩

section
variable (percentDecode : Bytes → Bytes)

def decodedLine (rawLine : Bytes) : Option Bytes :=
  let line := trimAscii rawLine
  if line = [] ∨ line.head? = some 0x23 then none
  else
    let decoded := percentDecode (stripFileScheme line)
    if decoded = [] then none else some decoded

def addLine (written : Bytes × Bool) (rawLine : Bytes) : Bytes × Bool :=
  match decodedLine percentDecode rawLine with
  | none => written
  | some decoded =>
      ((if written.2 then written.1 ++ [0x0A] else written.1) ++ decoded, true)

theorem normalizeUriList_fold (data : Bytes) :
    normalizeUriList percentDecode data =
      ((data.splitOn 0x0A).foldl (addLine percentDecode) ([], false)).1 := by
  unfold normalizeUriList
  congr 2
  funext written rawLine
  unfold addLine decodedLine
  dsimp only
  split
  · rfl
  · split <;> rfl

theorem foldl_addLine (lines : List Bytes) (out : Bytes) :
    lines.foldl (addLine percentDecode) (out, true) =
      (out ++ (lines.filterMap (decodedLine percentDecode)).flatMap (0x0A :: ·), true) := by
  induction lines generalizing out with
  | nil => rw [List.foldl_nil, List.filterMap_nil, List.flatMap_nil, List.append_nil]
  | cons line rest ih =>
      rw [List.foldl_cons, addLine]
      cases added : decodedLine percentDecode line with
      | none => rw [List.filterMap_cons_none added]; exact ih out
      | some decoded =>
          rw [List.filterMap_cons_some added, List.flatMap_cons]
          dsimp only
          rw [if_pos rfl, ih, List.append_assoc, List.append_assoc]
          rfl

theorem intercalate_cons (separator : UInt8) (first : Bytes) (rest : List Bytes) :
    [separator].intercalate (first :: rest) = first ++ rest.flatMap (separator :: ·) := by
  induction rest generalizing first with
  | nil => rw [List.intercalate_singleton, List.flatMap_nil, List.append_nil]
  | cons second rest ih =>
      rw [List.intercalate_cons_cons, ih, List.flatMap_cons, List.append_assoc]
      rfl

/-- The output is what the lines add, joined by newlines. -/
theorem normalizeUriList_eq (data : Bytes) :
    normalizeUriList percentDecode data =
      [0x0A].intercalate ((data.splitOn 0x0A).filterMap (decodedLine percentDecode)) := by
  rw [normalizeUriList_fold]
  induction data.splitOn 0x0A with
  | nil => rfl
  | cons line rest ih =>
      rw [List.foldl_cons, addLine]
      cases added : decodedLine percentDecode line with
      | none => rw [List.filterMap_cons_none added]; exact ih
      | some decoded =>
          rw [List.filterMap_cons_some added, intercalate_cons]
          dsimp only
          rw [foldl_addLine, if_neg Bool.false_ne_true, List.nil_append]

end

theorem decodedLine_blank {byte : UInt8} (blank : isAsciiWhitespace byte = true)
    (percentDecode : Bytes → Bytes) (line : Bytes) :
    decodedLine percentDecode (byte :: line) = decodedLine percentDecode line := by
  have same : trimAscii (byte :: line) = trimAscii line := by
    unfold trimAscii trimAsciiStart
    rw [List.dropWhile_cons_of_pos blank]
  unfold decodedLine
  rw [same]

/-- A line that is neither blank nor a comment nor a URI stays, if its first byte does. -/
theorem decodedLine_literal {percentDecode : Bytes → Bytes}
    (decodes : PercentDecodes percentDecode) {first : UInt8}
    (visible : isAsciiWhitespace first = false) (plain : first ∉ ([0x23, 0x25, 0x66] : Bytes))
    (line : Bytes) : ∃ decoded, decodedLine percentDecode (first :: line) = some decoded := by
  simp only [List.mem_cons, List.not_mem_nil, or_false, not_or] at plain
  obtain ⟨noComment, literal, noScheme⟩ := plain
  have seen : ∀ byte ∈ [first], isAsciiWhitespace byte = false := by
    intro byte member
    rw [List.mem_singleton.mp member]
    exact visible
  have trimmed : trimAscii (first :: line) = first :: line.rdropWhile isAsciiWhitespace :=
    strip_front isAsciiWhitespace (List.cons_ne_nil first []) seen line
  have bare : ∀ more, stripFileScheme (first :: more) = first :: more := by
    intro more
    have other : [0x66, 0x69, 0x6C, 0x65, 0x3A].isPrefixOf? (first :: more) = none := by
      have differs : ¬ (0x66 : UInt8) = first := fun same => noScheme same.symm
      simp [List.isPrefixOf?, differs]
    unfold stripFileScheme
    rw [other]
  have shown : ¬ (first :: line.rdropWhile isAsciiWhitespace = [] ∨
      (first :: line.rdropWhile isAsciiWhitespace).head? = some 0x23) := by
    rintro (nothing | comment)
    · cases nothing
    · exact noComment (Option.some.inj comment)
  refine ⟨first :: percentDecode (line.rdropWhile isAsciiWhitespace), ?_⟩
  unfold decodedLine
  dsimp only
  rw [trimmed, if_neg shown, bare, decodes.plain first _ literal, if_neg (List.cons_ne_nil _ _)]

theorem decodedLine_ne_nil {percentDecode : Bytes → Bytes} {line decoded : Bytes}
    (added : decodedLine percentDecode line = some decoded) : decoded ≠ [] := by
  unfold decodedLine at added
  dsimp only at added
  split at added
  · cases added
  · split at added
    · cases added
    · rename_i there
      cases added
      exact there

/-- What begins so, but for blanks, is never normalised away. -/
theorem normalizeUriList_literal {percentDecode : Bytes → Bytes}
    (decodes : PercentDecodes percentDecode) {blanks : Bytes}
    (blank : ∀ byte ∈ blanks, isAsciiWhitespace byte = true) {first : UInt8}
    (visible : isAsciiWhitespace first = false) (plain : first ∉ ([0x23, 0x25, 0x66] : Bytes))
    (rest : Bytes) : normalizeUriList percentDecode (blanks ++ first :: rest) ≠ [] := by
  have there : ((blanks ++ first :: rest).splitOn 0x0A).filterMap (decodedLine percentDecode) ≠
      [] := by
    induction blanks with
    | nil =>
        have inside : ¬ (first == 0x0A) = true := by
          intro same
          rw [beq_iff_eq.mp same] at visible
          exact absurd visible (by decide)
        obtain ⟨line, more, isSplit⟩ := List.exists_cons_of_ne_nil (List.splitOn_ne_nil 0x0A rest)
        obtain ⟨decoded, added⟩ := decodedLine_literal decodes visible plain line
        rw [List.nil_append, List.splitOn_cons_eq_if_modifyHead, if_neg inside, isSplit,
          List.modifyHead_cons, List.filterMap_cons_some added]
        exact List.cons_ne_nil _ _
    | cons byte blanks ih =>
        rw [List.forall_mem_cons] at blank
        rw [List.cons_append, List.splitOn_cons_eq_if_modifyHead]
        split
        · rw [List.filterMap_cons_none rfl]
          exact ih blank.2
        · obtain ⟨line, more, isSplit⟩ := List.exists_cons_of_ne_nil
            (List.splitOn_ne_nil 0x0A (blanks ++ first :: rest))
          have later := ih blank.2
          rw [isSplit] at later ⊢
          rwa [List.modifyHead_cons, List.filterMap_cons, decodedLine_blank blank.1,
            ← List.filterMap_cons]
  obtain ⟨decoded, more, isAll⟩ := List.exists_cons_of_ne_nil there
  obtain ⟨line, _, added⟩ := List.mem_filterMap.mp (isAll ▸ List.mem_cons_self)
  rw [normalizeUriList_eq, isAll, intercalate_cons]
  exact fun nothing => decodedLine_ne_nil added (List.append_eq_nil_iff.mp nothing).1

theorem trimAscii_visible {front blanks : Bytes} (some : front ≠ [])
    (visible : ∀ byte ∈ front, isAsciiWhitespace byte = false)
    (blank : ∀ byte ∈ blanks, isAsciiWhitespace byte = true) :
    trimAscii (front ++ blanks) = front := by
  have stripped := strip_front isAsciiWhitespace some visible blanks
  rw [List.rdropWhile_eq_nil_iff.mpr blank, List.append_nil] at stripped
  exact stripped

theorem stripFileScheme_scheme (rest : Bytes) :
    stripFileScheme (fileScheme ++ rest) =
      match [0x2F, 0x2F].isPrefixOf? rest with
      | some after =>
          if [0x2F].isPrefixOf after then after else after.dropWhile fun byte => byte ≠ 0x2F
      | none => rest := rfl

theorem SpellsUri.decoded {percentDecode : Bytes → Bytes}
    (decodes : PercentDecodes percentDecode) {path line : Bytes} (spells : SpellsUri path line) :
    percentDecode (stripFileScheme line) = path ∧ path ≠ [] := by
  have rooted : ∀ {path written : Bytes}, Encodes path written →
      percentDecode (0x2F :: written) = 0x2F :: path := by
    intro path written encodes
    rw [decodes.plain 0x2F written (by decide), encodes.decoded decodes]
  cases spells with
  | emptyAuthority encodes => exact ⟨rooted encodes, List.cons_ne_nil _ _⟩
  | @authority path written host some plain encodes =>
      refine ⟨?_, List.cons_ne_nil _ _⟩
      have stripped : stripFileScheme (fileScheme ++ 0x2F :: 0x2F :: (host ++ 0x2F :: written)) =
          0x2F :: written := by
        cases host with
        | nil => exact absurd rfl some
        | cons first more =>
            have notRoot : ¬ [0x2F].isPrefixOf (first :: more ++ 0x2F :: written) = true := by
              rw [List.isPrefixOf_iff_prefix, List.cons_append, List.cons_prefix_cons]
              exact fun same => (plain first List.mem_cons_self).1 same.1.symm
            have skipped : ∀ byte ∈ first :: more,
                (fun byte : UInt8 => decide (byte ≠ 0x2F)) byte = true :=
              fun byte member => decide_eq_true (plain byte member).1
            rw [stripFileScheme_scheme]
            change (if [0x2F].isPrefixOf (first :: more ++ 0x2F :: written) then _ else _) = _
            rw [if_neg notRoot, List.dropWhile_append_of_pos skipped]
            rfl
      rw [stripped, rooted encodes]
  | @noAuthority path written single encodes =>
      refine ⟨?_, List.cons_ne_nil _ _⟩
      have stripped : stripFileScheme (fileScheme ++ 0x2F :: written) = 0x2F :: written := by
        have apart : [0x2F, 0x2F].isPrefixOf? (0x2F :: written) = none := by
          cases written with
          | nil => rfl
          | cons byte more =>
              have differs : ¬ (0x2F : UInt8) = byte :=
                fun same => single (same ▸ rfl)
              simp [List.isPrefixOf?, differs]
        rw [stripFileScheme_scheme, apart]
      rw [stripped, rooted encodes]

theorem SpellsUri.visible {path line : Bytes} (spells : SpellsUri path line) :
    line ≠ [] ∧ line.head? ≠ some 0x23 ∧ ∀ byte ∈ line, isAsciiWhitespace byte = false := by
  have scheme : ∀ byte ∈ fileScheme, isAsciiWhitespace byte = false :=
    List.all_iff_forall_prop.mp (by decide)
  have slash : isAsciiWhitespace 0x2F = false := by decide
  have opens : ∀ rest : Bytes, (∀ byte ∈ rest, isAsciiWhitespace byte = false) →
      fileScheme ++ rest ≠ [] ∧ (fileScheme ++ rest).head? ≠ some 0x23 ∧
        ∀ byte ∈ fileScheme ++ rest, isAsciiWhitespace byte = false := by
    intro rest visible
    refine ⟨List.cons_ne_nil _ _, ?_, List.forall_mem_append.mpr ⟨scheme, visible⟩⟩
    intro comment
    injection comment with same
    exact absurd same (by decide)
  cases spells with
  | emptyAuthority encodes =>
      refine opens _ ?_
      simp only [List.forall_mem_cons]
      exact ⟨slash, slash, slash, encodes.visible⟩
  | authority host some plain encodes =>
      refine opens _ ?_
      simp only [List.forall_mem_cons, List.forall_mem_append]
      exact ⟨slash, slash, fun byte member => (plain byte member).2, slash, encodes.visible⟩
  | noAuthority single encodes =>
      refine opens _ ?_
      simp only [List.forall_mem_cons]
      exact ⟨slash, encodes.visible⟩

theorem blank_of_ending {ending : Bytes} (ends : ending = [] ∨ ending = [0x0D]) :
    0x0A ∉ ending ∧ ∀ byte ∈ ending, isAsciiWhitespace byte = true := by
  rcases ends with rfl | rfl
  · exact ⟨List.not_mem_nil, fun _ member => absurd member List.not_mem_nil⟩
  · exact ⟨by decide, List.forall_mem_singleton.mpr (by decide)⟩

theorem UriLine.inside {path : Option Bytes} {line : Bytes} (isLine : UriLine path line) :
    0x0A ∉ line := by
  cases isLine with
  | uri spells =>
      intro member
      have visible := spells.visible.2.2 _ member
      exact absurd visible (by decide)
  | comment text inside =>
      rw [List.mem_cons]
      exact fun either => either.elim (by decide) inside
  | blank blanks blank inside => exact inside

theorem UriLine.decoded {percentDecode : Bytes → Bytes} (decodes : PercentDecodes percentDecode)
    {path : Option Bytes} {line : Bytes} (isLine : UriLine path line) {ending : Bytes}
    (ends : ending = [] ∨ ending = [0x0D]) :
    decodedLine percentDecode (line ++ ending) = path := by
  have blankEnd := (blank_of_ending ends).2
  unfold decodedLine
  dsimp only
  cases isLine with
  | uri spells =>
      obtain ⟨some, noComment, visible⟩ := spells.visible
      obtain ⟨isPath, there⟩ := spells.decoded decodes
      rw [trimAscii_visible some visible blankEnd, if_neg (not_or.mpr ⟨some, noComment⟩), isPath,
        if_neg there]
  | comment text inside =>
      have visible : ∀ byte ∈ ([0x23] : Bytes), isAsciiWhitespace byte = false :=
        List.forall_mem_singleton.mpr (by decide)
      have stripped : trimAscii (0x23 :: text ++ ending) =
          [0x23] ++ (text ++ ending).rdropWhile isAsciiWhitespace :=
        strip_front isAsciiWhitespace (List.cons_ne_nil _ _) visible (text ++ ending)
      rw [stripped, if_pos (.inr rfl)]
  | blank blanks blank inside =>
      have all : ∀ byte ∈ line ++ ending, isAsciiWhitespace byte = true :=
        List.forall_mem_append.mpr ⟨blank, blankEnd⟩
      have nothing : trimAscii (line ++ ending) = [] := by
        unfold trimAscii trimAsciiStart
        rw [List.dropWhile_eq_nil_iff.mpr all]
        rfl
      rw [nothing, if_pos (.inl rfl)]

theorem SpellsList.decoded {percentDecode : Bytes → Bytes}
    (decodes : PercentDecodes percentDecode) {paths : List Bytes} {data : Bytes}
    (spells : SpellsList paths data) :
    (data.splitOn 0x0A).filterMap (decodedLine percentDecode) = paths := by
  induction spells with
  | nil => rfl
  | line isLine ending ends others ih =>
      have inside := List.not_mem_append isLine.inside (blank_of_ending ends).1
      rw [List.splitOn_append_cons_self_of_not_mem inside, List.filterMap_cons,
        isLine.decoded decodes ends, ih]
      cases isLine <;> rfl

theorem not_mem_of_mem_splitOn {separator : UInt8} {data piece : Bytes}
    (member : piece ∈ data.splitOn separator) : separator ∉ piece := by
  induction data generalizing piece with
  | nil =>
      rw [List.splitOn_nil, List.mem_singleton] at member
      rw [member]
      exact List.not_mem_nil
  | cons byte rest ih =>
      rw [List.splitOn_cons_eq_if_modifyHead] at member
      split at member
      · rcases List.mem_cons.mp member with rfl | later
        · exact List.not_mem_nil
        · exact ih later
      · rename_i other
        obtain ⟨first, more, isSplit⟩ := List.exists_cons_of_ne_nil
          (List.splitOn_ne_nil separator rest)
        rw [isSplit] at member ih
        rw [List.modifyHead_cons] at member
        rcases List.mem_cons.mp member with rfl | later
        · rw [List.mem_cons]
          rintro (same | inside)
          · exact other (beq_iff_eq.mpr same.symm)
          · exact ih List.mem_cons_self inside
        · exact ih (List.mem_cons_of_mem _ later)

/-- Splitting the normalised list at newlines gives back the paths it was written for, if there is
one and none of them holds a newline. -/
theorem normalizeUriList_lossless_iff (percentDecode : Bytes → Bytes)
    (decodes : PercentDecodes percentDecode) (paths : List Bytes) (data : Bytes)
    (spells : SpellsList paths data) :
    (normalizeUriList percentDecode data).splitOn 0x0A = paths ↔
      paths ≠ [] ∧ ∀ path ∈ paths, 0x0A ∉ path := by
  rw [normalizeUriList_eq, spells.decoded decodes]
  constructor
  · intro same
    refine ⟨?_, fun path member => ?_⟩
    · rintro rfl
      exact absurd same (List.splitOn_ne_nil _ _)
    · rw [← same] at member
      exact not_mem_of_mem_splitOn member
  · rintro ⟨some, inside⟩
    exact List.splitOn_intercalate 0x0A inside some

def samplePercentDecode : Bytes → Bytes
  | [] => []
  | [byte] => [byte]
  | [byte, other] => [byte, other]
  | byte :: high :: low :: rest =>
      if byte = 0x25 then
        match hexValue high, hexValue low with
        | some first, some second => UInt8.ofNat (16 * first + second) :: samplePercentDecode rest
        | _, _ => byte :: samplePercentDecode (high :: low :: rest)
      else byte :: samplePercentDecode (high :: low :: rest)

theorem samplePercentDecode_decodes : PercentDecodes samplePercentDecode := by
  refine ⟨rfl, ?_, ?_⟩
  · intro byte rest literal
    match rest with
    | [] => rfl
    | [other] => rfl
    | high :: low :: others => exact if_neg literal
  · intro high low rest first second isHigh isLow
    rw [samplePercentDecode, if_pos rfl, isHigh, isLow]

def brokenPath : Bytes := [0x2F, 0x61, 0x0A, 0x62]

def brokenUri : Bytes :=
  fileScheme ++ 0x2F :: 0x2F :: 0x2F :: [0x61, 0x25, 0x30, 0x41, 0x62]

theorem brokenUri_spells : SpellsUri brokenPath brokenUri :=
  .emptyAuthority (.plain 0x61 (by decide) (by decide)
    (.escape 0x30 0x41 rfl rfl (.plain 0x62 (by decide) (by decide) .nil)))

/-- The one path comes back as two. -/
theorem normalizeUriList_lossless_counterexample :
    (normalizeUriList samplePercentDecode (brokenUri ++ [0x0A])).splitOn 0x0A =
        [[0x2F, 0x61], [0x62]] ∧
      ¬ ∀ (percentDecode : Bytes → Bytes) (paths : List Bytes) (data : Bytes),
        PercentDecodes percentDecode → (∀ path ∈ paths, path.head? = some 0x2F ∧ 0 ∉ path) →
        SpellsList paths data → (normalizeUriList percentDecode data).splitOn 0x0A = paths := by
  have parted : (normalizeUriList samplePercentDecode (brokenUri ++ [0x0A])).splitOn 0x0A =
      [[0x2F, 0x61], [0x62]] := by decide
  refine ⟨parted, fun lossless => ?_⟩
  have whole := lossless samplePercentDecode [brokenPath] (brokenUri ++ [0x0A])
    samplePercentDecode_decodes (by decide) (.line (.uri brokenUri_spells) [] (.inl rfl) .nil)
  rw [parted] at whole
  exact absurd whole (by decide)

-- A comment, `file://h/a%20b`, a blank line, and `file:/c` behind it.
def sampleUriList : Bytes :=
  [0x23, 0x0D, 0x0A] ++ (fileScheme ++ [0x2F, 0x2F, 0x68, 0x2F, 0x61, 0x25, 0x32, 0x30, 0x62, 0x0D,
    0x0A]) ++ [0x20, 0x0A] ++ (fileScheme ++ [0x2F, 0x63, 0x0A])

theorem sampleUriList_spells :
    SpellsList [[0x2F, 0x61, 0x20, 0x62], [0x2F, 0x63]] sampleUriList :=
  .line (.comment [] List.not_mem_nil) [0x0D] (.inr rfl)
    (.line (.uri (.authority [0x68] (by decide) (List.forall_mem_singleton.mpr (by decide))
        (.plain 0x61 (by decide) (by decide)
          (.escape 0x32 0x30 rfl rfl (.plain 0x62 (by decide) (by decide) .nil)))))
      [0x0D] (.inr rfl)
      (.line (.blank [0x20] (List.forall_mem_singleton.mpr (by decide)) (by decide)) [] (.inl rfl)
        (.line (.uri (.noAuthority (by decide) (.plain 0x63 (by decide) (by decide) .nil))) []
          (.inl rfl) .nil)))

theorem normalizeUriList_lossless_sample :
    (normalizeUriList samplePercentDecode sampleUriList).splitOn 0x0A =
      [[0x2F, 0x61, 0x20, 0x62], [0x2F, 0x63]] :=
  (normalizeUriList_lossless_iff samplePercentDecode samplePercentDecode_decodes _ sampleUriList
    sampleUriList_spells).mpr (by decide)

end Y4p
