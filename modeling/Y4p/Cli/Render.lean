import Y4p.Core.Mimes
import Y4p.Core.Number
import Y4p.Lib.Data
import Y4p.Storage.Listing

/-!
What `y4p list` and `y4p search` print (`render_list` of `crates/cli/src/list.rs` and
`crates/cli/src/formatter.rs`), and how the raw lines are read back.
-/

namespace Y4p

def widthId : Nat := 6
def widthWhen : Nat := 8
def widthSize : Nat := 11
def previewWidth : Nat := 42
def ellipsis : Str := "...".toList
def tableSep : Str := " | ".toList
def tableLineChar : Str := "-".toList

def labelImage : Str := "[IMG]".toList
def labelText : Str := "[TXT]".toList
def labelData : Str := "[BIN]".toList
def labelFile : Str := "[FIL]".toList

def logInfo : Str := "info: ".toList

-- The crate `unicode-width`: the columns of a character, none for a control character.
structure UnicodeWidth where
  char : Char → Option Nat
  str : Str → Nat

structure UnicodeWidth.Documented (width : UnicodeWidth) : Prop where
  space : width.char ' ' = some 1
  dot : width.char '.' = some 1
  ellipsis : width.str ellipsis = 3

def println (text : Str) : Str :=
  text ++ ['\n']

-- `{:>n}`
def rightAlign (n : Nat) (text : Str) : Str :=
  List.replicate (n - text.length) ' ' ++ text

def intText (n : Int) : Str :=
  if n < 0 then '-' :: Nat.toDigits 10 n.natAbs else Nat.toDigits 10 n.natAbs

-- `now` is the clock's milliseconds.
def formatTime (now timestampMs : UInt64) : Str :=
  let diffSec := (now.toNat - timestampMs.toNat) / 1000
  if diffSec < 60 then Nat.toDigits 10 diffSec ++ "s ago".toList
  else if diffSec < 3600 then Nat.toDigits 10 (diffSec / 60) ++ "m ago".toList
  else Nat.toDigits 10 (diffSec / 3600) ++ "h ago".toList

section
variable (width : UnicodeWidth)

def charWidth (c : Char) : Nat :=
  (width.char c).getD 0

-- `replace(['\\n', '\\r', '\\t'], " ")`
def cleanText (text : Str) : Str :=
  text.map fun c => if c = '\n' ∨ c = '\r' ∨ c = '\t' then ' ' else c

-- The loop of `preview_content`: what it pushes from here on, and the width it ends with.
def fitPreview : Str → Nat → Str × Nat
  | [], currentWidth => ([], currentWidth)
  | c :: rest, currentWidth =>
      if previewWidth - width.str ellipsis < currentWidth + charWidth width c then
        (ellipsis, currentWidth + width.str ellipsis)
      else
        let later := fitPreview rest (currentWidth + charWidth width c)
        (c :: later.1, later.2)

def previewContent (text : Str) : Str :=
  let fitted := fitPreview width (cleanText text) 0
  if fitted.2 < previewWidth then fitted.1 ++ List.replicate (previewWidth - fitted.2) ' '
  else fitted.1

def pinMarker (isPinned : Bool) : Str :=
  if isPinned then ['*'] else [' ']

def pinMarkerRaw (isPinned : Bool) : Str :=
  if isPinned then ['*'] else ['-']

def richMarkupAlts : List Str :=
  ["application/xhtml+xml".toList, "application/json".toList, "application/xml".toList]

def getLabel (mime : Str) : Str :=
  if mime = mimeUriList then labelFile
  else if startsWith mime "image/".toList then labelImage
  else if contains mime "text".toList ∨ contains mime "UTF8".toList ∨ mime ∈ richMarkupAlts then
    labelText
  else labelData

def rawPreview (item : MetaRow) : Str :=
  if startsWith item.mime "image/".toList then
    '[' :: (item.mime.splitOn '/')[1]?.getD [] ++ "] - ".toList ++ intText item.size ++
      " bytes".toList
  else item.preview.getD []

def idToDisplay (useId : Bool) (item : Nat × MetaRow) : Str :=
  if useId then intText item.2.id else Nat.toDigits 10 item.1

def rawLine (useId : Bool) (item : Nat × MetaRow) : Str :=
  '[' :: rightAlign (widthId / 2) (idToDisplay useId item) ++ "] ".toList ++
    pinMarkerRaw item.2.isPinned ++ ' ' :: getLabel item.2.mime ++
    ' ' :: previewContent width (rawPreview item.2)

def tableLine (now : UInt64) (useId : Bool) (item : Nat × MetaRow) : Str :=
  '[' :: rightAlign (widthId - 2) (idToDisplay useId item) ++ ']' :: tableSep ++
    rightAlign widthWhen (formatTime now (.ofInt item.2.timestamp)) ++ tableSep ++
    rightAlign (widthSize - 2) (intText item.2.size) ++ " B".toList ++ tableSep ++
    pinMarker item.2.isPinned ++ getLabel item.2.mime ++
    ' ' :: previewContent width (rawPreview item.2)

def renderList (now : UInt64) (title : Str) (items : List (Nat × MetaRow)) (totalStored : Nat)
    (isRaw useId : Bool) (maxHistory : UInt64) : Str :=
  let labelWidth := 7
  let totalWidth := widthId + widthWhen + widthSize + previewWidth + labelWidth + tableSep.length * 3
  let rule := println (List.replicate totalWidth tableLineChar).flatten
  let head :=
    if isRaw then []
    else
      println ('\n' :: "--- ".toList ++ title ++ " ---".toList) ++
      println (rightAlign widthId "ID".toList ++ tableSep ++ rightAlign widthWhen "WHEN".toList ++
        tableSep ++ rightAlign widthSize "SIZE".toList ++ tableSep ++ "CONTENT".toList) ++ rule
  let rows := items.map fun item =>
    println (if isRaw then rawLine width useId item else tableLine width now useId item)
  let foot :=
    if isRaw then []
    else
      rule ++ println (logInfo ++ "shown ".toList ++ Nat.toDigits 10 items.length ++
        " items | history: ".toList ++ Nat.toDigits 10 totalStored ++ " / ".toList ++
        Nat.toDigits 10 maxHistory.toNat ++ " entries".toList)
  head ++ rows.flatten ++ foot

def columns (text : Str) : Nat :=
  (text.map (charWidth width)).sum

end

section
variable {width : UnicodeWidth}

theorem columns_append (first second : Str) :
    columns width (first ++ second) = columns width first + columns width second := by
  rw [columns, List.map_append, List.sum_append]
  rfl

theorem columns_cons (c : Char) (rest : Str) :
    columns width (c :: rest) = charWidth width c + columns width rest := by
  rw [columns, List.map_cons, List.sum_cons]
  rfl

variable (documented : width.Documented)
include documented

theorem columns_blanks (count : Nat) : columns width (List.replicate count ' ') = count := by
  have space : charWidth width ' ' = 1 := by
    rw [charWidth, documented.space]
    rfl
  induction count with
  | zero => rfl
  | succ count ih => rw [List.replicate_succ, columns_cons, ih, space, Nat.add_comm]

theorem columns_ellipsis : columns width ellipsis = width.str ellipsis := by
  have dot : charWidth width '.' = 1 := by
    rw [charWidth, documented.dot]
    rfl
  change columns width ['.', '.', '.'] = _
  rw [columns_cons, columns_cons, columns_cons, dot, documented.ellipsis]
  rfl

/-- The loop counts the columns of what it pushes, and leaves room for the ellipsis until then. -/
theorem fitPreview_width (text : Str) {currentWidth : Nat}
    (room : currentWidth ≤ previewWidth - width.str ellipsis) :
    (fitPreview width text currentWidth).2 =
        currentWidth + columns width (fitPreview width text currentWidth).1 ∧
      (fitPreview width text currentWidth).2 ≤ previewWidth := by
  have fits : width.str ellipsis ≤ previewWidth := by
    rw [documented.ellipsis]
    decide
  induction text generalizing currentWidth with
  | nil =>
      rw [fitPreview]
      exact ⟨rfl, Nat.le_trans room (Nat.sub_le _ _)⟩
  | cons c rest ih =>
      rw [fitPreview]
      split
      · rw [columns_ellipsis documented]
        exact ⟨rfl, by omega⟩
      · rename_i within
        obtain ⟨counted, bounded⟩ := ih (Nat.not_lt.mp within)
        dsimp only
        rw [columns_cons, ← Nat.add_assoc]
        exact ⟨counted, bounded⟩

/-- A preview is as wide as its column, whatever the record holds. -/
theorem columns_previewContent (text : Str) :
    columns width (previewContent width text) = previewWidth := by
  obtain ⟨counted, bounded⟩ := fitPreview_width documented (cleanText text) (Nat.zero_le _)
  rw [Nat.zero_add] at counted
  rw [previewContent]
  split
  · rw [columns_append, columns_blanks documented, ← counted]
    omega
  · rw [← counted]
    omega

end

theorem newline_cleanText (text : Str) : '
' ∉ cleanText text := by
  intro member
  obtain ⟨c, _, shown⟩ := List.mem_map.mp member
  split at shown
  · exact absurd shown (by decide)
  · rename_i other
    exact other (.inl shown)

theorem newline_fitPreview (width : UnicodeWidth) {text : Str} (clean : '
' ∉ text)
    (currentWidth : Nat) : '
' ∉ (fitPreview width text currentWidth).1 := by
  induction text generalizing currentWidth with
  | nil => exact List.not_mem_nil
  | cons c rest ih =>
      rw [List.mem_cons, not_or] at clean
      rw [fitPreview]
      split
      · change '\n' ∉ ellipsis
        decide
      · exact List.not_mem_cons_of_ne_of_not_mem clean.1 (ih clean.2 _)

theorem newline_blanks (count : Nat) : '
' ∉ List.replicate count ' ' := by
  intro member
  exact absurd (List.eq_of_mem_replicate member) (by decide)

theorem newline_previewContent (width : UnicodeWidth) (text : Str) :
    '
' ∉ previewContent width text := by
  have fitted := newline_fitPreview width (newline_cleanText text) 0
  rw [previewContent]
  split
  · rw [List.mem_append, not_or]
    exact ⟨fitted, newline_blanks _⟩
  · exact fitted

def labels : List Str :=
  [labelFile, labelImage, labelText, labelData]

theorem getLabel_mem (mime : Str) : getLabel mime ∈ labels := by
  rw [getLabel]
  split
  · decide
  · split
    · decide
    · split
      · decide
      · decide

theorem digit_toDigits {n : Nat} {c : Char} (member : c ∈ Nat.toDigits 10 n) : c.isDigit = true :=
  Nat.isDigit_of_mem_toDigits (by decide) (by decide) member

theorem not_mem_rightAlign {c : Char} (noBlank : c ≠ ' ') (noDigit : c.isDigit = false)
    (width n : Nat) : c ∉ rightAlign width (Nat.toDigits 10 n) := by
  rw [rightAlign, List.mem_append, not_or]
  constructor
  · intro member
    exact noBlank (List.eq_of_mem_replicate member)
  · intro member
    rw [digit_toDigits member] at noDigit
    cases noDigit

/-- Alignment only adds blanks in front. -/
theorem rightAlign_inj {width first second : Nat}
    (same : rightAlign width (Nat.toDigits 10 first) = rightAlign width (Nat.toDigits 10 second)) :
    first = second := by
  have strip : ∀ n, (rightAlign width (Nat.toDigits 10 n)).dropWhile (fun c => c = ' ') =
      Nat.toDigits 10 n := by
    intro n
    have blanks : ∀ c ∈ List.replicate (width - (Nat.toDigits 10 n).length) ' ',
        decide (c = ' ') = true :=
      fun c member => decide_eq_true (List.eq_of_mem_replicate member)
    rw [rightAlign, List.dropWhile_append_of_pos blanks]
    cases digits : Nat.toDigits 10 n with
    | nil => rfl
    | cons c rest =>
        have digit : c.isDigit = true := digit_toDigits (digits ▸ List.mem_cons_self)
        refine List.dropWhile_cons_of_neg ?_
        rw [decide_eq_true_eq]
        rintro rfl
        cases digit
  have digits := congrArg (List.dropWhile fun c => decide (c = ' ')) same
  rw [strip, strip] at digits
  rw [← Nat.ofDigitChars_ten_toDigits (n := first), digits, Nat.ofDigitChars_ten_toDigits]

structure RawRecord where
  number : Nat
  pinned : Bool
  label : Str
  preview : Str

-- A number right-aligned in brackets to width 3, the pin marker, the label and the preview.
structure RawFormat (width : UnicodeWidth) (line : Str) (record : RawRecord) : Prop where
  line : line = '[' :: rightAlign 3 (Nat.toDigits 10 record.number) ++ "] ".toList ++
    pinMarkerRaw record.pinned ++ ' ' :: record.label ++ ' ' :: record.preview
  label : record.label ∈ labels
  preview : columns width record.preview = previewWidth

theorem labels_length {label : Str} (member : label ∈ labels) : label.length = 5 := by
  simp only [labels, List.mem_cons, List.not_mem_nil, or_false] at member
  rcases member with rfl | rfl | rfl | rfl
  · rfl
  · rfl
  · rfl
  · rfl

theorem pinMarkerRaw_inj {first second : Bool} (same : pinMarkerRaw first = pinMarkerRaw second) :
    first = second := by
  revert first second
  decide

theorem rawShape (align pin label preview : Str) :
    '[' :: align ++ "] ".toList ++ pin ++ ' ' :: label ++ ' ' :: preview =
      '[' :: (align ++ ']' :: ' ' :: (pin ++ ' ' :: (label ++ ' ' :: preview))) := by
  simp only [List.append_assoc, List.cons_append]
  rfl

theorem labels_plain {label : Str} (member : label ∈ labels) : '\n' ∉ label := by
  simp only [labels, List.mem_cons, List.not_mem_nil, or_false] at member
  rcases member with rfl | rfl | rfl | rfl
  · decide
  · decide
  · decide
  · decide

theorem RawFormat.unique {width : UnicodeWidth} {line : Str} {first second : RawRecord}
    (left : RawFormat width line first) (right : RawFormat width line second) : first = second := by
  obtain ⟨number, pinned, label, preview⟩ := first
  obtain ⟨otherNumber, otherPinned, otherLabel, otherPreview⟩ := second
  have same := left.line.symm.trans right.line
  have one : ∀ pinned, (pinMarkerRaw pinned).length = 1 := by decide
  have five := (labels_length left.label).trans (labels_length right.label).symm
  have bracket : ∀ n, ']' ∉ rightAlign 3 (Nat.toDigits 10 n) :=
    fun n => not_mem_rightAlign (by decide) (by decide) 3 n
  dsimp only at same five
  rw [rawShape, rawShape] at same
  obtain ⟨numbers, behind⟩ :=
    Lists.upTo_inj (bracket number) (bracket otherNumber) (List.cons.inj same).2
  obtain ⟨markers, fields⟩ := List.append_inj (List.cons.inj behind).2 ((one _).trans (one _).symm)
  obtain ⟨rfl, last⟩ := List.append_inj (List.cons.inj fields).2 five
  rw [rightAlign_inj numbers, pinMarkerRaw_inj markers, (List.cons.inj last).2]

def rawRecord (width : UnicodeWidth) (useId : Bool) (item : Nat × MetaRow) : RawRecord where
  number := if useId then item.2.id.toNat else item.1
  pinned := item.2.isPinned
  label := getLabel item.2.mime
  preview := previewContent width (rawPreview item.2)

theorem idToDisplay_eq {useId : Bool} {item : Nat × MetaRow} (positive : 0 < item.2.id) :
    idToDisplay useId item = Nat.toDigits 10 (if useId then item.2.id.toNat else item.1) := by
  have same : item.2.id.natAbs = item.2.id.toNat := by omega
  cases useId with
  | false => rfl
  | true =>
      change intText item.2.id = Nat.toDigits 10 item.2.id.toNat
      rw [intText, if_neg (by omega), same]

section
variable {width : UnicodeWidth} {useId : Bool} {item : Nat × MetaRow}

theorem rawLine_format (documented : width.Documented) (positive : 0 < item.2.id) :
    RawFormat width (rawLine width useId item) (rawRecord width useId item) where
  line := by
    rw [rawLine, idToDisplay_eq positive]
    rfl
  label := getLabel_mem _
  preview := columns_previewContent documented _

theorem newline_rawLine (positive : 0 < item.2.id) : '\n' ∉ rawLine width useId item := by
  have align : '\n' ∉ rightAlign 3 (idToDisplay useId item) := by
    rw [idToDisplay_eq positive]
    exact not_mem_rightAlign (by decide) (by decide) 3 _
  have pin : '\n' ∉ pinMarkerRaw item.2.isPinned := by
    cases item.2.isPinned with
    | false => decide
    | true => decide
  have label : '\n' ∉ getLabel item.2.mime := labels_plain (getLabel_mem _)
  have preview : '\n' ∉ previewContent width (rawPreview item.2) := newline_previewContent width _
  rw [rawLine, rawShape]
  simp only [List.mem_cons, List.mem_append, not_or]
  exact ⟨by decide, align, by decide, by decide, pin, by decide, label, by decide, preview⟩

end

def terminated (lines : List Str) : Str :=
  (lines.map println).flatten

theorem terminated_inj {first second : List Str} (plainFirst : ∀ line ∈ first, '\n' ∉ line)
    (plainSecond : ∀ line ∈ second, '\n' ∉ line) (same : terminated first = terminated second) :
    first = second := by
  have cons : ∀ (line : Str) (rest : List Str),
      terminated (line :: rest) = line ++ '\n' :: terminated rest := by
    intro line rest
    rw [terminated, List.map_cons, List.flatten_cons, println, List.append_assoc]
    rfl
  induction first generalizing second with
  | nil =>
      cases second with
      | nil => rfl
      | cons line rest =>
          rw [cons] at same
          exact absurd same.symm (List.append_ne_nil_of_right_ne_nil line (List.cons_ne_nil _ _))
  | cons line rest ih =>
      cases second with
      | nil =>
          rw [cons] at same
          exact absurd same (List.append_ne_nil_of_right_ne_nil line (List.cons_ne_nil _ _))
      | cons other others =>
          obtain ⟨plain, plainRest⟩ := List.forall_mem_cons.mp plainFirst
          obtain ⟨plainOther, plainOthers⟩ := List.forall_mem_cons.mp plainSecond
          rw [cons, cons] at same
          obtain ⟨rfl, later⟩ := Lists.upTo_inj plain plainOther same
          rw [ih plainRest plainOthers later]

theorem renderList_raw_eq (width : UnicodeWidth) (now : UInt64) (title : Str)
    (items : List (Nat × MetaRow)) (totalStored : Nat) (useId : Bool) (maxHistory : UInt64) :
    renderList width now title items totalStored true useId maxHistory =
      terminated (items.map (rawLine width useId)) := by
  rw [renderList, terminated, List.map_map]
  simp only [if_true, List.nil_append, List.append_nil]
  rfl

/-- The raw output has one line for each record; it splits into lines, and each line into its
fields, in one way only. -/
theorem renderList_raw (width : UnicodeWidth) (documented : width.Documented) (now : UInt64)
    (title : Str) (items : List (Nat × MetaRow)) (totalStored : Nat) (useId : Bool)
    (maxHistory : UInt64) (positive : ∀ item ∈ items, 0 < item.2.id) :
    ∃ lines, renderList width now title items totalStored true useId maxHistory = terminated lines ∧
      (∀ others, renderList width now title items totalStored true useId maxHistory =
        terminated others → (∀ line ∈ others, '\n' ∉ line) → others = lines) ∧
      List.Forall₂ (fun item line => '\n' ∉ line ∧
        RawFormat width line (rawRecord width useId item) ∧
        ∀ other, RawFormat width line other → other = rawRecord width useId item) items lines := by
  have output := renderList_raw_eq width now title items totalStored useId maxHistory
  refine ⟨items.map (rawLine width useId), output, ?_, ?_⟩
  · intro others same plain
    refine terminated_inj plain ?_ (same.symm.trans output)
    intro line member
    obtain ⟨item, among, rfl⟩ := List.mem_map.mp member
    exact newline_rawLine (positive item among)
  · rw [List.forall₂_map_right_iff, List.forall₂_same]
    intro item member
    have format := @rawLine_format width useId item documented (positive item member)
    exact ⟨newline_rawLine (positive item member), format, fun other also => also.unique format⟩

def kanaWidth : UnicodeWidth where
  char := charColumns
  str := fun text => (text.map fun c => (charColumns c).getD 0).sum
where
  charColumns (c : Char) : Option Nat :=
    if c.toNat < 0x20 ∨ 0x7F ≤ c.toNat ∧ c.toNat < 0xA0 then none
    else if 0x300 ≤ c.toNat ∧ c.toNat < 0x370 then some 0
    else if 0x3040 ≤ c.toNat ∧ c.toNat < 0x3100 then some 2
    else some 1

def kanaItems : List (Nat × MetaRow) :=
  [(0, {
    id := 7
    timestamp := 1000
    mime := "text/plain".toList
    size := 12
    preview := some "かな\n[8] *".toList
    isPinned := true }),
  (1, {
    id := 8
    timestamp := 900
    mime := "image/png]\n[9]".toList
    size := 4096
    preview := none
    isPinned := false })]

theorem renderList_raw_kana :
    ∃ lines, renderList kanaWidth 2000 "h".toList kanaItems 2 true true 256 = terminated lines ∧
      (∀ others, renderList kanaWidth 2000 "h".toList kanaItems 2 true true 256 =
        terminated others → (∀ line ∈ others, '\n' ∉ line) → others = lines) ∧
      List.Forall₂ (fun item line => '\n' ∉ line ∧
        RawFormat kanaWidth line (rawRecord kanaWidth true item) ∧
        ∀ other, RawFormat kanaWidth line other → other = rawRecord kanaWidth true item)
        kanaItems lines :=
  renderList_raw kanaWidth ⟨by decide, by decide, by decide⟩ 2000 "h".toList kanaItems 2 true 256
    (List.forall_mem_cons.mpr ⟨by decide, List.forall_mem_singleton.mpr (by decide)⟩)

end Y4p
