import Mathlib.Data.List.TakeWhile
import Y4p.Core.StrIndex
import Y4p.Core.Tags

/-!
The names of spool files and the sweep of a crashed run's debris (`fresh_path`, `create_derived`
and `sweep_stale` of `crates/daemon/src/spool.rs`). File names are bytes; a `str` is its UTF-8.
-/

namespace Y4p

-- `rsplitn(2, ..)` at dots: what stands before and behind the last one.
def rsplitDot (name : Bytes) : Option (Bytes × Bytes) :=
  match name.reverse.dropWhile fun byte => byte ≠ 0x2E with
  | [] => none
  | _ :: front => some (front.reverse, (name.reverse.takeWhile fun byte => byte ≠ 0x2E).reverse)

-- `rsplit_file_at_dot`: neither `..` nor a name with its only dot in front is split.
def rsplitFileAtDot (name : Bytes) : Option Bytes × Option Bytes :=
  if name = [0x2E, 0x2E] then (some name, none)
  else
    match rsplitDot name with
    | none => (none, some name)
    | some (before, after) => if before = [] then (some name, none) else (some before, some after)

-- `Path::extension`
def extension (name : Bytes) : Option Bytes :=
  match rsplitFileAtDot name with
  | (some _, after) => after
  | (none, _) => none

-- `Path::file_stem`
def fileStem (name : Bytes) : Option Bytes :=
  match rsplitFileAtDot name with
  | (some before, _) => some before
  | (none, after) => after

-- `OsStr::to_str`
def toStr (text : Bytes) : Option Bytes :=
  if isUtf8 text then some text else none

-- A process id: `pid_t` is a positive `i32`, so the casts to `u32` and back change nothing.
structure Pid where
  id : Nat
  positive : 0 < id
  fits : id < 2 ^ 31
  deriving DecidableEq

theorem Pid.eq_of_id {first second : Pid} (same : first.id = second.id) : first = second := by
  cases first
  cases second
  cases same
  rfl

def spoolFileExtension : Bytes := strBytes "part".toList

def withExtension (stem : Bytes) : Bytes :=
  stem ++ 0x2E :: spoolFileExtension

def fetchAdd (next : UInt64) : UInt64 × UInt64 :=
  (next, next + 1)

def sequenceAt (calls : Nat) : UInt64 :=
  (fetchAdd ((fun next => (fetchAdd next).2)^[calls] 0)).1

def freshName (pid : Pid) (seq : UInt64) : Bytes :=
  withExtension (decimal pid.id ++ strBytes "-".toList ++ decimal seq.toNat)

def createDerived (source : Bytes) : Option Bytes := do
  let stem ← (fileStem source).bind toStr
  some (withExtension (stem ++ strBytes "-t".toList))

def digitsValue (digits : Bytes) : Nat :=
  digits.foldl (fun value byte => value * 10 + (byte.toNat - 0x30)) 0

-- `str::parse::<i32>`: a sign, then digits in range. All errors are one here.
def parseI32 (text : Bytes) : Option Int :=
  let positive : Bool := text.head? ≠ some 0x2D
  let digits := if text.head? = some 0x2B ∨ text.head? = some 0x2D then text.tail else text
  if digits ≠ [] ∧ digits.all isAsciiDigit then
    let value : Int := if positive then digitsValue digits else -digitsValue digits
    if -2 ^ 31 ≤ value ∧ value < 2 ^ 31 then some value else none
  else none

-- What `kill` with signal 0 reports.
inductive KillReply where
  | delivered
  | notPermitted
  | noSuchProcess
  deriving DecidableEq

def processExists (kill : Int → KillReply) (pid : Int) : Bool :=
  if pid ≤ 0 then false
  else kill pid = .delivered || kill pid = .notPermitted

def spoolOwner (name : Bytes) : Option Int := do
  let stem ← (fileStem name).bind toStr
  parseI32 (stem.takeWhile fun byte => byte ≠ 0x2D)

def orphaned (own : Pid) (kill : Int → KillReply) (name : Bytes) : Bool :=
  match spoolOwner name with
  | some pid => pid ≠ own.id && !processExists kill pid
  | none => true

structure DirEntry where
  name : Bytes
  isDir : Bool
  deriving DecidableEq

-- `fs::remove_file` does not remove directories.
def removeFile (name : Bytes) (dir : List DirEntry) : List DirEntry :=
  dir.filter fun entry => entry.name ≠ name || entry.isDir

-- `read` is what `read_dir` answers: nothing, or entries of which some may fail to be read.
def sweepStale (own : Pid) (kill : Int → KillReply) (read : Option (List (Option DirEntry)))
    (dir : List DirEntry) : List DirEntry :=
  match read with
  | none => dir
  | some entries =>
      (entries.filterMap id).foldl (fun dir entry =>
        if (extension entry.name).bind toStr ≠ some spoolFileExtension then dir
        else if orphaned own kill entry.name then removeFile entry.name dir
        else dir) dir

theorem rsplitDot_append {before after : Bytes} (plain : 0x2E ∉ after) :
    rsplitDot (before ++ 0x2E :: after) = some (before, after) := by
  have all : ∀ byte ∈ after.reverse, (decide (byte ≠ 0x2E)) = true := by
    intro byte member
    rw [decide_eq_true_eq]
    rintro rfl
    exact plain (List.mem_reverse.mp member)
  have reversed : (before ++ 0x2E :: after).reverse = after.reverse ++ 0x2E :: before.reverse := by
    rw [List.reverse_append, List.reverse_cons, List.append_assoc, List.singleton_append]
  have taken : (0x2E :: before.reverse).takeWhile (fun byte => byte ≠ 0x2E) = [] := rfl
  have dropped : (0x2E :: before.reverse).dropWhile (fun byte => byte ≠ 0x2E) =
      0x2E :: before.reverse := rfl
  rw [rsplitDot, reversed, List.takeWhile_append_of_pos all, List.dropWhile_append_of_pos all,
    taken, dropped, List.append_nil, List.reverse_reverse]
  dsimp only
  rw [List.reverse_reverse]

theorem rsplitDot_some {name before after : Bytes} (split : rsplitDot name = some (before, after)) :
    name = before ++ 0x2E :: after := by
  have whole := List.takeWhile_append_dropWhile (p := fun byte => decide (byte ≠ 0x2E))
    (l := name.reverse)
  unfold rsplitDot at split
  split at split
  · cases split
  · rename_i dot front rest
    have isDot : dot = 0x2E := by
      have head := List.head?_dropWhile_not (fun byte => decide (byte ≠ 0x2E)) name.reverse
      rw [rest] at head
      exact of_not_not (of_decide_eq_false head)
    cases split
    rw [rest] at whole
    have reversed := congrArg List.reverse whole
    rw [List.reverse_reverse, List.reverse_append, List.reverse_cons, List.append_assoc,
      List.singleton_append, isDot] at reversed
    exact reversed.symm

theorem rsplitFileAtDot_append {stem ext : Bytes} (filled : stem ≠ []) (plain : 0x2E ∉ ext)
    (noParent : ext ≠ []) : rsplitFileAtDot (stem ++ 0x2E :: ext) = (some stem, some ext) := by
  rw [rsplitFileAtDot, rsplitDot_append plain, if_neg]
  · exact if_neg filled
  · intro parent
    have short := congrArg List.length parent
    rw [List.length_append, List.length_cons, List.length_cons, List.length_singleton] at short
    have first := List.length_pos_of_ne_nil filled
    have last := List.length_pos_of_ne_nil noParent
    omega

theorem extension_withExtension {stem : Bytes} (filled : stem ≠ []) :
    extension (withExtension stem) = some spoolFileExtension := by
  rw [extension, withExtension, rsplitFileAtDot_append filled (by decide) (by decide)]

theorem fileStem_withExtension {stem : Bytes} (filled : stem ≠ []) :
    fileStem (withExtension stem) = some stem := by
  rw [fileStem, withExtension, rsplitFileAtDot_append filled (by decide) (by decide)]

/-- Only a name that ends in a dot and the extension, behind something, has it. -/
theorem extension_some {name ext : Bytes} (has : extension name = some ext) :
    ∃ stem, stem ≠ [] ∧ name = stem ++ 0x2E :: ext := by
  unfold extension rsplitFileAtDot at has
  split at has
  · rename_i before after split
    subst has
    split at split
    · cases split
    · split at split
      · cases split
      · rename_i found
        split at split
        · cases split
        · rename_i filled
          cases split
          exact ⟨_, filled, rsplitDot_some found⟩
  · cases has

def SpellsId (field : Bytes) (n : Nat) : Prop :=
  ∃ digits, (field = digits ∨ field = 0x2B :: digits) ∧ digits ≠ [] ∧
    (∀ byte ∈ digits, isAsciiDigit byte = true) ∧ digitsValue digits = n

theorem parseI32_digits {digits : Bytes} (filled : digits ≠ [])
    (all : ∀ byte ∈ digits, isAsciiDigit byte = true) (sign : Bytes)
    (signed : sign = [] ∨ sign = [0x2B]) :
    parseI32 (sign ++ digits) =
      if digitsValue digits < 2 ^ 31 then some (digitsValue digits : Int) else none := by
  have first : digits.head? ≠ some 0x2B ∧ digits.head? ≠ some 0x2D := by
    constructor
    · intro head
      exact absurd (all _ (List.mem_of_head? head)) (by decide)
    · intro head
      exact absurd (all _ (List.mem_of_head? head)) (by decide)
  have shape : (if (sign ++ digits).head? = some 0x2B ∨ (sign ++ digits).head? = some 0x2D
        then (sign ++ digits).tail else sign ++ digits) = digits ∧
      (sign ++ digits).head? ≠ some 0x2D := by
    rcases signed with rfl | rfl
    · rw [List.nil_append, if_neg (not_or.mpr first)]
      exact ⟨rfl, first.2⟩
    · exact ⟨if_pos (.inl rfl), fun head => absurd (Option.some_inj.mp head) (by decide)⟩
  have value : -2 ^ 31 ≤ (digitsValue digits : Int) ∧ (digitsValue digits : Int) < 2 ^ 31 ↔
      digitsValue digits < 2 ^ 31 := by
    omega
  unfold parseI32
  dsimp only
  rw [shape.1, if_pos ⟨filled, List.all_eq_true.mpr all⟩, decide_eq_true shape.2, if_pos rfl]
  simp only [value]

theorem parseI32_iff {field : Bytes} (noDash : 0x2D ∉ field) {value : Int} :
    parseI32 field = some value ↔ ∃ n : Nat, SpellsId field n ∧ n < 2 ^ 31 ∧ value = n := by
  have parts : ∃ sign digits, field = sign ++ digits ∧ (sign = [] ∨ sign = [0x2B]) ∧
      (if field.head? = some 0x2B ∨ field.head? = some 0x2D then field.tail else field) =
        digits := by
    cases field with
    | nil => exact ⟨[], [], rfl, .inl rfl, rfl⟩
    | cons first rest =>
        by_cases plus : first = 0x2B
        · subst plus
          exact ⟨[0x2B], rest, rfl, .inr rfl, rfl⟩
        · refine ⟨[], first :: rest, rfl, .inl rfl, if_neg ?_⟩
          rintro (head | head)
          · exact plus (Option.some_inj.mp head)
          · rw [Option.some_inj.mp head] at noDash
            exact noDash List.mem_cons_self
  obtain ⟨sign, digits, split, signed, taken⟩ := parts
  have spelled : field = digits ∨ field = 0x2B :: digits := by
    rcases signed with rfl | rfl
    · exact .inl split
    · exact .inr split
  constructor
  · intro parsed
    by_cases number : digits ≠ [] ∧ ∀ byte ∈ digits, isAsciiDigit byte = true
    · rw [split, parseI32_digits number.1 number.2 sign signed] at parsed
      split at parsed
      · rename_i fits
        exact ⟨digitsValue digits, ⟨digits, spelled, number.1, number.2, rfl⟩, fits,
          (Option.some_inj.mp parsed).symm⟩
      · cases parsed
    · unfold parseI32 at parsed
      dsimp only at parsed
      rw [taken, if_neg fun both => number ⟨both.1, List.all_eq_true.mp both.2⟩] at parsed
      cases parsed
  · rintro ⟨n, ⟨others, same | same, filled, all, rfl⟩, fits, rfl⟩
    · have read := parseI32_digits filled all [] (.inl rfl)
      rw [List.nil_append, if_pos fits] at read
      rw [same, read]
    · have read := parseI32_digits filled all [0x2B] (.inr rfl)
      rw [List.singleton_append, if_pos fits] at read
      rw [same, read]

theorem digitsValue_decimal (n : Nat) : digitsValue (decimal n) = n := by
  have value : (Nat.toDigits 10 n).foldl
        (fun value c => value * 10 + ((UInt8.ofNat c.toNat).toNat - 0x30)) 0 =
      (Nat.toDigits 10 n).foldl (fun value c => 10 * value + (c.toNat - '0'.toNat)) 0 := by
    refine List.foldl_ext _ _ _ fun value c member => ?_
    rw [toNat_digit member, Nat.mul_comm]
    rfl
  rw [digitsValue, decimal_eq, List.foldl_map, value, ← Nat.ofDigitChars_eq_foldl,
    Nat.ofDigitChars_ten_toDigits]

theorem spellsId_decimal (n : Nat) : SpellsId (decimal n) n :=
  ⟨decimal n, .inl rfl, decimal_ne_nil n, fun _ member => decimal_digits member,
    digitsValue_decimal n⟩

theorem decimal_inj {first second : Nat} (same : decimal first = decimal second) :
    first = second := by
  rw [← digitsValue_decimal first, same, digitsValue_decimal]

theorem sequenceAt_eq (calls : Nat) : sequenceAt calls = UInt64.ofNat calls := by
  have counted : (fun next => (fetchAdd next).2)^[calls] 0 = UInt64.ofNat calls := by
    induction calls with
    | zero => rfl
    | succ calls ih =>
        rw [Function.iterate_succ_apply', ih, fetchAdd, UInt64.ofNat_add]
        rfl
  exact counted

inductive SpoolName where
  | fresh (pid : Pid) (calls : Nat)
  | derived (source : SpoolName)

namespace SpoolName

def name : SpoolName → Option Bytes
  | fresh pid calls => some (freshName pid (sequenceAt calls))
  | derived source => source.name.bind createDerived

def pid : SpoolName → Pid
  | fresh pid _ => pid
  | derived source => source.pid

def calls : SpoolName → Nat
  | fresh _ calls => calls
  | derived source => source.calls

def depth : SpoolName → Nat
  | fresh _ _ => 0
  | derived source => source.depth + 1

def stem (file : SpoolName) : Bytes :=
  decimal file.pid.id ++ 0x2D :: (decimal (sequenceAt file.calls).toNat ++
    (List.replicate file.depth [0x2D, 0x74]).flatten)

theorem stem_ne_nil (file : SpoolName) : file.stem ≠ [] :=
  List.append_ne_nil_of_left_ne_nil (decimal_ne_nil _) _

theorem stem_ascii {file : SpoolName} {byte : UInt8} (member : byte ∈ file.stem) : byte < 0x80 := by
  have digit : ∀ {n : Nat}, byte ∈ decimal n → byte < 0x80 := by
    intro n among
    have code := isAsciiDigit_iff.mp (decimal_digits among)
    rw [UInt8.lt_iff_toNat_lt]
    change byte.toNat < 128
    omega
  rw [stem, List.mem_append, List.mem_cons, List.mem_append] at member
  rcases member with among | rfl | among | among
  · exact digit among
  · decide
  · exact digit among
  · obtain ⟨mark, marks, among⟩ := List.mem_flatten.mp among
    rw [(List.mem_replicate.mp marks).2, List.mem_cons, List.mem_singleton] at among
    rcases among with rfl | rfl
    · decide
    · decide

theorem toStr_stem (file : SpoolName) : toStr file.stem = some file.stem :=
  if_pos (isUtf8_ascii fun _ member => stem_ascii member)

theorem name_eq (file : SpoolName) : file.name = some (withExtension file.stem) := by
  induction file with
  | fresh pid calls =>
      rw [name, freshName, stem, List.append_assoc]
      simp only [SpoolName.pid, SpoolName.calls, depth, List.replicate_zero, List.flatten_nil,
        List.append_nil]
      rfl
  | derived source ih =>
      have marked : source.stem ++ strBytes "-t".toList = (derived source).stem := by
        rw [stem, stem, depth, List.replicate_succ', List.flatten_append]
        simp only [List.append_assoc, List.cons_append]
        rfl
      rw [name, ih, Option.bind_some, createDerived, fileStem_withExtension source.stem_ne_nil,
        Option.bind_some, toStr_stem]
      exact congrArg (fun stem => some (withExtension stem)) marked

end SpoolName

def LeadingField (stem field : Bytes) : Prop :=
  0x2D ∉ field ∧ (stem = field ∨ ∃ rest, stem = field ++ 0x2D :: rest)

theorem leadingField_iff {stem field : Bytes} :
    LeadingField stem field ↔ field = stem.takeWhile fun byte => byte ≠ 0x2D := by
  constructor
  · rintro ⟨plain, split⟩
    have all : ∀ byte ∈ field, (decide (byte ≠ 0x2D)) = true := by
      intro byte member
      rw [decide_eq_true_eq]
      rintro rfl
      exact plain member
    rcases split with rfl | ⟨rest, rfl⟩
    · exact (List.takeWhile_eq_self_iff.mpr all).symm
    · have taken : (0x2D :: rest).takeWhile (fun byte => byte ≠ 0x2D) = [] := rfl
      rw [List.takeWhile_append_of_pos all, taken, List.append_nil]
  · rintro rfl
    constructor
    · intro member
      have differs : decide ((0x2D : UInt8) ≠ 0x2D) = true :=
        @List.mem_takeWhile_imp _ (fun byte => decide (byte ≠ 0x2D)) _ _ member
      exact absurd differs (by decide)
    · have whole := List.takeWhile_append_dropWhile (p := fun byte => decide (byte ≠ 0x2D))
        (l := stem)
      have head := List.head?_dropWhile_not (fun byte => decide (byte ≠ 0x2D)) stem
      cases left : stem.dropWhile fun byte => decide (byte ≠ 0x2D) with
      | nil =>
          rw [left, List.append_nil] at whole
          exact .inl whole.symm
      | cons byte rest =>
          rw [left] at whole head
          rw [of_not_not (of_decide_eq_false head)] at whole
          exact .inr ⟨rest, whole.symm⟩

theorem LeadingField.unique {stem first second : Bytes} (left : LeadingField stem first)
    (right : LeadingField stem second) : first = second :=
  (leadingField_iff.mp left).trans (leadingField_iff.mp right).symm

theorem decimal_no_dash (n : Nat) : 0x2D ∉ decimal n := by
  intro member
  exact absurd (decimal_digits member) (by decide)

namespace SpoolName

theorem leadingField_stem (file : SpoolName) : LeadingField file.stem (decimal file.pid.id) :=
  ⟨decimal_no_dash _, .inr ⟨_, rfl⟩⟩

theorem length_marks (depth : Nat) :
    (List.replicate depth ([0x2D, 0x74] : Bytes)).flatten.length = 2 * depth := by
  induction depth with
  | zero => rfl
  | succ depth ih =>
      rw [List.replicate_succ, List.flatten_cons, List.length_append, ih, Nat.mul_succ,
        Nat.add_comm]
      rfl

/-- A name tells whose it is, which call made it and how often it was derived. -/
theorem name_inj {first second : SpoolName} (same : first.name = second.name) :
    first.pid = second.pid ∧ first.calls % 2 ^ 64 = second.calls % 2 ^ 64 ∧
      first.depth = second.depth := by
  rw [name_eq, name_eq, Option.some_inj, withExtension, withExtension] at same
  have stems : first.stem = second.stem := List.append_cancel_right same
  have fields := first.leadingField_stem
  rw [stems] at fields
  have pids := fields.unique second.leadingField_stem
  have marked : ∀ (n depth : Nat),
      LeadingField (decimal n ++ (List.replicate depth [0x2D, 0x74]).flatten) (decimal n) := by
    intro n depth
    refine ⟨decimal_no_dash n, ?_⟩
    cases depth with
    | zero => exact .inl (List.append_nil _)
    | succ depth => exact .inr ⟨_, rfl⟩
  rw [stem, stem, pids] at stems
  have rest := List.tail_eq_of_cons_eq (List.append_cancel_left stems)
  have sequences := marked (sequenceAt first.calls).toNat first.depth
  rw [rest] at sequences
  have numbers := sequences.unique (marked (sequenceAt second.calls).toNat second.depth)
  rw [numbers] at rest
  have marks := congrArg List.length (List.append_cancel_left rest)
  rw [length_marks, length_marks] at marks
  have calls := decimal_inj numbers
  rw [sequenceAt_eq, sequenceAt_eq, UInt64.toNat_ofNat', UInt64.toNat_ofNat'] at calls
  refine ⟨?_, calls, Nat.eq_of_mul_eq_mul_left (by decide) marks⟩
  exact Pid.eq_of_id (decimal_inj pids)

end SpoolName

def Swept (own : Pid) (kill : Int → KillReply) (name : Bytes) : Prop :=
  (extension name).bind toStr = some spoolFileExtension ∧ orphaned own kill name = true

theorem mem_removeFile {name : Bytes} {dir : List DirEntry} {entry : DirEntry} :
    entry ∈ removeFile name dir ↔ entry ∈ dir ∧ (entry.name = name → entry.isDir = true) := by
  rw [removeFile, List.mem_filter, Bool.or_eq_true, decide_eq_true_eq, ← imp_iff_not_or]

theorem mem_sweepEntry {own : Pid} {kill : Int → KillReply} {dir : List DirEntry}
    {other entry : DirEntry} :
    entry ∈ (if (extension other.name).bind toStr ≠ some spoolFileExtension then dir
        else if orphaned own kill other.name then removeFile other.name dir
        else dir) ↔
      entry ∈ dir ∧ (other.name = entry.name → Swept own kill entry.name → entry.isDir = true) := by
  split
  · rename_i kept
    refine (and_iff_left ?_).symm
    intro same swept
    rw [same] at kept
    exact absurd swept.1 kept
  · rename_i part
    split
    · rename_i orphan
      rw [mem_removeFile]
      refine and_congr_right fun _ => ?_
      constructor
      · intro gone same _
        exact gone same.symm
      · intro gone same
        rw [same] at gone
        exact gone rfl ⟨of_not_not part, orphan⟩
    · rename_i owned
      refine (and_iff_left ?_).symm
      intro same swept
      rw [same] at owned
      exact absurd swept.2 owned

/-- A file stays unless it was read and its name is to be swept. -/
theorem mem_sweepStale {own : Pid} {kill : Int → KillReply} {entries : List (Option DirEntry)}
    {dir : List DirEntry} {entry : DirEntry} :
    entry ∈ sweepStale own kill (some entries) dir ↔
      entry ∈ dir ∧ ((∃ other, some other ∈ entries ∧ other.name = entry.name) →
        Swept own kill entry.name → entry.isDir = true) := by
  have among : ∀ other, some other ∈ entries ↔ other ∈ entries.filterMap id := by
    intro other
    rw [List.mem_filterMap]
    exact ⟨fun member => ⟨some other, member, rfl⟩, fun ⟨_, member, same⟩ => same ▸ member⟩
  simp only [sweepStale, among]
  generalize entries.filterMap id = read
  induction read generalizing dir with
  | nil =>
      refine (and_iff_left ?_).symm
      rintro ⟨other, member, _⟩
      exact absurd member List.not_mem_nil
  | cons other read ih =>
      rw [List.foldl_cons]
      refine ih.trans ?_
      rw [mem_sweepEntry, and_assoc]
      refine and_congr_right fun _ => ?_
      constructor
      · rintro ⟨first, later⟩ ⟨found, member, same⟩ swept
        rcases List.mem_cons.mp member with rfl | member
        · exact first same swept
        · exact later ⟨found, member, same⟩ swept
      · intro gone
        exact ⟨fun same => gone ⟨other, List.mem_cons_self, same⟩,
          fun ⟨found, member, same⟩ => gone ⟨found, List.mem_cons_of_mem _ member, same⟩⟩

-- There is a process with this id: the signal would reach it, or may not be sent.
def Alive (kill : Int → KillReply) (n : Nat) : Prop :=
  0 < n ∧ n < 2 ^ 31 ∧ kill n ≠ .noSuchProcess

theorem processExists_iff {kill : Int → KillReply} {n : Nat} (fits : n < 2 ^ 31) :
    processExists kill n = true ↔ Alive kill n := by
  rw [processExists, Alive]
  split
  · rename_i none
    exact iff_of_false Bool.false_ne_true fun alive => by omega
  · rename_i some
    rw [and_iff_right (by omega), and_iff_right fits]
    cases kill n <;> decide

def Debris (own : Pid) (kill : Int → KillReply) (field : Bytes) : Prop :=
  (∀ n, ¬ SpellsId field n) ∨ ∃ n, SpellsId field n ∧ n ≠ own.id ∧ ¬ Alive kill n

theorem SpellsId.unique {field : Bytes} {first second : Nat} (left : SpellsId field first)
    (right : SpellsId field second) : first = second := by
  have unsigned : ∀ {digits others : Bytes}, (∀ byte ∈ digits, isAsciiDigit byte = true) →
      digits ≠ 0x2B :: others := by
    rintro _ others all rfl
    exact absurd (all 0x2B List.mem_cons_self) (by decide)
  obtain ⟨digits, spelled, _, all, rfl⟩ := left
  obtain ⟨others, also, _, allToo, rfl⟩ := right
  rcases spelled with rfl | rfl
  · rcases also with rfl | same
    · rfl
    · exact absurd same (unsigned all)
  · rcases also with same | same
    · exact absurd same.symm (unsigned allToo)
    · rw [(List.cons.inj same).2]

theorem spoolOwner_withExtension {stem field : Bytes} (filled : stem ≠ [])
    (leading : LeadingField stem field) :
    spoolOwner (withExtension stem) = if isUtf8 stem then parseI32 field else none := by
  have read : spoolOwner (withExtension stem) =
      (toStr stem).bind fun stem => parseI32 (stem.takeWhile fun byte => byte ≠ 0x2D) := by
    rw [spoolOwner, fileStem_withExtension filled]
    rfl
  rw [read, toStr]
  split
  · rw [Option.bind_some, ← leadingField_iff.mp leading]
  · rfl

theorem orphaned_withExtension {own : Pid} {kill : Int → KillReply} {stem field : Bytes}
    (filled : stem ≠ []) (leading : LeadingField stem field) :
    orphaned own kill (withExtension stem) = true ↔
      isUtf8 stem = false ∨ Debris own kill field := by
  rw [orphaned, spoolOwner_withExtension filled leading]
  cases valid : isUtf8 stem with
  | false => exact iff_of_true rfl (.inl rfl)
  | true =>
      rw [if_pos rfl, or_iff_right (Bool.noConfusion)]
      cases parsed : parseI32 field with
      | none =>
          refine iff_of_true rfl ?_
          by_cases spelled : ∃ n, SpellsId field n
          · obtain ⟨n, spelled⟩ := spelled
            have large : ¬ n < 2 ^ 31 := by
              intro fits
              rw [(parseI32_iff leading.1).mpr ⟨n, spelled, fits, rfl⟩] at parsed
              cases parsed
            have own := own.fits
            exact .inr ⟨n, spelled, by omega, fun alive => large alive.2.1⟩
          · exact .inl fun n also => spelled ⟨n, also⟩
      | some value =>
          obtain ⟨n, spelled, fits, rfl⟩ := (parseI32_iff leading.1).mp parsed
          have gone : Debris own kill field ↔ n ≠ own.id ∧ ¬ Alive kill n := by
            constructor
            · rintro (none | ⟨other, also, differs, dead⟩)
              · exact absurd spelled (none n)
              · rw [spelled.unique also]
                exact ⟨differs, dead⟩
            · intro both
              exact .inr ⟨n, spelled, both⟩
          dsimp only
          rw [gone, ← processExists_iff fits, Bool.and_eq_true, decide_eq_true_eq,
            Bool.not_eq_true', Bool.not_eq_true, Ne, Ne, Int.natCast_inj]

def IsDebris (own : Pid) (kill : Int → KillReply) (name : Bytes) : Prop :=
  ∃ stem field, stem ≠ [] ∧ name = withExtension stem ∧ LeadingField stem field ∧
    Debris own kill field

def SweepsDebris (own : Pid) (kill : Int → KillReply) (dir : List DirEntry) : Prop :=
  ∀ entry ∈ dir, entry.isDir = false →
    (entry ∉ sweepStale own kill (some (dir.map some)) dir ↔ IsDebris own kill entry.name)

/-- `1-\xff.part`, which is no UTF-8, is removed where the process 1 is alive; and the sequence
numbers of one process come round again after 2^64 calls. -/
theorem sweepsDebris_counterexample :
    ¬ SweepsDebris ⟨7, by decide, by decide⟩ (fun _ => .delivered)
        [⟨[0x31, 0x2D, 0xFF, 0x2E, 0x70, 0x61, 0x72, 0x74], false⟩] ∧
      (SpoolName.fresh ⟨7, by decide, by decide⟩ 0).name =
        (SpoolName.fresh ⟨7, by decide, by decide⟩ (2 ^ 64)).name ∧
      SpoolName.fresh ⟨7, by decide, by decide⟩ 0 ≠
        SpoolName.fresh ⟨7, by decide, by decide⟩ (2 ^ 64) := by
  have around : UInt64.ofNat 0 = UInt64.ofNat (2 ^ 64) := by decide
  have same : (SpoolName.fresh ⟨7, by decide, by decide⟩ 0).name =
      (SpoolName.fresh ⟨7, by decide, by decide⟩ (2 ^ 64)).name := by
    rw [SpoolName.name, SpoolName.name, sequenceAt_eq, sequenceAt_eq, around]
  refine ⟨fun sweeps => ?_, same, nofun⟩
  have agree := sweeps _ (List.mem_singleton.mpr rfl) rfl
  obtain ⟨stem, field, _, same, leading, debris⟩ := agree.mp (by decide)
  have isStem : stem = [0x31, 0x2D, 0xFF] := (List.append_cancel_right same).symm
  subst isStem
  have one : field = [0x31] := leading.unique ⟨by decide, .inr ⟨[0xFF], rfl⟩⟩
  subst one
  have spelled : SpellsId [0x31] 1 :=
    ⟨[0x31], .inl rfl, by decide, List.forall_mem_singleton.mpr (by decide), rfl⟩
  rcases debris with none | ⟨n, also, _, dead⟩
  · exact none 1 spelled
  · rw [also.unique spelled] at dead
    exact dead ⟨by decide, by decide, by decide⟩

theorem swept_iff {own : Pid} {kill : Int → KillReply} {name : Bytes} :
    Swept own kill name ↔
      ∃ stem, stem ≠ [] ∧ name = withExtension stem ∧
        (isUtf8 stem = false ∨ ∃ field, LeadingField stem field ∧ Debris own kill field) := by
  constructor
  · rintro ⟨part, orphan⟩
    obtain ⟨ext, has, valid⟩ := Option.bind_eq_some_iff.mp part
    have same : ext = spoolFileExtension := by
      rw [toStr] at valid
      split at valid
      · exact Option.some_inj.mp valid
      · cases valid
    subst same
    obtain ⟨stem, filled, rfl⟩ := extension_some has
    have leading : LeadingField stem _ := leadingField_iff.mpr rfl
    refine ⟨stem, filled, rfl, ?_⟩
    exact ((orphaned_withExtension filled leading).mp orphan).imp_right fun debris =>
      ⟨_, leading, debris⟩
  · rintro ⟨stem, filled, rfl, bad⟩
    have leading : LeadingField stem _ := leadingField_iff.mpr rfl
    constructor
    · rw [extension_withExtension filled, Option.bind_some]
      exact if_pos (by decide)
    · refine (orphaned_withExtension filled leading).mpr (bad.imp_right ?_)
      rintro ⟨field, also, debris⟩
      rw [leading.unique also]
      exact debris

/-- A file of a live process, or of this one, is not swept. -/
theorem SpoolName.not_swept {own : Pid} {kill : Int → KillReply} {file : SpoolName} {name : Bytes}
    (named : file.name = some name) (lives : file.pid = own ∨ Alive kill file.pid.id) :
    ¬ Swept own kill name := by
  rw [name_eq, Option.some_inj] at named
  subst named
  rintro ⟨_, orphan⟩
  rcases (orphaned_withExtension file.stem_ne_nil file.leadingField_stem).mp orphan with
    invalid | none | ⟨n, spelled, differs, dead⟩
  · have valid : isUtf8 file.stem = true := isUtf8_ascii fun _ member => stem_ascii member
    rw [valid] at invalid
    cases invalid
  · exact none _ (spellsId_decimal _)
  · rw [spelled.unique (spellsId_decimal _)] at differs dead
    rcases lives with rfl | alive
    · exact differs rfl
    · exact dead alive

theorem sweepStale_keeps {own : Pid} {kill : Int → KillReply} {dir : List DirEntry}
    {entry : DirEntry} (member : entry ∈ dir) (kept : ¬ Swept own kill entry.name)
    (read : Option (List (Option DirEntry))) : entry ∈ sweepStale own kill read dir := by
  cases read with
  | none => exact member
  | some entries => exact mem_sweepStale.mpr ⟨member, fun _ swept => absurd swept kept⟩

/-- The sweep removes exactly the spool files that name no process or one that is gone; none of a
live process; and names agree only for one process, depth and value of the counter. -/
theorem spool_names (own : Pid) (kill : Int → KillReply) (dir : List DirEntry) :
    (∀ entry ∈ dir, entry.isDir = false →
      (entry ∉ sweepStale own kill (some (dir.map some)) dir ↔
        ∃ stem, stem ≠ [] ∧ entry.name = withExtension stem ∧
          (isUtf8 stem = false ∨ ∃ field, LeadingField stem field ∧ Debris own kill field))) ∧
    (∀ read, ∀ entry ∈ dir, extension entry.name ≠ some spoolFileExtension →
      entry ∈ sweepStale own kill read dir) ∧
    (∀ read (file : SpoolName), file.pid = own ∨ Alive kill file.pid.id →
      ∀ entry ∈ dir, file.name = some entry.name → entry ∈ sweepStale own kill read dir) ∧
    (∀ file : SpoolName, ∃ name, file.name = some name) ∧
    ∀ first second : SpoolName, first.name = second.name →
      first.pid = second.pid ∧ first.calls % 2 ^ 64 = second.calls % 2 ^ 64 ∧
        first.depth = second.depth := by
  refine ⟨fun entry member file => ?_, fun read entry member other => ?_,
    fun read file lives entry member named => ?_, fun file => ⟨_, file.name_eq⟩,
    fun first second same => SpoolName.name_inj same⟩
  · rw [← swept_iff]
    constructor
    · intro gone
      by_contra kept
      exact gone (sweepStale_keeps member kept _)
    · intro swept remains
      have isDir := (mem_sweepStale.mp remains).2 ⟨entry, List.mem_map_of_mem member, rfl⟩ swept
      rw [file] at isDir
      cases isDir
  · refine sweepStale_keeps member (fun swept => ?_) read
    obtain ⟨stem, filled, same, _⟩ := swept_iff.mp swept
    rw [same] at other
    exact other (extension_withExtension filled)
  · exact sweepStale_keeps member (SpoolName.not_swept named lives) read

end Y4p
