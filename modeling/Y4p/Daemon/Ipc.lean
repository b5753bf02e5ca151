import Y4p.Core.Decimal
import Y4p.Core.Utils

/-!
The control socket: the frames its clients write, and how the daemon reads and decodes them
(`crates/daemon/src/ipc.rs`).
-/

namespace Y4p

inductive Command where
  | restore (id : I64)
  | exit
  | status
  | pause
  | resume
  deriving DecidableEq

-- The last byte is taken for the delimiter.
def Command.decode : Bytes → Option Command
  | [] | [_] => none
  | first :: rest =>
      if first = ipcCmdExit then some .exit
      else if first = ipcCmdStatus then some .status
      else if first = ipcCmdPause then some .pause
      else if first = ipcCmdResume then some .resume
      else if first = ipcCmdRestore then
        (parseI64 (trim (fromUtf8Lossy rest.dropLast))).map .restore
      else none

inductive Fill where
  | data (bytes : Bytes)
  | interrupted
  | failed

def upTo (delimiter : UInt8) : Bytes → Bytes
  | [] => []
  | byte :: rest => if byte = delimiter then [byte] else byte :: upTo delimiter rest

-- `BufRead::read_until`. No bytes, or no more fills, are the end of the stream.
def readUntil (delimiter : UInt8) : List Fill → Bytes → Option Bytes
  | [], buf => some buf
  | .interrupted :: rest, buf => readUntil delimiter rest buf
  | .failed :: _, _ => none
  | .data available :: rest, buf =>
      if delimiter ∈ available then some (buf ++ upTo delimiter available)
      else if available = [] then some buf
      else readUntil delimiter rest (buf ++ available)

def acceptAndDispatch (accepted : Option (List Fill)) (status : Str) :
    Option Command × Option Str :=
  match accepted with
  | none => (none, none)
  | some stream =>
      match (readUntil ipcDelimiter stream []).bind Command.decode with
      | none => (none, none)
      | some .status => (some .status, some status)
      | some command => (some command, none)

def asciiBytes (text : Str) : Bytes :=
  text.map fun c => UInt8.ofNat c.toNat

-- `start_daemon` writes EXIT, the CLI all others: `store` and `copy-to` a RESTORE.
def Command.frame : Command → Bytes
  | .restore id => ipcCmdRestore :: (asciiBytes id.text ++ [ipcDelimiter])
  | .exit => [ipcCmdExit]
  | .status => [ipcCmdStatus, ipcDelimiter]
  | .pause => [ipcCmdPause, ipcDelimiter]
  | .resume => [ipcCmdResume, ipcDelimiter]

def Fill.bytes : Fill → Bytes
  | .data bytes => bytes
  | .interrupted | .failed => []

structure Delivers (reads : List Fill) (bytes : Bytes) : Prop where
  sound : ∀ fill ∈ reads, fill ≠ .failed
  progress : ∀ fill ∈ reads, fill ≠ .data []
  whole : reads.flatMap Fill.bytes = bytes

section
variable {delimiter : UInt8}

theorem upTo_absent {bytes : Bytes} (absent : delimiter ∉ bytes) : upTo delimiter bytes = bytes := by
  induction bytes with
  | nil => rfl
  | cons byte rest ih =>
      have differs : byte ≠ delimiter := fun same => absent (same ▸ List.mem_cons_self)
      rw [upTo, if_neg differs, ih fun member => absent (List.mem_cons_of_mem _ member)]

theorem upTo_append_absent {first : Bytes} (absent : delimiter ∉ first) (second : Bytes) :
    upTo delimiter (first ++ second) = first ++ upTo delimiter second := by
  induction first with
  | nil => rfl
  | cons byte rest ih =>
      have differs : byte ≠ delimiter := fun same => absent (same ▸ List.mem_cons_self)
      rw [List.cons_append, upTo, if_neg differs,
        ih fun member => absent (List.mem_cons_of_mem _ member), List.cons_append]

theorem upTo_append_present {first : Bytes} (present : delimiter ∈ first) (second : Bytes) :
    upTo delimiter (first ++ second) = upTo delimiter first := by
  induction first with
  | nil => cases present
  | cons byte rest ih =>
      rw [List.cons_append, upTo, upTo]
      by_cases here : byte = delimiter
      · rw [if_pos here, if_pos here]
      · have later : delimiter ∈ rest :=
          (List.mem_cons.mp present).resolve_left fun same => here same.symm
        rw [if_neg here, if_neg here, ih later]

/-- The split across reads does not matter. -/
theorem readUntil_delivers {reads : List Fill} {bytes : Bytes} (delivers : Delivers reads bytes)
    (buf : Bytes) : readUntil delimiter reads buf = some (buf ++ upTo delimiter bytes) := by
  obtain ⟨sound, progress, rfl⟩ := delivers
  induction reads generalizing buf with
  | nil => exact congrArg some (List.append_nil buf).symm
  | cons fill rest ih =>
      have later := fun buf => ih buf
        (fun other member => sound other (List.mem_cons_of_mem _ member))
        fun other member => progress other (List.mem_cons_of_mem _ member)
      cases fill with
      | interrupted => exact later buf
      | failed => exact absurd rfl (sound _ List.mem_cons_self)
      | data available =>
          have filled : available ≠ [] := fun empty => progress _ List.mem_cons_self (empty ▸ rfl)
          change readUntil delimiter (.data available :: rest) buf =
            some (buf ++ upTo delimiter (available ++ rest.flatMap Fill.bytes))
          rw [readUntil]
          by_cases found : delimiter ∈ available
          · rw [if_pos found, upTo_append_present found]
          · rw [if_neg found, if_neg filled, later, upTo_append_absent found, List.append_assoc]

end

theorem dispatched {reads : List Fill} {bytes : Bytes} (delivers : Delivers reads bytes)
    (status : Str) :
    (acceptAndDispatch (some reads) status).1 = Command.decode (upTo ipcDelimiter bytes) := by
  unfold acceptAndDispatch
  dsimp only
  rw [readUntil_delivers delivers, List.nil_append, Option.bind_some]
  cases Command.decode (upTo ipcDelimiter bytes) with
  | none => rfl
  | some command => cases command <;> rfl

def IsAscii (c : Char) : Prop :=
  c.toNat < 128

theorem fromUtf8Lossy_ascii {text : Str} (ascii : ∀ c ∈ text, IsAscii c) :
    fromUtf8Lossy (asciiBytes text) = text := by
  unfold fromUtf8Lossy decode
  rw [asciiBytes, List.length_map]
  induction text with
  | nil => rfl
  | cons c rest ih =>
      have small : c.toNat < 128 := ascii c List.mem_cons_self
      have byte : (UInt8.ofNat c.toNat).toNat = c.toNat :=
        UInt8.toNat_ofNat_of_lt' (Nat.lt_trans small (by decide))
      have low : UInt8.ofNat c.toNat < 0x80 := UInt8.lt_iff_toNat_lt.mpr (by rw [byte]; exact small)
      rw [List.map_cons, List.length_cons, decodeFrom]
      · simp only [decodeStep, if_pos low, byte, Char.ofNat_toNat, List.drop_one, List.tail_cons,
          List.map_cons, Option.getD_some]
        rw [ih fun other member => ascii other (List.mem_cons_of_mem _ member)]
      · exact nofun

theorem trim_plain {text : Str} (plain : ∀ c ∈ text, isWhitespace c = false) :
    trim text = text := by
  have start : ∀ {list : Str}, (∀ c ∈ list, isWhitespace c = false) → trimStart list = list := by
    intro list plain
    cases list with
    | nil => rfl
    | cons c rest =>
        exact List.dropWhile_cons_of_neg (by rw [plain c List.mem_cons_self]; exact nofun)
  unfold trim
  rw [start plain, start fun c member => plain c (List.mem_reverse.mp member), List.reverse_reverse]

def IsIdChar (c : Char) : Prop :=
  c.isDigit = true ∨ c = '-'

theorem isIdChar_code {c : Char} (written : IsIdChar c) : 45 ≤ c.toNat ∧ c.toNat ≤ 57 := by
  rcases written with digit | rfl
  · have bounds : 48 ≤ c.toNat ∧ c.toNat ≤ 57 := by
      simpa [Char.isDigit, UInt32.le_iff_toNat_le] using digit
    omega
  · decide

theorem isIdChar_plain {c : Char} (written : IsIdChar c) : isWhitespace c = false := by
  obtain ⟨low, high⟩ := isIdChar_code written
  unfold isWhitespace
  simp
  omega

theorem isIdChar_byte {c : Char} (written : IsIdChar c) : UInt8.ofNat c.toNat ≠ ipcDelimiter := by
  obtain ⟨low, high⟩ := isIdChar_code written
  intro same
  have byte : (UInt8.ofNat c.toNat).toNat = c.toNat := UInt8.toNat_ofNat_of_lt' (by
    change c.toNat < 256
    omega)
  rw [same] at byte
  change 10 = c.toNat at byte
  omega

theorem text_written (id : I64) : ∀ c ∈ id.text, IsIdChar c := by
  intro c member
  unfold I64.text at member
  split at member
  · rcases List.mem_cons.mp member with rfl | digit
    · exact .inr rfl
    · exact .inl (toDigits_all _ c digit)
  · exact .inl (toDigits_all _ c member)

/-- What is decoded of an id, or of a part of one. -/
theorem decode_restore {text : Str} (written : ∀ c ∈ text, IsIdChar c) (last : UInt8) :
    Command.decode (ipcCmdRestore :: (asciiBytes text ++ [last])) =
      (parseI64 text).map .restore := by
  have ascii : ∀ c ∈ text, IsAscii c := fun c member => by
    have code := isIdChar_code (written c member)
    unfold IsAscii
    omega
  have plain : ∀ c ∈ text, isWhitespace c = false := fun c member =>
    isIdChar_plain (written c member)
  have body : asciiBytes text ++ [last] ≠ [] := List.append_ne_nil_of_right_ne_nil _ nofun
  cases shape : asciiBytes text ++ [last] with
  | nil => exact absurd shape body
  | cons first rest =>
      change (parseI64 (trim (fromUtf8Lossy (first :: rest).dropLast))).map Command.restore = _
      rw [← shape, List.dropLast_concat, fromUtf8Lossy_ascii ascii, trim_plain plain]

theorem asciiBytes_absent {text : Str} (written : ∀ c ∈ text, IsIdChar c) :
    ipcDelimiter ∉ asciiBytes text := by
  intro member
  obtain ⟨c, among, same⟩ := List.mem_map.mp member
  exact isIdChar_byte (written c among) same

/-- A delimiter is a frame's last byte. -/
theorem Command.frame_body (command : Command) :
    ∃ body last, command.frame = body ++ [last] ∧ ipcDelimiter ∉ body := by
  cases command with
  | restore id =>
      refine ⟨ipcCmdRestore :: asciiBytes id.text, ipcDelimiter, rfl, fun member => ?_⟩
      rcases List.mem_cons.mp member with same | later
      · cases same
      · exact asciiBytes_absent (text_written id) later
  | exit => exact ⟨[], ipcCmdExit, rfl, nofun⟩
  | status => exact ⟨[ipcCmdStatus], ipcDelimiter, rfl, by decide⟩
  | pause => exact ⟨[ipcCmdPause], ipcDelimiter, rfl, by decide⟩
  | resume => exact ⟨[ipcCmdResume], ipcDelimiter, rfl, by decide⟩

theorem Command.frame_upTo (command : Command) :
    upTo ipcDelimiter command.frame = command.frame := by
  obtain ⟨body, last, shape, absent⟩ := command.frame_body
  rw [shape, upTo_append_absent absent, upTo]
  split <;> rfl

theorem Command.decode_frame (command : Command) :
    Command.decode command.frame = if command = .exit then none else some command := by
  cases command with
  | restore id =>
      rw [Command.frame, decode_restore (text_written id), parseI64_text]
      rfl
  | exit => rfl
  | status => rfl
  | pause => rfl
  | resume => rfl

/-- However a frame is split, the daemon decodes the command it was written for, unless that
command is EXIT. -/
theorem frames_decoded (command : Command) (reads : List Fill)
    (delivers : Delivers reads command.frame) (status : Str) :
    (acceptAndDispatch (some reads) status).1 = some command ↔ command ≠ .exit := by
  rw [dispatched delivers, command.frame_upTo, command.decode_frame]
  by_cases exits : command = .exit
  · rw [if_pos exits]
    exact iff_of_false nofun fun differs => differs exits
  · rw [if_neg exits]
    exact iff_of_true rfl exits

theorem frames_decoded_sample :
    (acceptAndDispatch (some [.data [1, 45], .interrupted, .data [52, 50, 10]]) []).1 =
        some (.restore ⟨-42, by decide⟩) ↔ Command.restore ⟨-42, by decide⟩ ≠ .exit :=
  frames_decoded _ _ ⟨by simp, by simp, rfl⟩ []

/-- EXIT is written as one byte, which is dropped as the delimiter. -/
theorem frames_decoded_counterexample :
    Delivers [.data [ipcCmdExit]] Command.exit.frame ∧
      acceptAndDispatch (some [.data [ipcCmdExit]]) [] = (none, none) :=
  ⟨⟨by simp, by simp, rfl⟩, rfl⟩

def digitsIn (bytes : Bytes) : Nat :=
  bytes.countP fun byte => 48 ≤ byte && byte ≤ 57

theorem digitsIn_ascii {text : Str} (written : ∀ c ∈ text, IsIdChar c) :
    digitsIn (asciiBytes text) = text.countP Char.isDigit := by
  unfold digitsIn asciiBytes
  rw [List.countP_map]
  refine List.countP_congr fun c member => ?_
  obtain ⟨low, high⟩ := isIdChar_code (written c member)
  have byte : (UInt8.ofNat c.toNat).toNat = c.toNat := UInt8.toNat_ofNat_of_lt' (by
    change c.toNat < 256
    omega)
  simp [Char.isDigit, UInt8.le_iff_toNat_le, UInt32.le_iff_toNat_le, byte]

theorem countP_digits {digits : Str} (all : ∀ c ∈ digits, c.isDigit = true) (count : Nat) :
    (digits.take count).countP Char.isDigit = min count digits.length := by
  rw [List.countP_eq_length.mpr fun c member => all c (List.mem_of_mem_take member),
    List.length_take]

theorem parse_digits_some {magnitude : Nat} (bound : magnitude < 2 ^ 63) {count : Nat}
    (some : 0 < count) : parseI64 ((Nat.toDigits 10 magnitude).take count) ≠ none := by
  obtain ⟨other, less, same⟩ := toDigits_take some magnitude
  rw [same, parseI64_toDigits other (by omega), checked_of_bounds (by omega)]
  exact nofun

theorem parse_minus_some {magnitude : Nat} (bound : magnitude ≤ 2 ^ 63) {count : Nat}
    (some : 0 < count) : parseI64 ('-' :: (Nat.toDigits 10 magnitude).take count) ≠ none := by
  obtain ⟨other, less, same⟩ := toDigits_take some magnitude
  rw [same, parseI64_minus other (by omega), checked_of_bounds (by omega)]
  exact nofun

/-- The text of an id without its last character is refused if it had one digit at most. -/
theorem parse_truncated (id : I64) {count : Nat} (short : count < id.text.length) :
    parseI64 (id.text.take count) = none ↔ (id.text.take (count + 1)).countP Char.isDigit ≤ 1 := by
  obtain ⟨value, bounds⟩ := id
  unfold I64.text at short ⊢
  dsimp only at short ⊢
  by_cases negative : value < 0
  · rw [if_pos negative] at short ⊢
    rw [List.take_succ_cons, List.countP_cons_of_neg (by decide), countP_digits (toDigits_all _)]
    rw [List.length_cons] at short
    cases count with
    | zero => exact iff_of_true rfl (by omega)
    | succ count =>
        rw [List.take_succ_cons]
        cases count with
        | zero => exact iff_of_true rfl (by omega)
        | succ count =>
            refine iff_of_false (parse_minus_some (by omega) (Nat.succ_pos count)) (by omega)
  · rw [if_neg negative] at short ⊢
    rw [countP_digits (toDigits_all _)]
    cases count with
    | zero => exact iff_of_true rfl (by omega)
    | succ count => exact iff_of_false (parse_digits_some (by omega) (Nat.succ_pos count)) (by omega)

theorem decode_truncated (id : I64) {count : Nat} (short : count < id.text.length) :
    Command.decode (ipcCmdRestore :: asciiBytes (id.text.take (count + 1))) =
      (parseI64 (id.text.take count)).map .restore := by
  rw [List.take_add_one, List.getElem?_eq_getElem short, Option.toList_some]
  change Command.decode (ipcCmdRestore :: (id.text.take count ++ [id.text[count]]).map _) = _
  rw [List.map_append]
  exact decode_restore (fun c member => text_written id c (List.mem_of_mem_take member)) _

theorem Command.decode_take (command : Command) {count : Nat} (short : count < command.frame.length) :
    Command.decode (command.frame.take count) = none ↔ digitsIn (command.frame.take count) ≤ 1 := by
  have plain : ∀ cmd : UInt8, digitsIn [cmd] ≤ 1 := fun cmd => List.countP_le_length
  cases command with
  | restore id =>
      cases count with
      | zero => exact iff_of_true rfl (Nat.zero_le 1)
      | succ count =>
          have within : count ≤ (asciiBytes id.text).length := by
            simp only [Command.frame, List.length_cons, List.length_append, List.length_nil] at short
            omega
          rw [Command.frame, List.take_succ_cons, List.take_append_of_le_length within]
          have cut : (asciiBytes id.text).take count = asciiBytes (id.text.take count) :=
            List.map_take.symm
          have counted : digitsIn (ipcCmdRestore :: asciiBytes (id.text.take count)) =
              (id.text.take count).countP Char.isDigit := by
            rw [← digitsIn_ascii fun c member => text_written id c (List.mem_of_mem_take member)]
            exact List.countP_cons_of_neg (by decide)
          rw [cut, counted]
          cases count with
          | zero => exact iff_of_true rfl (Nat.zero_le 1)
          | succ count =>
              have inside : count < id.text.length := by
                rw [asciiBytes, List.length_map] at within
                omega
              rw [decode_truncated id inside, Option.map_eq_none_iff]
              exact parse_truncated id inside
  | exit =>
      cases count with
      | zero => exact iff_of_true rfl (by decide)
      | succ count => simp [Command.frame] at short
  | _ =>
      cases count with
      | zero => exact iff_of_true rfl (by decide)
      | succ count =>
          simp only [Command.frame, List.length_cons, List.length_nil] at short
          cases count with
          | zero => exact iff_of_true rfl (plain _)
          | succ count => omega

/-- A frame cut before its end is refused exactly if one digit of an id has arrived at most. -/
theorem truncated_refused (command : Command) (count : Nat) (short : count < command.frame.length)
    (reads : List Fill) (delivers : Delivers reads (command.frame.take count)) (status : Str) :
    (acceptAndDispatch (some reads) status).1 = none ↔
      digitsIn (command.frame.take count) ≤ 1 := by
  obtain ⟨body, last, shape, absent⟩ := command.frame_body
  have within : count ≤ body.length := by
    rw [shape, List.length_append, List.length_singleton] at short
    omega
  have undelimited : ipcDelimiter ∉ command.frame.take count := by
    rw [shape, List.take_append_of_le_length within]
    exact fun member => absent (List.mem_of_mem_take member)
  rw [dispatched delivers, upTo_absent undelimited]
  exact command.decode_take short

theorem truncated_refused_sample :
    (acceptAndDispatch (some [.data [1], .data [55]]) []).1 = none ↔
      digitsIn ((Command.restore ⟨712, by decide⟩).frame.take 2) ≤ 1 :=
  truncated_refused (.restore ⟨712, by decide⟩) 2 (by decide) [.data [1], .data [55]]
    ⟨by simp, by simp, rfl⟩ []

/-- RESTORE 12, cut before its delimiter, restores record 1. -/
theorem truncated_refused_counterexample :
    Delivers [.data [1, 49, 50]] ((Command.restore ⟨12, by decide⟩).frame.take 3) ∧
      (acceptAndDispatch (some [.data [1, 49, 50]]) []).1 = some (.restore ⟨1, by decide⟩) :=
  ⟨⟨by simp, by simp, rfl⟩, rfl⟩

end Y4p
