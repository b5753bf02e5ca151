import Y4p.Core.Utils

/-!
The history cap: `Config::parse` (`crates/core/src/config.rs`) and
`get_max_history` (`crates/core/src/lib.rs`).
-/

namespace Y4p

structure Config where
  maxHistory : UInt64
  dropRtf : Bool
  deriving DecidableEq

def Config.default : Config where
  maxHistory := defaultMaxHistory
  dropRtf := true

-- `str::lines`: split at `\n`, a final empty piece dropped, one `\r` before it removed.
def splitLines : Str → List Str
  | [] => []
  | c :: rest =>
      if c = '\n' then [] :: splitLines rest
      else
        match splitLines rest with
        | [] => [[c]]
        | line :: lines =>
            if c = '\r' ∧ rest.head? = some '\n' then [] :: lines else (c :: line) :: lines

-- `str::split_once('=')`.
def splitOnce (line : Str) : Option (Str × Str) :=
  match line.dropWhile fun c => c ≠ '=' with
  | [] => none
  | _ :: value => some (line.takeWhile fun c => c ≠ '=', value)

def parseDigits (digits : Str) : Option Nat :=
  if digits ≠ [] ∧ digits.all Char.isDigit then
    some (digits.foldl (fun value c => value * 10 + (c.toNat - '0'.toNat)) 0)
  else none

def stripCommentFrom : Bool → Str → Str
  | _, [] => []
  | inString, c :: rest =>
      if c = '"' then c :: stripCommentFrom (!inString) rest
      else if c = '#' ∧ !inString then []
      else c :: stripCommentFrom inString rest

def stripComment (line : Str) : Str :=
  stripCommentFrom false line

def parseBool (value : Str) : Option Bool :=
  if value = "true".toList then some true
  else if value = "false".toList then some false
  else none

-- `value.parse::<usize>().ok().filter(|&n| n > 0)`: an optional `+`, then digits in range.
def parseUsize (value : Str) : Option UInt64 :=
  let digits := if startsWith value ['+'] then value.drop 1 else value
  match parseDigits digits with
  | some n => if 0 < n ∧ n < 2 ^ 64 then some (UInt64.ofNat n) else none
  | none => none

def applyKv (config : Config) (heading key value : Str) : Config :=
  if heading = "general".toList ∧ key = "max_history".toList then
    match parseUsize value with
    | some n => { config with maxHistory := n }
    | none => config
  else if heading = "mime".toList ∧ key = "drop_rtf".toList then
    match parseBool value with
    | some b => { config with dropRtf := b }
    | none => config
  else config

def parseLine (config : Config) (heading : Str) (line : Str) : Config × Str :=
  let line := trim (stripComment line)
  if line = [] then (config, heading)
  else if startsWith line ['['] ∧ line.getLast? = some ']' ∧ ¬ contains line ['='] then
    (config, trim (line.drop 1).dropLast)
  else
    match splitOnce line with
    | none => (config, heading)
    | some (key, value) => (applyKv config heading (trim key) (trim value), heading)

def Config.parse (content : Str) : Config :=
  ((splitLines content).foldl (fun state line => parseLine state.1 state.2 line)
    (Config.default, [])).1

-- `get_max_history`: the environment variable if it holds a positive `i64`, else the file.
def getMaxHistory (setting : Option Str) (loaded : Config) : UInt64 :=
  let positive := setting.bind fun value =>
    let value := trim value
    let digits := if startsWith value ['+'] then value.drop 1 else value
    (parseDigits digits).filter fun n => 0 < n ∧ n < 2 ^ 63
  match positive with
  | some n => UInt64.ofNat n
  | none => loaded.maxHistory

example : Config.parse "[general] # caps\nmax_history = 12\r\n[mime]\ndrop_rtf=false".toList =
    { maxHistory := 12, dropRtf := false } := by decide

end Y4p
