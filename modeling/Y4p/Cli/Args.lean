import Y4p.Core.Utils

/-! The arguments of a subcommand (`ArgContext` of `crates/cli/src/utils.rs`). -/

namespace Y4p

structure ArgContext where
  raw : Bool
  full : Bool
  force : Bool
  verbose : Bool
  help : Bool
  version : Bool
  useId : Bool
  positionals : List Str
  unknownFlags : List Str

namespace ArgContext

def empty : ArgContext where
  raw := false
  full := false
  force := false
  verbose := false
  help := false
  version := false
  useId := false
  positionals := []
  unknownFlags := []

def unknown (ctx : ArgContext) (flag : Str) : ArgContext :=
  { ctx with unknownFlags := ctx.unknownFlags ++ [flag] }

def long (ctx : ArgContext) (arg : Str) : ArgContext :=
  if arg = "--raw".toList then { ctx with raw := true }
  else if arg = "--full".toList then { ctx with full := true }
  else if arg = "--force".toList then { ctx with force := true }
  else if arg = "--verbose".toList then { ctx with verbose := true }
  else if arg = "--help".toList then { ctx with help := true }
  else if arg = "--version".toList then { ctx with version := true }
  else if arg = "--id".toList then { ctx with useId := true }
  else ctx.unknown arg

def short (ctx : ArgContext) (c : Char) : ArgContext :=
  match c with
  | 'R' => { ctx with raw := true }
  | 'A' => { ctx with full := true }
  | 'f' => { ctx with force := true }
  | 'v' => { ctx with verbose := true }
  | 'h' => { ctx with help := true }
  | 'V' => { ctx with version := true }
  | 'i' => { ctx with useId := true }
  | other => ctx.unknown ['-', other]

def add (ctx : ArgContext) (arg : Str) : ArgContext :=
  if startsWith arg "--".toList then ctx.long arg
  else if startsWith arg "-".toList && decide (1 < arg.length) then
    (arg.drop 1).foldl short ctx
  else { ctx with positionals := ctx.positionals ++ [arg] }

-- The executable and the subcommand come first.
def parse (args : List Str) : ArgContext :=
  (args.drop 2).foldl add empty

end ArgContext

end Y4p
