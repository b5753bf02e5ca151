import Y4p.Cli.Commands

/-!
A command line on its own: the store does what it is asked, standard input is given, and the daemon
listens or does not. There the commands act as the functions of the store that stand for them.
-/

namespace Y4p

open Programs

-- `daemon`: what it answers, if it runs.
structure Console where
  state : World × Nat
  stdin : Option Slice
  daemon : Option Str
  printed : List CliCall
  sent : List Bytes

namespace Console

def print (console : Console) (call : CliCall) : Console :=
  { console with printed := console.printed ++ [call] }

def send (console : Console) (frame : Bytes) : Console :=
  { console with sent := console.sent ++ [frame] }

end Console

structure Engine where
  readText : Bytes → Str
  maxClauses : Nat
  environment : Environment

namespace Invocation

variable (run : Invocation) (engine : Engine)

def answer : (call : CliCall) → Console → call.Answer × Console
  | .storage call, console =>
      let (answer, state) := call.step run.sha3 engine.environment console.state
      (answer, { console with state })
  | .fetchMetadata limit, console => (fetchMetadataUpTo run.tie console.state.1.db limit, console)
  | .getTotalCount, console => (console.state.1.db.clipboard.length, console)
  | .validateKeywords keywords, console =>
      (validateKeywords engine.readText console.state.1.db keywords, console)
  | .searchMetadata queries limit, console =>
      (searchMetadata engine.readText engine.maxClauses run.tie console.state.1.db queries limit,
        console)
  | .readStdin, console => (console.stdin, console)
  | .connect, console => (console.daemon.isSome, console)
  | .writeAll frame, console =>
      if console.daemon.isSome then (true, console.send frame) else (false, console)
  | .readToString, console => (console.daemon, console)
  | .printHelp, console => ((), console.print .printHelp)
  | .printVersion, console => ((), console.print .printVersion)
  | .stdout text, console => ((), console.print (.stdout text))
  | .stdoutBytes data, console => ((), console.print (.stdoutBytes data))
  | .stderr text, console => ((), console.print (.stderr text))

abbrev carryOut {α : Type} (program : CliProgram α) (console : Console) : α × Console :=
  program.exec (run.answer engine) console

variable {run engine}
variable {args : List Str} {console : Console}

theorem carryOut_facade {α : Type} (program : Io α) :
    run.carryOut engine (facade program) console =
      ((program.exec (Call.step run.sha3 engine.environment) console.state).1,
        { console with
          state := (program.exec (Call.step run.sha3 engine.environment) console.state).2 }) :=
  Program.exec_lift (fun state => { console with state }) (fun _ _ => ⟨rfl, rfl⟩) program
    console.state

theorem carryOut_bind {α β : Type} (program : CliProgram α) (rest : α → CliProgram β) :
    run.carryOut engine (program >>= rest) console =
      run.carryOut engine (rest (run.carryOut engine program console).1)
        (run.carryOut engine program console).2 :=
  Program.exec_bind _ program rest console

theorem carryOut_ask {α : Type} {call : CliCall} {rest : call.Answer → CliProgram α}
    {reply : call.Answer} {after : Console}
    (answered : run.answer engine call console = (reply, after)) :
    run.carryOut engine (Program.ask call >>= rest) console =
      run.carryOut engine (rest reply) after :=
  Program.exec_answer _ answered

theorem carryOut_printIf (verbose : Bool) (text : Str) :
    run.carryOut engine (printIf verbose text) console =
      ((), if verbose then console.print (.stdout (println text)) else console) := by
  cases verbose <;> rfl

/-- The id a command finds for its target is the one that the store's list gives. -/
theorem carryOut_resolveTargetId (input : Str) (useId : Bool) :
    run.carryOut engine (run.resolveTargetId input useId) console =
      (Y4p.resolveTargetId run.tie run.maxHistory input useId console.state.1.db, console) := by
  unfold resolveTargetId Y4p.resolveTargetId
  cases parseI64 input with
  | none => rfl
  | some val =>
      by_cases negative : val.value < 0
      · simp only [if_pos negative]
        rfl
      · cases useId with
        | true =>
            simp only [if_neg negative, if_true]
            rfl
        | false =>
            simp only [if_neg negative, Bool.false_eq_true, if_false]
            refine (carryOut_ask rfl).trans ?_
            dsimp only
            cases (fetchMetadataUpTo run.tie console.state.1.db run.maxHistory)[val.value.toNat]?
            · rfl
            · rfl

variable (run) in
def shown : Except Str Listing → List CliCall
  | .error message => [.stderr (println (logError ++ message))]
  | .ok listing =>
      if listing.items = [] then
        if listing.raw then []
        else [.stdout (println (logInfo ++ "no entries found matching the criteria.".toList))]
      else
        [.stdout (renderList run.width run.clock "Clipboard History".toList listing.items
          listing.totalStored listing.raw listing.useId run.maxHistory)]

/-- `y4p list` prints the entries that `listCommand` selects, and does nothing else. -/
theorem carryOut_listRun :
    run.carryOut engine (run.listRun args) console =
      ((), (run.shown (listCommand run.tie run.maxHistory args console.state.1.db)).foldl
        Console.print console) := by
  cases unknown : (ArgContext.parse args).unknownFlags with
  | cons flag rest =>
      simp only [listRun, listCommand, unknown]
      rfl
  | nil =>
      by_cases many : 1 < (ArgContext.parse args).positionals.length
      · simp only [listRun, listCommand, unknown, if_pos many]
        rfl
      · cases parsed : parseRange (ArgContext.parse args).positionals.head? 25 with
        | error message =>
            simp only [listRun, listCommand, unknown, if_neg many, parsed]
            rfl
        | ok selection =>
            simp only [listRun, listCommand, unknown, if_neg many, parsed]
            refine (carryOut_ask rfl).trans ((carryOut_ask rfl).trans ?_)
            simp only [shown]
            split
            · rw [carryOut_printIf]
              cases (ArgContext.parse args).raw <;> rfl
            · rfl

def announced (daemon : Option Str) : Option (Except String Int) → List Bytes
  | some (.ok realId) => if 0 ≤ realId ∧ daemon.isSome then [restoreFrame realId] else []
  | _ => []

variable (run engine) in
-- The command stores as `stores` does, and brings to the clipboard what is then a record.
def Records (program : CliProgram Unit) (stores : Io (Option (Except String Int)))
    (console : Console) : Prop :=
  let stored := stores.exec (Call.step run.sha3 engine.environment) console.state
  let ended := (run.carryOut engine program console).2
  ended.state = stored.2 ∧ ended.sent = console.sent ++ announced console.daemon stored.1

theorem Records.read {stores : Io (Option (Except String Int))}
    {rest : Option Slice → CliProgram Unit}
    (records : run.Records engine (rest console.stdin) stores console) :
    run.Records engine (Program.ask CliCall.readStdin >>= rest) stores console :=
  records

theorem records_printIf (verbose : Bool) (text : Str) :
    run.Records engine (printIf verbose text) (pure none) console := by
  cases verbose <;> exact ⟨rfl, (List.append_nil _).symm⟩

theorem carryOut_synchronise (realId : Int) :
    run.carryOut engine (synchronise realId) console =
      ((), if console.daemon.isSome then console.send (restoreFrame realId) else console) := by
  obtain ⟨state, stdin, _ | response, printed, sent⟩ := console
  · rfl
  · rfl

theorem records_storeBuffer (mime : Str) (verbose : Bool) (buffer : Slice) :
    run.Records engine (run.storeBuffer mime verbose buffer)
      (do
        let result ← ClipboardDb.insertRaw run.sha3 run.now run.tie mime buffer run.maxHistory
        pure (some result))
      console := by
  unfold Records
  dsimp only
  rw [storeBuffer, carryOut_bind, carryOut_facade, Program.exec_bind]
  cases (ClipboardDb.insertRaw run.sha3 run.now run.tie mime buffer run.maxHistory).exec
    (Call.step run.sha3 engine.environment) console.state with
  | mk result after =>
      cases result with
      | error e => exact ⟨rfl, (List.append_nil _).symm⟩
      | ok realId =>
          by_cases recorded : 0 ≤ realId
          · simp only [if_pos recorded, carryOut_bind, carryOut_printIf, carryOut_synchronise]
            cases verbose <;> cases console.daemon <;>
              simp [announced, recorded, Console.send, Console.print]
          · simp only [if_neg recorded, carryOut_printIf]
            cases verbose <;> simp [announced, recorded, Console.print]

/-- `y4p store` records what `storeCommand` records. -/
theorem records_storeRun :
    run.Records engine (run.storeRun args)
      (storeCommand run.sha3 args console.stdin run.now run.tie run.maxHistory) console := by
  have alike : ((ArgContext.parse args).unknownFlags ≠ [] ∨
      ((ArgContext.parse args).raw || (ArgContext.parse args).full ||
        (ArgContext.parse args).force) = true) ↔
      (ArgContext.parse args).unknownFlags ≠ [] ∨ (ArgContext.parse args).raw = true ∨
        (ArgContext.parse args).full = true ∨ (ArgContext.parse args).force = true := by
    simp only [Bool.or_eq_true, or_assoc]
  unfold storeRun storeCommand
  simp only [alike]
  split
  · exact ⟨rfl, (List.append_nil _).symm⟩
  · split
    · exact ⟨rfl, (List.append_nil _).symm⟩
    · refine Records.read ?_
      cases console.stdin with
      | none => exact ⟨rfl, (List.append_nil _).symm⟩
      | some buffer =>
          dsimp only
          split
          · exact records_printIf _ _
          · exact records_storeBuffer _ _ _

end Invocation

end Y4p
