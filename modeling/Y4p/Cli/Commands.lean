import Y4p.Cli.List
import Y4p.Cli.Render
import Y4p.Cli.Store
import Y4p.Cli.Target
import Y4p.Daemon.Ipc

/-!
The commands (`crates/cli/src/lib.rs` and the module of each subcommand): what a command line
asks of the store, of standard input and of the daemon's socket, and what it prints.
-/

namespace Y4p

open Programs

inductive CliCall where
  | storage (call : Call)
  | fetchMetadata (limit : UInt64)
  | getTotalCount
  | validateKeywords (keywords : List Str)
  | searchMetadata (queries : List Str) (limit : UInt64)
  | readStdin
  | connect
  | writeAll (frame : Bytes)
  | readToString
  | printHelp
  | printVersion
  | stdout (text : Str)
  | stdoutBytes (data : Bytes)
  | stderr (text : Str)

-- A stream that cannot be read, or connected to, or written, answers `none` or `false`.
def CliCall.Answer : CliCall → Type
  | .storage call => call.Answer
  | .fetchMetadata _ => List MetaRow
  | .getTotalCount => Nat
  | .validateKeywords _ => List Str × List Str
  | .searchMetadata _ _ => List (Nat × MetaRow)
  | .readStdin => Option Slice
  | .connect | .writeAll _ => Bool
  | .readToString => Option Str
  | .printHelp | .printVersion | .stdout _ | .stdoutBytes _ | .stderr _ => Unit

abbrev CliProgram (α : Type) : Type := Program CliCall CliCall.Answer α

def facade {α : Type} (program : Io α) : CliProgram α :=
  Program.lift CliCall.storage (fun _ answer => answer) program

def printText (text : Str) : CliProgram Unit :=
  Program.ask (CliCall.stdout text)

def printBytes (data : Bytes) : CliProgram Unit :=
  Program.ask (CliCall.stdoutBytes data)

def printLine (text : Str) : CliProgram Unit :=
  printText (println text)

def errorLine (text : Str) : CliProgram Unit :=
  Program.ask (CliCall.stderr (println text))

def logError : Str := "error: ".toList
def logWarn : Str := "warn: ".toList

-- What a command line runs with: `now` is read for the store, `clock` for the table.
structure Invocation where
  sha3 : Bytes → Bytes
  tie : TieOrder
  width : UnicodeWidth
  maxHistory : UInt64
  now : Int
  clock : UInt64

inductive CliAction where
  | none
  | runDaemon (verbose : Bool)
  | pasteFrom (mime : Str)
  deriving DecidableEq

inductive Ending where
  | returns (action : CliAction)
  | exits (code : Nat)
  deriving DecidableEq

def done : CliProgram Ending :=
  pure (.returns .none)

def isOption (arg : Str) : Bool :=
  startsWith arg "-".toList

def hasFlag (args : List Str) (long short : Str) : Bool :=
  args.any fun arg => arg = long ∨ arg = short

namespace Invocation

variable (run : Invocation) (args : List Str)

def resolveTargetId (input : Str) (useId : Bool) : CliProgram (Except Str Int) :=
  match parseI64 input with
  | none => pure (.error ("invalid numerical value: '".toList ++ input ++ "'".toList))
  | some val =>
      if val.value < 0 then pure (.error ("index cannot be negative: ".toList ++ val.text))
      else if useId then pure (.ok val.value)
      else do
        let rows : List MetaRow ← Program.ask (CliCall.fetchMetadata run.maxHistory)
        match rows[val.value.toNat]? with
        | some row => pure (.ok row.id)
        | none => pure (.error ("index [".toList ++ val.text ++ "] is out of bounds.".toList))

def withTarget (refused : ArgContext → Bool) (unsupported missing : Str)
    (act : ArgContext → Int → CliProgram Unit) : CliProgram Unit :=
  let ctx := ArgContext.parse args
  if ctx.unknownFlags ≠ [] ∨ refused ctx then errorLine (logError ++ unsupported)
  else
    match ctx.positionals.head? with
    | none => errorLine (logError ++ missing)
    | some inputStr => do
        let resolved ← run.resolveTargetId inputStr ctx.useId
        match resolved with
        | .error e => errorLine (logError ++ e)
        | .ok realId => act ctx realId

def unsupported (name : Str) : Str :=
  "command '".toList ++ name ++ "' does not support specified options.".toList

def missingIdentifier : Str := "missing required identifier.".toList

def notFound (realId : Int) : Str :=
  logError ++ "record with ID ".toList ++ intText realId ++ " not found.".toList

def transactionFailure (message : String) : Str :=
  logError ++ "storage transaction failure: ".toList ++ message.toList

def deleteRun : CliProgram Unit :=
  run.withTarget args (fun ctx => ctx.raw || ctx.full || ctx.force || ctx.verbose)
    (unsupported "delete".toList) missingIdentifier fun _ realId => do
      let result ← facade (ClipboardDb.deleteById realId)
      match result with
      | .ok true =>
          printLine (logInfo ++ "removed entry [ID: ".toList ++ intText realId ++ "].".toList)
      | .ok false => errorLine (notFound realId)
      | .error e => errorLine (transactionFailure e)

def setPinState (isPinned : Bool) (cmdName : Str) : CliProgram Unit :=
  run.withTarget args (fun ctx => ctx.raw || ctx.full || ctx.force || ctx.verbose)
    (unsupported cmdName) missingIdentifier fun _ realId => do
      let result ← facade (ClipboardDb.setPinById realId isPinned)
      match result with
      | .ok true =>
          let verb := if isPinned then "pinned".toList else "unpinned".toList
          printLine (logInfo ++ verb ++ " entry [ID: ".toList ++ intText realId ++ "].".toList)
      | .ok false => errorLine (notFound realId)
      | .error e => errorLine (transactionFailure e)

def pinRun : CliProgram Unit :=
  run.setPinState args true "pin".toList

def unpinRun : CliProgram Unit :=
  run.setPinState args false "unpin".toList

def isTextShown (mime : Str) : Bool :=
  contains mime "text".toList || contains mime "UTF8".toList

def details (realId : Int) (mime : Str) (payload : Bytes) : Str :=
  println "--- DETAILS ---".toList ++
  println ("DB_ID:    ".toList ++ intText realId) ++
  println ("MIME:     ".toList ++ mime) ++
  println ("SIZE:     ".toList ++ Nat.toDigits 10 payload.length ++ " bytes".toList) ++
  println "---------------".toList ++
  (if isTextShown mime then println (fromUtf8Lossy payload)
  else
    println "[binary payload: terminal display suppressed]".toList ++
    println "hint: utilize '--raw' to pipe data to a file.".toList) ++
  println "---------------".toList

def showRun : CliProgram Unit :=
  run.withTarget args (fun ctx => ctx.full || ctx.force)
    (unsupported "show".toList) missingIdentifier fun ctx realId => do
      let content ← facade (getContentById realId)
      match content with
      | none =>
          errorLine (logError ++ "failed to fetch payload for ID ".toList ++ intText realId ++
            ".".toList)
      | some (mime, payload) =>
          if ctx.raw then printBytes payload else printText (details realId mime payload)

def restoreFrame (realId : Int) : Bytes :=
  ipcCmdRestore :: (asciiBytes (intText realId) ++ [ipcDelimiter])

def logRestore (idx : UInt64) : Str :=
  logInfo ++ "restored ID [".toList ++ Nat.toDigits 10 idx.toNat ++ "] to clipboard".toList

def notRunning : Str := logError ++ "daemon is not running.".toList

def copyToRun : CliProgram Unit :=
  run.withTarget args (fun ctx => ctx.raw || ctx.full || ctx.force)
    (unsupported "copy-to".toList) "missing ID.".toList fun ctx realId => do
      let _ ← facade (ClipboardDb.updateTimestamp run.now realId)
      let connected : Bool ← Program.ask CliCall.connect
      if connected then do
        let written : Bool ← Program.ask (CliCall.writeAll (restoreFrame realId))
        if written ∧ ctx.verbose then printLine (logRestore (.ofInt realId)) else pure ()
      else errorLine notRunning

def signalRun (name : Str) (command : Command) (message : Str) : CliProgram Ending :=
  let ctx := ArgContext.parse args
  if ctx.unknownFlags ≠ [] ∨
      ctx.raw || ctx.full || ctx.force || ctx.verbose || ctx.useId then do
    errorLine (logError ++ "command '".toList ++ name ++ "' does not support options.".toList)
    pure (.exits 1)
  else if ctx.positionals ≠ [] then do
    errorLine (logError ++ "command '".toList ++ name ++
      "' does not accept positional arguments.".toList)
    pure (.exits 1)
  else do
    let connected : Bool ← Program.ask CliCall.connect
    if !connected then do
      errorLine notRunning
      pure (.exits 1)
    else do
      let written : Bool ← Program.ask (CliCall.writeAll command.frame)
      if !written then do
        errorLine notRunning
        pure (.exits 1)
      else do
        printLine (logInfo ++ message)
        done

def msgMonitorPaused : Str := "clipboard monitoring paused.".toList
def msgMonitorResumed : Str := "clipboard monitoring resumed.".toList

def pauseRun : CliProgram Ending :=
  signalRun args "pause".toList .pause msgMonitorPaused

def resumeRun : CliProgram Ending :=
  signalRun args "resume".toList .resume msgMonitorResumed

def statusRun : CliProgram Ending :=
  let ctx := ArgContext.parse args
  if ctx.unknownFlags ≠ [] ∨
      ctx.raw || ctx.full || ctx.force || ctx.verbose || ctx.useId then do
    errorLine (logError ++ unsupported "status".toList)
    done
  else if ctx.positionals ≠ [] then do
    errorLine (logError ++ "command 'status' does not accept positional arguments.".toList)
    done
  else do
    let connected : Bool ← Program.ask CliCall.connect
    if !connected then do
      errorLine notRunning
      pure (.exits 1)
    else do
      let written : Bool ← Program.ask (CliCall.writeAll Command.status.frame)
      if !written then do
        errorLine (logError ++ "failed to send status request.".toList)
        pure (.exits 1)
      else do
        let read : Option Str ← Program.ask CliCall.readToString
        let response := read.getD []
        if response = [] then do
          errorLine (logError ++ "no response from daemon.".toList)
          pure (.exits 1)
        else do
          printText response
          done

def logSave (mime : Str) (size : Nat) : Str :=
  logInfo ++ "saved: ".toList ++ mime ++ " (".toList ++ Nat.toDigits 10 size ++ " bytes)".toList

def printIf (verbose : Bool) (text : Str) : CliProgram Unit :=
  if verbose then printLine text else pure ()

def synchronise (realId : Int) : CliProgram Unit := do
  let connected : Bool ← Program.ask CliCall.connect
  if connected then do
    let _ ← Program.ask (CliCall.writeAll (restoreFrame realId))
    pure ()
  else pure ()

def storeBuffer (mime : Str) (verbose : Bool) (buffer : Slice) : CliProgram Unit := do
  let result ← facade (ClipboardDb.insertRaw run.sha3 run.now run.tie mime buffer run.maxHistory)
  match result with
  | .ok realId =>
      if 0 ≤ realId then do
        printIf verbose (logSave mime buffer.bytes.length)
        synchronise realId
        printIf verbose (logInfo ++ "system clipboard synchronized.".toList)
      else
        printIf verbose
          (logInfo ++ "payload skipped by storage policy; not synchronized.".toList)
  | .error e => errorLine (logError ++ "database transaction failure: ".toList ++ e.toList)

def storeRun : CliProgram Unit :=
  let ctx := ArgContext.parse args
  if ctx.unknownFlags ≠ [] ∨ ctx.raw || ctx.full || ctx.force then
    errorLine (logError ++ unsupported "store".toList)
  else if 1 < ctx.positionals.length then
    errorLine (logError ++ "command 'store' accepts at most one MIME type argument.".toList)
  else do
    let stdin : Option Slice ← Program.ask CliCall.readStdin
    match stdin with
    | none => errorLine (logError ++ "standard input stream read failure.".toList)
    | some buffer =>
        if buffer.bytes = [] then
          printIf ctx.verbose (logInfo ++ "null payload detected; skipping storage.".toList)
        else run.storeBuffer (ctx.positionals.head?.getD defaultMime) ctx.verbose buffer

def wipeRun : CliProgram Ending :=
  let ctx := ArgContext.parse args
  if ctx.unknownFlags ≠ [] ∨ ctx.raw || ctx.full || ctx.verbose then do
    errorLine (logError ++ unsupported "wipe".toList)
    done
  else if ctx.positionals ≠ [] then do
    errorLine (logError ++ "command 'wipe' does not accept positional arguments.".toList)
    done
  else if !ctx.force then do
    errorLine (logError ++ "refusing to wipe without confirmation.".toList)
    errorLine "usage: y4p wipe --force".toList
    pure (.exits 1)
  else do
    let result ← facade ClipboardDb.wipe
    match result with
    | .ok _ =>
        printLine (logInfo ++ "storage purged and optimized (VACUUM completed).".toList)
    | .error e => errorLine (logError ++ "database reset failure: ".toList ++ e.toList)
    done

def listRun : CliProgram Unit :=
  let ctx := ArgContext.parse args
  match ctx.unknownFlags with
  | flag :: _ =>
      errorLine (logError ++ "unknown option detected: '".toList ++ flag ++ "'".toList)
  | [] =>
      if 1 < ctx.positionals.length then
        errorLine (logError ++ "command 'list' accepts only one range argument.".toList)
      else
        match parseRange ctx.positionals.head? 25 with
        | .error e => errorLine (logError ++ "argument error: ".toList ++ e)
        | .ok selection => do
            let allItems : List MetaRow ← Program.ask (CliCall.fetchMetadata run.maxHistory)
            let totalStored : Nat ← Program.ask CliCall.getTotalCount
            let items := targetItems ctx.full selection allItems
            if items = [] then
              printIf (!ctx.raw) (logInfo ++ "no entries found matching the criteria.".toList)
            else
              printText (renderList run.width run.clock "Clipboard History".toList items
                totalStored ctx.raw ctx.useId run.maxHistory)

def splitWhitespace (text : Str) : List Str :=
  (text.splitOnP isWhitespace).filter fun word => word ≠ []

-- `filter(|kw| seen.insert(kw.clone()))` keeps the first of equal keywords.
def searchKeywords (positionals : List Str) : List Str :=
  (positionals.flatMap splitWhitespace).eraseDups

def join (separator : Str) (words : List Str) : Str :=
  separator.intercalate words

def noMatch (words : List Str) : Str :=
  logInfo ++ "no entries matching '".toList ++ join " ".toList words ++ "' were found.".toList

def searchValid (ctx : ArgContext) (valid : List Str) : CliProgram Unit := do
  let results : List (Nat × MetaRow) ← Program.ask (CliCall.searchMetadata valid run.maxHistory)
  let totalStored : Nat ← Program.ask CliCall.getTotalCount
  if results = [] then printLine (noMatch valid)
  else
    let title := "search: '".toList ++ join " AND ".toList valid ++ "' (".toList ++
      Nat.toDigits 10 results.length ++ " hits)".toList
    printText (renderList run.width run.clock title results totalStored ctx.raw ctx.useId
      run.maxHistory)

def searchRun : CliProgram Unit :=
  let ctx := ArgContext.parse args
  if ctx.unknownFlags ≠ [] ∨ ctx.full || ctx.force then
    errorLine (logError ++ unsupported "search".toList)
  else if searchKeywords ctx.positionals = [] then do
    errorLine (logError ++ "missing required search keyword.".toList)
    printLine "usage: y4p search <keywords...> [--raw | -R] [--id | -i]".toList
  else do
    let keywords := searchKeywords ctx.positionals
    let found : List Str × List Str ← Program.ask (CliCall.validateKeywords keywords)
    if found.1 = [] then printLine (noMatch keywords)
    else do
      if found.2 ≠ [] then
        errorLine (logWarn ++ "ignored non-existent keywords: '".toList ++
          join " ".toList found.2 ++ "'".toList)
      else pure ()
      run.searchValid ctx found.1

def msgDaemonStart : Str := "starting y4p daemon...".toList

def daemonRun : CliProgram (Option Bool) :=
  let ctx := ArgContext.parse args
  if ctx.unknownFlags ≠ [] ∨ ctx.raw || ctx.full || ctx.force then do
    errorLine (logError ++ unsupported "daemon".toList)
    pure none
  else if ctx.positionals ≠ [] then do
    errorLine (logError ++ "command 'daemon' does not accept positional arguments.".toList)
    printLine "usage: y4p daemon [--verbose | -v]".toList
    pure none
  else do
    printLine (logInfo ++ msgDaemonStart)
    printIf ctx.verbose (logInfo ++ "extended event logging is active.".toList)
    pure (some ctx.verbose)

def pasteFromRun : CliProgram (Option Str) :=
  let ctx := ArgContext.parse args
  if ctx.unknownFlags ≠ [] ∨ ctx.raw || ctx.full || ctx.force || ctx.verbose then do
    errorLine (logError ++ "command 'paste-from' does not support options.".toList)
    pure none
  else if 1 < ctx.positionals.length then do
    errorLine (logError ++ "command 'paste-from' accepts at most one MIME type argument.".toList)
    pure none
  else pure (some (ctx.positionals.head?.getD defaultMime))

end Invocation

inductive Subcommand where
  | daemon
  | list
  | search
  | show
  | copyTo
  | store
  | delete
  | wipe
  | pin
  | unpin
  | pasteFrom
  | status
  | pause
  | resume
  | help
  | version
  deriving DecidableEq

def subcommands : List (Str × Subcommand) :=
  [("daemon".toList, .daemon), ("list".toList, .list), ("search".toList, .search),
    ("show".toList, .show), ("copy-to".toList, .copyTo), ("store".toList, .store),
    ("delete".toList, .delete), ("wipe".toList, .wipe), ("pin".toList, .pin),
    ("unpin".toList, .unpin), ("paste-from".toList, .pasteFrom), ("status".toList, .status),
    ("pause".toList, .pause), ("resume".toList, .resume), ("help".toList, .help),
    ("version".toList, .version)]

namespace Invocation

variable (run : Invocation) (args : List Str)

def dispatch : Subcommand → CliProgram Ending
  | .daemon => do
      let verbose ← daemonRun args
      match verbose with
      | some verbose => pure (.returns (.runDaemon verbose))
      | none => done
  | .list => do run.listRun args; done
  | .search => do run.searchRun args; done
  | .show => do run.showRun args; done
  | .copyTo => do run.copyToRun args; done
  | .store => do run.storeRun args; done
  | .delete => do run.deleteRun args; done
  | .wipe => wipeRun args
  | .pin => do run.pinRun args; done
  | .unpin => do run.unpinRun args; done
  | .pasteFrom => do
      let mime ← pasteFromRun args
      match mime with
      | some mime => pure (.returns (.pasteFrom mime))
      | none => done
  | .status => statusRun args
  | .pause => pauseRun args
  | .resume => resumeRun args
  | .help => do Program.ask CliCall.printHelp; done
  | .version => do Program.ask CliCall.printVersion; done

def handleCommand : CliProgram Ending :=
  if args.length < 2 ∨ hasFlag args "--help".toList "-h".toList then do
    Program.ask CliCall.printHelp
    done
  else if hasFlag args "--version".toList "-V".toList then do
    Program.ask CliCall.printVersion
    done
  else
    let cmd := args.getD 1 []
    if isOption cmd then do
      errorLine (logError ++ "invalid command format: '".toList ++ cmd ++ "'".toList)
      printLine "usage: y4p <command> [options]".toList
      pure (.exits 1)
    else
      match subcommands.lookup cmd with
      | some subcommand => run.dispatch args subcommand
      | none => do
          errorLine (logError ++ "unknown command: '".toList ++ cmd ++ "'".toList)
          printLine "consult 'y4p help' for valid operations.".toList
          pure (.exits 1)

end Invocation

end Y4p
