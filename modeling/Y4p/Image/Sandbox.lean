import Y4p.Core.StrIndex
import Y4p.Image.Transcode
import Y4p.Lib.Ensures
import Y4p.Lib.FileTree

/-!
Where the external converter may spill to disk: its scratch directory, looked for and made
private by `create_scratch_dir` (`crates/image/src/sandbox.rs`), and the runs that need one
(`crates/image/src/magick.rs`).
-/

namespace Y4p.Sandbox

open Programs FileTrees

inductive ErrorKind where
  | alreadyExists
  | notFound
  | notADirectory
  | filesystemLoop
  | permissionDenied
  | other
  deriving DecidableEq

structure IoError where
  kind : ErrorKind
  text : String
  deriving DecidableEq

def osError : Errno → IoError
  | .eexist => ⟨.alreadyExists, "File exists (os error 17)"⟩
  | .enoent => ⟨.notFound, "No such file or directory (os error 2)"⟩
  | .enotdir => ⟨.notADirectory, "Not a directory (os error 20)"⟩
  | .eloop => ⟨.filesystemLoop, "Too many levels of symbolic links (os error 40)"⟩

-- `runtimeDir` and `searchPath` are `$XDG_RUNTIME_DIR` and `$PATH`; `uid` is the effective one.
structure Process where
  runtimeDir : Option Bytes
  searchPath : Option Bytes
  uid : UInt32
  pid : UInt32
  umask : UInt32
  workingDir : Location

structure ChildEnv where
  vars : List (Bytes × Bytes)
  deriving DecidableEq

def ChildEnv.new : ChildEnv where
  vars := []

def ChildEnv.set (env : ChildEnv) (key value : Bytes) : ChildEnv where
  vars := (env.vars.filter fun existing => existing.1 ≠ key) ++ [(key, value)]

-- What `run_filter_in_env` is given, less the streams it reads and writes.
structure FilterArgs where
  program : Bytes
  args : List Bytes
  env : ChildEnv
  timeout : Option Nat

structure Transfer where
  bytesIn : UInt64
  bytesOut : UInt64

inductive Call where
  | lstat (path : Bytes)
  | mkdir (path : Bytes) (mode : UInt32)
  | chmod (path : Bytes) (mode : UInt32)
  | fetchNext
  | runFilter (run : FilterArgs)
  | runFilterFile (run : FilterArgs)
  | removeDirAll (path : Bytes)

def Call.Answer : Call → Type
  | .lstat _ => Except IoError Entry
  | .mkdir .. | .chmod .. => Except IoError Unit
  | .fetchNext => UInt64
  | .runFilter _ | .runFilterFile _ => Except PipelineError Transfer
  | .removeDirAll _ => Unit

abbrev Script (α : Type) : Type := Program Call Call.Answer α

def scratchDirName : Bytes := strBytes "y4p-magick".toList

def scratchFallbackRoot : Bytes := strBytes "/tmp".toList

def privateMode : UInt32 := 0o700

def groupOtherBits : UInt32 := 0o077

structure ScratchDir where
  path : Bytes
  deriving DecidableEq

def isPrivateEntry (uid : UInt32) (entry : Entry) : Bool :=
  entry.kind = .directory && entry.uid = uid && entry.mode &&& groupOtherBits = 0

def isPrivateDir (path : Bytes) (uid : UInt32) : Script Bool := do
  let found : Except IoError Entry ← Program.ask (Call.lstat path)
  match found with
  | .ok entry => pure (isPrivateEntry uid entry)
  | .error _ => pure false

def refused (path : Bytes) : IoError where
  kind := .permissionDenied
  text :=
    String.ofList (fromUtf8Lossy path) ++ " is not a private directory of the current user"

-- The last line of `ensure_private_dir`.
def confirmPrivateDir (path : Bytes) (uid : UInt32) : Script (Except IoError Unit) := do
  let isPrivate ← isPrivateDir path uid
  if isPrivate then pure (.ok ()) else pure (.error (refused path))

-- `ensure_private_dir` once there is something at the path.
def tightenPrivateDir (path : Bytes) (uid : UInt32) : Script (Except IoError Unit) := do
  let found : Except IoError Entry ← Program.ask (Call.lstat path)
  match found with
  | .error error => pure (.error error)
  | .ok entry =>
      if entry.kind ≠ .directory ∨ entry.uid ≠ uid then pure (.error (refused path))
      else if entry.mode &&& groupOtherBits ≠ 0 then do
        let changed : Except IoError Unit ← Program.ask (Call.chmod path privateMode)
        match changed with
        | .error error => pure (.error error)
        | .ok () => confirmPrivateDir path uid
      else confirmPrivateDir path uid

def ensurePrivateDir (path : Bytes) (uid : UInt32) : Script (Except IoError Unit) := do
  let created : Except IoError Unit ← Program.ask (Call.mkdir path privateMode)
  match created with
  | .ok () => tightenPrivateDir path uid
  | .error error =>
      if error.kind = .alreadyExists then tightenPrivateDir path uid else pure (.error error)

def runtimeBase (runtime : Bytes) : Bytes :=
  join runtime scratchDirName

def fallbackName (uid : UInt32) : Bytes :=
  scratchDirName ++ strBytes "-".toList ++ decimal uid.toNat

def fallbackBase (fallbackRoot : Bytes) (uid : UInt32) : Bytes :=
  join fallbackRoot (fallbackName uid)

-- The `if let` of `private_base`.
def runtimePrivateBase (runtimeDir : Option Bytes) (uid : UInt32) : Script (Option Bytes) :=
  match runtimeDir with
  | none => pure none
  | some runtime =>
      if isAbsolute runtime then do
        let isPrivate ← isPrivateDir runtime uid
        if isPrivate then do
          let ensured ← ensurePrivateDir (runtimeBase runtime) uid
          match ensured with
          | .ok () => pure (some (runtimeBase runtime))
          | .error _ => pure none
        else pure none
      else pure none

def fallbackPrivateBase (fallbackRoot : Bytes) (uid : UInt32) :
    Script (Except IoError Bytes) := do
  let ensured ← ensurePrivateDir (fallbackBase fallbackRoot uid) uid
  match ensured with
  | .ok () => pure (.ok (fallbackBase fallbackRoot uid))
  | .error error => pure (.error error)

def privateBase (runtimeDir : Option Bytes) (fallbackRoot : Bytes) (uid : UInt32) :
    Script (Except IoError Bytes) := do
  let found ← runtimePrivateBase runtimeDir uid
  match found with
  | some base => pure (.ok base)
  | none => fallbackPrivateBase fallbackRoot uid

def runName (pid : UInt32) (number : UInt64) : Bytes :=
  strBytes "run-".toList ++ decimal pid.toNat ++ strBytes "-".toList ++ decimal number.toNat

def noUnusedName : IoError where
  kind := .alreadyExists
  text := "no unused scratch directory name"

-- The loop of `unique_child_with`, with as many rounds left.
def uniqueChildTries (pid : UInt32) (base : Bytes) : Nat → Script (Except IoError ScratchDir)
  | 0 => pure (.error noUnusedName)
  | tries + 1 => do
      let number : UInt64 ← Program.ask Call.fetchNext
      let path := join base (runName pid number)
      let created : Except IoError Unit ← Program.ask (Call.mkdir path privateMode)
      match created with
      | .ok () => pure (.ok ⟨path⟩)
      | .error error =>
          if error.kind = .alreadyExists then uniqueChildTries pid base tries
          else pure (.error error)

def uniqueChild (pid : UInt32) (base : Bytes) : Script (Except IoError ScratchDir) :=
  uniqueChildTries pid base 16

def createScratchDirIn (runtimeDir : Option Bytes) (fallbackRoot : Bytes) (uid pid : UInt32) :
    Script (Except IoError ScratchDir) := do
  let found ← privateBase runtimeDir fallbackRoot uid
  match found with
  | .ok base => uniqueChild pid base
  | .error error => pure (.error error)

def createScratchDir (process : Process) : Script (Except IoError ScratchDir) :=
  createScratchDirIn process.runtimeDir scratchFallbackRoot process.uid process.pid

def childEnvWith (path : Option Bytes) (scratch : Option Bytes) : ChildEnv :=
  let env := match path with
    | some path => ChildEnv.new.set (strBytes "PATH".toList) path
    | none => ChildEnv.new
  match scratch with
  | some dir => (env.set (strBytes "MAGICK_TEMPORARY_PATH".toList) dir).set
      (strBytes "TMPDIR".toList) dir
  | none => env

def childEnv (process : Process) (scratch : Option Bytes) : ChildEnv :=
  childEnvWith process.searchPath scratch

def magickProgram : Bytes := strBytes "magick".toList

-- The scratch directory is removed when its guard is dropped, at the end of the run.
def runIsolated (process : Process) (program : Bytes) (scratch : Except IoError ScratchDir)
    (args : List Bytes) (timeout : Option Nat) : Script (Except PipelineError Transfer) :=
  match scratch with
  | .error error => pure (.error (.isolation error.text))
  | .ok dir => do
      let env := childEnv process (some dir.path)
      let converted : Except PipelineError Transfer ←
        Program.ask (Call.runFilter ⟨program, args, env, timeout⟩)
      let _ : Unit ← Program.ask (Call.removeDirAll dir.path)
      pure converted

def run (process : Process) (args : List Bytes) : Script (Except PipelineError Transfer) := do
  let scratch ← createScratchDir process
  runIsolated process magickProgram scratch args none

def runWithTimeout (process : Process) (args : List Bytes) (timeout : Nat) :
    Script (Except PipelineError Transfer) := do
  let scratch ← createScratchDir process
  runIsolated process magickProgram scratch args (some timeout)

def runFileWithTimeout (process : Process) (args : List Bytes) (timeout : Nat) :
    Script (Except PipelineError Transfer) := do
  let scratch ← createScratchDir process
  match scratch with
  | .error error => pure (.error (.isolation error.text))
  | .ok dir => do
      let env := childEnv process (some dir.path)
      let converted : Except PipelineError Transfer ←
        Program.ask (Call.runFilterFile ⟨magickProgram, args, env, some timeout⟩)
      let _ : Unit ← Program.ask (Call.removeDirAll dir.path)
      pure converted

-- `fault` is the error that a call fails with at its time, before it does anything; `next` is the
-- number that the shared counter is at; what the filter and the removal do to the tree is theirs.
structure World where
  tree : Tree
  clock : Nat
  fault : Nat → Option IoError
  next : Nat → UInt64
  filter : FilterArgs → Tree → Except PipelineError Transfer × Tree
  removed : Bytes → Tree → Tree

def World.tick (world : World) : World :=
  { world with clock := world.clock + 1 }

def World.attempt {α : Type} (world : World) (action : Tree → Except Errno (α × Tree)) :
    Except IoError α × World :=
  match world.fault world.clock with
  | some error => (.error error, world.tick)
  | none =>
      match action world.tree with
      | .error errno => (.error (osError errno), world.tick)
      | .ok (answer, tree) => (.ok answer, { world.tick with tree := tree })

def World.filtered (world : World) (run : FilterArgs) : Except PipelineError Transfer × World :=
  let ended := world.filter run world.tree
  (ended.1, { world.tick with tree := ended.2 })

def step (process : Process) : (call : Call) → World → call.Answer × World
  | .lstat path, world => world.attempt fun tree =>
      (tree.lstat process.workingDir path).map fun entry => (entry, tree)
  | .mkdir path mode, world => world.attempt fun tree =>
      (tree.mkdir process.workingDir path process.uid process.umask mode).map fun made => ((), made)
  | .chmod path mode, world => world.attempt fun tree =>
      (tree.chmod process.workingDir path mode).map fun changed => ((), changed)
  | .fetchNext, world => (world.next world.clock, world.tick)
  | .runFilter run, world | .runFilterFile run, world => world.filtered run
  | .removeDirAll path, world =>
      ((), { world.tick with tree := world.removed path world.tree })

end Y4p.Sandbox
