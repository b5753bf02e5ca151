import Y4p.Core.Payload
import Y4p.Lib.Ensures
import Y4p.Storage.Store

/-!
The database and the cache directory as one world, the calls the facade makes on
it, and `FileCache` (`crates/storage/src/cache.rs`) as programs over these calls.
-/

namespace Y4p

open Programs

-- `cache` holds the files `<hash>.cache`; the spool directory lies inside the cache directory.
structure World where
  db : Db
  cache : Str → Option Bytes
  spool : SpoolPath → Option Bytes
  dir : Bool

namespace World

def empty : World where
  db := Db.empty
  cache _ := none
  spool _ := none
  dir := true

def put (world : World) (hash : Str) (file : Option Bytes) : World :=
  { world with cache := fun other => if other = hash then file else world.cache other }

def putSpool (world : World) (source : SpoolPath) (file : Option Bytes) : World :=
  { world with spool := fun other => if other = source then file else world.spool other }

@[simp] theorem put_db (world : World) (hash : Str) (file : Option Bytes) :
    (world.put hash file).db = world.db := rfl

@[simp] theorem put_spool (world : World) (hash : Str) (file : Option Bytes) :
    (world.put hash file).spool = world.spool := rfl

@[simp] theorem put_dir (world : World) (hash : Str) (file : Option Bytes) :
    (world.put hash file).dir = world.dir := rfl

theorem put_cache_self (world : World) (hash : Str) (file : Option Bytes) :
    (world.put hash file).cache hash = file := if_pos rfl

theorem put_cache_of_ne {hash other : Str} (world : World) (file : Option Bytes)
    (differs : other ≠ hash) : (world.put hash file).cache other = world.cache other :=
  if_neg differs

@[simp] theorem putSpool_db (world : World) (source : SpoolPath) (file : Option Bytes) :
    (world.putSpool source file).db = world.db := rfl

@[simp] theorem putSpool_cache (world : World) (source : SpoolPath) (file : Option Bytes) :
    (world.putSpool source file).cache = world.cache := rfl

@[simp] theorem putSpool_dir (world : World) (source : SpoolPath) (file : Option Bytes) :
    (world.putSpool source file).dir = world.dir := rfl

theorem putSpool_spool_self (world : World) (source : SpoolPath) (file : Option Bytes) :
    (world.putSpool source file).spool source = file := if_pos rfl

end World

-- One transaction or one file-system call each; `spool` is the spooler finishing a file.
inductive Call where
  | store (op : StoreOp)
  | spool (source : SpoolPath) (data : Bytes)
  | pathExists (hash : Str)
  | write (hash : Str) (data : Bytes)
  | rename (source : SpoolPath) (hash : Str)
  | copy (source : SpoolPath) (hash : Str)
  | removeSpool (source : SpoolPath)
  | remove (hash : Str)
  | read (hash : Str)
  | openSpool (source : SpoolPath)
  | readHandle (handle : Bytes) (limit : Nat)
  | removeDirAll
  | createDirAll

def Call.Answer : Call → Type
  | .store op => op.Result
  | .spool .. => Unit
  | .pathExists _ => Bool
  | .read _ => Option Bytes
  | .openSpool _ | .readHandle .. => Except String Bytes
  | _ => Except String Unit

def notFound : String := "No such file or directory (os error 2)"

section
variable (sha3 : Bytes → Bytes)

def Call.run (faults : Faults) : (call : Call) → World → call.Answer × World
  | .store op, world =>
      ((op.run sha3 faults world.db).1, { world with db := (op.run sha3 faults world.db).2 })
  | .spool source data, world => ((), world.putSpool source (some data))
  | .pathExists hash, world => ((world.cache hash).isSome, world)
  | .write hash data, world =>
      if world.dir then (.ok (), world.put hash (some data)) else (.error notFound, world)
  | .rename source hash, world =>
      match world.spool source with
      | some data =>
          if world.dir then (.ok (), (world.put hash (some data)).putSpool source none)
          else (.error notFound, world)
      | none => (.error notFound, world)
  | .copy source hash, world =>
      match world.spool source with
      | some data =>
          if world.dir then (.ok (), world.put hash (some data)) else (.error notFound, world)
      | none => (.error notFound, world)
  | .removeSpool source, world =>
      match world.spool source with
      | some _ => (.ok (), world.putSpool source none)
      | none => (.error notFound, world)
  | .remove hash, world =>
      match world.cache hash with
      | some _ => (.ok (), world.put hash none)
      | none => (.error notFound, world)
  | .read hash, world => (world.cache hash, world)
  | .openSpool source, world =>
      match world.spool source with
      | some data => (.ok data, world)
      | none => (.error notFound, world)
  | .readHandle handle limit, world => (.ok (handle.take limit), world)
  | .removeDirAll, world =>
      if world.dir then
        (.ok (), { world with cache := fun _ => none, spool := fun _ => none, dir := false })
      else (.error notFound, world)
  | .createDirAll, world => (.ok (), { world with dir := true })

-- `written`: how much of its data a write or copy left behind, if it got as far as the file.
structure IoFailure where
  written : Option Nat
  error : String

def World.putPartial (world : World) (hash : Str) (data : Bytes) (failure : IoFailure) : World :=
  match failure.written with
  | some count => if world.dir then world.put hash (some (data.take count)) else world
  | none => world

def Call.failed (failure : IoFailure) : (call : Call) → World → Option (call.Answer × World)
  | .write hash data, world => some (.error failure.error, world.putPartial hash data failure)
  | .copy source hash, world =>
      match world.spool source with
      | some data => some (.error failure.error, world.putPartial hash data failure)
      | none => some (.error failure.error, world)
  | .rename .., world => some (.error failure.error, world)
  | .removeSpool _, world => some (.error failure.error, world)
  | .remove _, world => some (.error failure.error, world)
  | .read _, world => some (none, world)
  | .openSpool _, world => some (.error failure.error, world)
  | .readHandle .., world => some (.error failure.error, world)
  | .createDirAll, world => some (.error failure.error, world)
  | _, _ => none

-- Which calls fail, by their number in the run, and the failing writes of each transaction.
structure Environment where
  sql : Nat → WriteFaults
  io : Nat → Call → Option IoFailure

def Environment.calm : Environment where
  sql _ := .none
  io _ _ := none

def Call.step (environment : Environment) (call : Call) (state : World × Nat) :
    call.Answer × (World × Nat) :=
  match (environment.io state.2 call).bind fun failure => call.failed failure state.1 with
  | some (answer, world) => (answer, world, state.2 + 1)
  | none =>
      let ended := call.run sha3 (environment.sql state.2).hits state.1
      (ended.1, ended.2, state.2 + 1)

end

abbrev Io (α : Type) : Type := Program Call Call.Answer α

namespace FileCache

def store (hash : Str) (data : Bytes) : Io (Except String Unit) := do
  let present : Bool ← Program.ask (Call.pathExists hash)
  if present then pure (.ok ())
  else Program.ask (Call.write hash data)

inductive Adoption where
  | placed
  | present
  deriving DecidableEq

def copyIn (hash : Str) (source : SpoolPath) : Io (Except String Adoption) := do
  let copied : Except String Unit ← Program.ask (Call.copy source hash)
  match copied with
  | .ok _ => do
      let _ ← Program.ask (Call.removeSpool source)
      pure (.ok .placed)
  | .error message => do
      let _ ← Program.ask (Call.remove hash)
      pure (.error message)

def adopt (hash : Str) (source : SpoolPath) : Io (Except String Adoption) := do
  let present : Bool ← Program.ask (Call.pathExists hash)
  if present then pure (.ok .present)
  else do
    let renamed : Except String Unit ← Program.ask (Call.rename source hash)
    match renamed with
    | .ok _ => pure (.ok .placed)
    | .error _ => copyIn hash source

def remove (hash : Str) : Io Unit := do
  let _ ← Program.ask (Call.remove hash)
  pure ()

def removeMany : List Str → Io Unit
  | [] => pure ()
  | hash :: rest => do
      remove hash
      removeMany rest

def clear : Io (Except String Unit) := do
  let removed : Except String Unit ← Program.ask Call.removeDirAll
  match removed with
  | .error message => pure (.error message)
  | .ok _ => Program.ask Call.createDirAll

end FileCache

end Y4p
