import Y4p.Daemon.Spool
import Y4p.Image.Route
import Y4p.Storage.Facade

/-!
What the worker does with a job (`crates/daemon/src/worker.rs`).
-/

namespace Y4p

open Programs

def fingerprint (sha3 : Bytes → Bytes) (data : Bytes) : Str :=
  toHex (sha3 data)

def processJob (sha3 : Bytes → Bytes) (mime : Str) (data : Bytes) : Work (Str × Bytes × Str) := do
  let (mime, data) ← routeForIngest mime data
  pure (mime, data, fingerprint sha3 data)

def readHead (path : SpoolPath) : Work Bytes := do
  let opened : Except String Bytes ← Program.ask (WorkCall.openFile path)
  match opened with
  | .error _ => pure []
  | .ok file => pure (file.take sniffHeadBytes)

def settleRoute (mime : Str) (spooled : SpooledFile) :
    FileRoute SpooledFile → Work (Str × SpooledFile)
  -- The superseded original is dropped.
  | .converted converted output => do
      unlink spooled.path
      pure (converted, output)
  | .original => pure (mime, spooled)

def convertIfWanted (sha3 : Bytes → Bytes) (mime : Str) (spooled : SpooledFile) :
    Work (Str × SpooledFile) := do
  let head ← readHead spooled.path
  let routed ← routeFileForIngest mime head
    (transcodeSpooled sha3 spooled (.ofNat maxPayloadBytes))
  settleRoute mime spooled routed

inductive JobCall where
  | work (call : WorkCall)
  | storage (call : Call)

def JobCall.Answer : JobCall → Type
  | .work call => call.Answer
  | .storage call => call.Answer

abbrev JobProgram (α : Type) : Type := Program JobCall JobCall.Answer α

def working {α : Type} (program : Work α) : JobProgram α :=
  Program.lift JobCall.work (fun _ answer => answer) program

def storing {α : Type} (program : Io α) : JobProgram α :=
  Program.lift JobCall.storage (fun _ answer => answer) program

abbrev Saved := Str × Nat

def storeSpooled (sha3 : Bytes → Bytes) (now : Int) (tie : TieOrder) (mime : Str)
    (spooled : SpooledFile) (maxHistory : UInt64) : JobProgram (Except String (Option Saved)) := do
  let (mime, spooled) ← working (convertIfWanted sha3 mime spooled)
  let stored : Except String Int ← storing (insertSpooled now tie mime spooled maxHistory)
  match stored with
  | .error message => pure (.error message)
  | .ok _ => pure (.ok (some (mime, spooled.len.toNat)))

end Y4p
