import Y4p.Image.Transcode
import Y4p.Wayland.Ingestion

/-!
The daemon's spooler and the conversion of one spool file into another
(`crates/daemon/src/spool.rs`).
-/

namespace Y4p

open Programs

-- `<pid>-<sequence>.part` and, derived from a name, `<stem>-t.part`.
def freshPath (sequence : Nat) : SpoolPath :=
  2 * sequence

def derivedPath (source : SpoolPath) : SpoolPath :=
  2 * source + 1

theorem derivedPath_ne (source : SpoolPath) : derivedPath source ≠ source := by
  have apart : ∀ n : Nat, 2 * n + 1 ≠ n := by
    intro n
    omega
  exact apart source

def digestLen : Nat := 32

-- `Sha3Tap::finish`.
def finishTap (sha3 : Bytes → Bytes) (seen : Bytes) : Option Bytes :=
  if (sha3 seen).length = digestLen then some (sha3 seen) else none

theorem finishTap_some {sha3 : Bytes → Bytes} (digests : ∀ data, (sha3 data).length = digestLen)
    (seen : Bytes) : finishTap sha3 seen = some (sha3 seen) :=
  if_pos (digests seen)

-- A dropped `Unlink` or `SpooledFile`.
def unlink (path : SpoolPath) : Work Unit := do
  let _ ← Program.ask (WorkCall.removeFile path)
  pure ()

structure FileSpooler where
  next : Nat

section
variable (sha3 : Bytes → Bytes)

def finishSpool (path : SpoolPath) (head : Bytes) : Except PayloadError Nat × Bytes →
    Work SpoolOutcome
  | (.ok rest, seen) => spooledAs path (head.length + rest) (head ++ seen)
  | (.error .empty, seen) => spooledAs path head.length (head ++ seen)
  | (.error _, _) => do
      unlink path
      pure .rejected
where
  -- The guard is disarmed before the digest is looked at.
  spooledAs (path : SpoolPath) (len : Nat) (seen : Bytes) : Work SpoolOutcome :=
    match finishTap sha3 seen with
    | none => pure .rejected
    | some digest => pure (.spooled { path := path, len := .ofNat len, digest := digest })

def FileSpooler.spool (spooler : FileSpooler) (head : Bytes) (src : Reader) (limit : UInt64) :
    Work SpoolOutcome := do
  let path := freshPath spooler.next
  let created : Except String Unit ← Program.ask (WorkCall.createNew path)
  match created with
  | .error _ => pure (.unavailable src)
  | .ok () =>
      if limit.toNat < head.length then do
        unlink path
        pure .rejected
      else do
        let written : Except String Unit ← Program.ask (WorkCall.writeAll path head)
        match written with
        | .error _ => do
            unlink path
            pure .rejected
        | .ok () => do
            let copied : Except PayloadError Nat × Bytes ←
              Program.ask (WorkCall.copyToFile src path (limit - .ofNat head.length))
            finishSpool sha3 path head copied

def finishTranscode (path : SpoolPath) :
    Except PipelineError (Nat × Bytes) → Work (Except PipelineError SpooledFile)
  | .error error => do
      unlink path
      pure (.error error)
  | .ok (bytesOut, seen) =>
      match finishTap sha3 seen with
      -- The guard is disarmed by then.
      | none => pure (.error (.sink "the converted payload's digest was unavailable"))
      | some digest => pure (.ok { path := path, len := .ofNat bytesOut, digest := digest })

def transcodeSpooled (source : SpooledFile) (limit : UInt64) (job : Transcode) :
    Work (Except PipelineError SpooledFile) := do
  let opened : Except String Bytes ← Program.ask (WorkCall.openFile source.path)
  match opened with
  | .error error => pure (.error (.source error))
  | .ok input => do
      let path := derivedPath source.path
      let created : Except String Unit ← Program.ask (WorkCall.createNew path)
      match created with
      | .error error => pure (.error (.sink error))
      | .ok () => do
          let transfer ← transcodeFile job input path limit
          finishTranscode sha3 path transfer

end

end Y4p
