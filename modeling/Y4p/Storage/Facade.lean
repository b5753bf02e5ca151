import Y4p.Storage.Cache

/-!
`ClipboardDb` (`crates/storage/src/lib.rs`): the store and the cache behind one
facade, call by call.
-/

namespace Y4p

open Programs

-- A dropped `SpooledFile` unlinks its file.
def SpooledFile.drop (spooled : SpooledFile) : Io Unit := do
  let _ ← Program.ask (Call.removeSpool spooled.path)
  pure ()

def checkSpooled (len : UInt64) (small : len.toNat ≤ maxPayloadBytes) (data : Bytes) :
    Except String Slice :=
  if exact : List.length data = len.toNat then
    .ok ⟨data, by simp only [maxPayloadBytes] at small; omega⟩
  else .error s!"spool file holds {List.length data} bytes, expected {len}"

theorem checkSpooled_ok {len : UInt64} {small : len.toNat ≤ maxPayloadBytes} {data : Bytes}
    {slice : Slice} (checked : checkSpooled len small data = .ok slice) :
    data.length = len.toNat ∧ slice.bytes = data := by
  unfold checkSpooled at checked
  split at checked
  · rename_i exact
    cases checked
    exact ⟨exact, rfl⟩
  · cases checked

def readSpooled (spooled : SpooledFile) : Io (Except String Slice) :=
  if small : spooled.len.toNat ≤ maxPayloadBytes then do
    let opened : Except String Bytes ← Program.ask (Call.openSpool spooled.path)
    match opened with
    | .error message => pure (.error s!"cannot open spool file: {message}")
    | .ok handle => do
        let got : Except String Bytes ← Program.ask (Call.readHandle handle (spooled.len.toNat + 1))
        match got with
        | .error message => pure (.error s!"cannot read spool file: {message}")
        | .ok data => pure (checkSpooled spooled.len small data)
  else
    pure (.error s!"spooled payload of {spooled.len} bytes exceeds the {maxPayloadBytes}-byte limit")

def storeIfImage (isImage : Bool) (hash : Str) (data : Bytes) : Io Unit :=
  if isImage then do
    let _ ← FileCache.store hash data
    pure ()
  else pure ()

def insertWithHash (now : Int) (tie : TieOrder) (mime : Str) (data : Slice) (hash : Str)
    (maxHistory : UInt64) : Io (Except String Int) := do
  let result : Except String UpsertOutcome ←
    Program.ask (Call.store (.upsert now tie mime (.record data) hash maxHistory))
  match result with
  | .error message => pure (.error message)
  | .ok outcome =>
      if outcome.realId = -1 then pure (.ok (-1))
      else do
        storeIfImage outcome.isImage hash data.bytes
        FileCache.removeMany outcome.expiredHashes
        pure (.ok outcome.realId)

def undoAdoption (adoption : FileCache.Adoption) (hash : Str) : Io Unit :=
  if adoption = .placed then FileCache.remove hash else pure ()

def upsertAdopted (now : Int) (tie : TieOrder) (mime : Str) (spooled : SpooledFile)
    (adoption : FileCache.Adoption) (maxHistory : UInt64) : Io (Except String Int) := do
  let result : Except String UpsertOutcome ← Program.ask
    (Call.store (.upsert now tie mime (.detached spooled.len) spooled.hexDigest maxHistory))
  match result with
  | .error message => do
      undoAdoption adoption spooled.hexDigest
      pure (.error message)
  | .ok outcome => do
      FileCache.removeMany outcome.expiredHashes
      pure (.ok outcome.realId)

def insertRead (now : Int) (tie : TieOrder) (mime : Str) (spooled : SpooledFile)
    (maxHistory : UInt64) : Io (Except String Int) := do
  let got ← readSpooled spooled
  match got with
  | .error message => pure (.error message)
  | .ok data => insertWithHash now tie mime data spooled.hexDigest maxHistory

def insertAdopted (now : Int) (tie : TieOrder) (mime : Str) (spooled : SpooledFile)
    (maxHistory : UInt64) : Io (Except String Int) := do
  let adopted ← FileCache.adopt spooled.hexDigest spooled.path
  match adopted with
  | .error message => do
      spooled.drop
      pure (.error s!"cache adoption failed: {message}")
  | .ok .placed => upsertAdopted now tie mime spooled .placed maxHistory
  | .ok .present => do
      spooled.drop
      upsertAdopted now tie mime spooled .present maxHistory

def insertSpooled (now : Int) (tie : TieOrder) (mime : Str) (spooled : SpooledFile)
    (maxHistory : UInt64) : Io (Except String Int) :=
  if isSkipped mime spooled.len.toNat then do
    spooled.drop
    pure (.ok (-1))
  else if !isDetachable mime then do
    let result ← insertRead now tie mime spooled maxHistory
    spooled.drop
    pure result
  else insertAdopted now tie mime spooled maxHistory

def contentOrFile : Option (Str × Option Bytes × Str) → Io (Option (Str × Bytes))
  | none => pure none
  | some (mime, some data, _) => pure (some (mime, data))
  | some (mime, none, hash) => do
      let file : Option Bytes ← Program.ask (Call.read hash)
      pure (file.map fun data => (mime, data))

def getContentById (id : Int) : Io (Option (Str × Bytes)) := do
  let found : Option (Str × Option Bytes × Str) ← Program.ask (Call.store (.getRowContent id))
  contentOrFile found

inductive ContentLocation where
  | inlineBlob (id : Int)
  | cacheFile (hash : Str)

def locateContent (id : Int) : Io (Option (Str × ContentLocation)) := do
  let found : Option (Str × Bool × Str) ← Program.ask (Call.store (.getRowLocation id))
  pure (found.map fun (mime, hasContent, hash) =>
    (mime, if hasContent then .inlineBlob id else .cacheFile hash))

namespace ClipboardDb

section
variable (sha3 : Bytes → Bytes)

def insertRaw (now : Int) (tie : TieOrder) (mime : Str) (data : Slice) (maxHistory : UInt64) :
    Io (Except String Int) :=
  insertWithHash now tie mime data (toHex (sha3 data.bytes)) maxHistory

end

def updateTimestamp (now id : Int) : Io (Except String Unit) :=
  Program.ask (Call.store (.updateTimestamp now id))

def setPinById (id : Int) (isPinned : Bool) : Io (Except String Bool) :=
  Program.ask (Call.store (.setPinned id isPinned))

def removeNamed : Option Str → Io Unit
  | some hash => FileCache.remove hash
  | none => pure ()

def deleteById (id : Int) : Io (Except String Bool) := do
  let result : Except String (Bool × Option Str) ← Program.ask (Call.store (.deleteById id))
  match result with
  | .error message => pure (.error message)
  | .ok (deleted, hash) => do
      removeNamed hash
      pure (.ok deleted)

def wipe : Io (Except String Unit) := do
  let result : Except String Unit ← Program.ask (Call.store .wipe)
  match result with
  | .error message => pure (.error message)
  | .ok _ => do
      let _ ← FileCache.clear
      pure (.ok ())

end ClipboardDb

end Y4p
