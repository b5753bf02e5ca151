import Y4p.Core.Cdc
import Y4p.Core.Utils
import Y4p.Storage.Sql

/-!
`SqliteStore` (`crates/storage/src/db.rs`): the transactions of the clipboard
store, statement by statement.
-/

namespace Y4p

open Programs

abbrev Tx (α : Type) : Type := Fallible Stmt Stmt.Answer String α

abbrev Query (α : Type) : Type := Fallible Cmd Cmd.Answer String α

-- `tx.execute(..)?`
def execute (stmt : Stmt) : Tx stmt.Result :=
  ExceptT.mk (Program.ask stmt)

-- `tx.query_row(..).ok()`
def attempt (stmt : Stmt) : Tx (Option stmt.Result) :=
  ExceptT.mk do
    let answer ← Program.ask stmt
    pure (.ok answer.toOption)

def onlyIf (condition : Prop) [Decidable condition] (action : Tx Unit) : Tx Unit :=
  if condition then action else pure ()

-- Outside a transaction a statement commits by itself.
def autocommit (stmt : Stmt) : Query stmt.Result :=
  ExceptT.mk (Program.ask (Cmd.stmt stmt))

-- `conn.transaction()?; ...; tx.commit()?`, rolled back when dropped on an error.
def transaction {α : Type} (body : Tx α) : Query α :=
  ExceptT.mk do
    match ← Program.ask Cmd.begin with
    | .error message => pure (.error message)
    | .ok _ =>
        match ← Program.lift Cmd.stmt (fun _ answer => answer) body.run with
        | .error message => do
            let _ ← Program.ask Cmd.rollback
            pure (.error message)
        | .ok value =>
            match ← Program.ask Cmd.commit with
            | .error message => do
                let _ ← Program.ask Cmd.rollback
                pure (.error message)
            | .ok _ => pure (.ok value)

-- `n as i64` of a 64-bit unsigned value.
def asI64 (n : Nat) : Int :=
  if n % 2 ^ 64 < 2 ^ 63 then (n % 2 ^ 64 : Nat) else (n % 2 ^ 64 : Nat) - 2 ^ 64

-- `realId = -1`: the payload was deliberately skipped and no rotation ran.
structure UpsertOutcome where
  realId : Int
  isImage : Bool
  expiredHashes : List Str
  deriving DecidableEq

def UpsertOutcome.skipped : UpsertOutcome where
  realId := -1
  isImage := false
  expiredHashes := []

-- A payload as the row builder sees it: its bytes, or only their number.
inductive Body where
  | bytes (data : Bytes)
  | detached (len : Nat)

def Body.len : Body → Nat
  | .bytes data => data.length
  | .detached len => len

-- What goes into the `content` column; chunked bytes go to `chunks` instead.
inductive Content where
  | text (bytes : Bytes)
  | blob (bytes : Bytes)
  | chunked (bytes : Bytes)
  | none

def isCacheClass (mime : Str) : Bool :=
  startsWith mime "image/".toList || contains mime "gif".toList

def isDetachable (mime : Str) : Bool :=
  isCacheClass mime && !isTextLikeMime mime

def isChunkable (mime : Str) (len : Nat) : Bool :=
  !isCacheClass mime && decide (cdcMinChunkBytes < len)

def isSkipped (mime : Str) (len : Nat) : Bool :=
  decide (len = 0) || sensitiveMimeHints.any fun hint => contains mime hint

def previewOf (mime : Str) (data : Bytes) : Option Str :=
  if isTextLikeMime mime then
    let text := fromUtf8Lossy (if isHtmlMime mime then stripHtmlTags data else data)
    some ((text.take previewChars).map fun c => if c = '\n' then ' ' else c)
  else none

def contentOf (mime : Str) (data : Bytes) (isImage : Bool) : Content :=
  if isChunkable mime data.length then .chunked data
  else if isUtf8 data && isTextLikeMime mime then .text data
  else if isImage then .none
  else .blob data

def rowParts (mime : Str) (data : Bytes) (isImage : Bool) : Option Str × Content :=
  (previewOf mime data, contentOf mime data isImage)

def Body.parts (mime : Str) : Body → Option Str × Content
  | .detached _ => (none, .none)
  | .bytes data => rowParts mime data (isCacheClass mime)

def Content.value : Content → Value
  | .text bytes => .text bytes
  | .blob bytes => .blob bytes
  | .chunked _ => .null
  | .none => .null

def Content.isChunked : Content → Bool
  | .chunked _ => true
  | _ => false

def newRow (now : Int) (mime : Str) (body : Body) (hash : Str) : NewRow where
  timestamp := now
  mime := mime
  size := asI64 body.len
  preview := (body.parts mime).1
  content := (body.parts mime).2.value
  hash := some hash
  isChunked := (body.parts mime).2.isChunked

section
variable (sha3 : Bytes → Bytes)

def storeChunk (id : Int) (seq : Nat) (chunk : Bytes) : Tx Unit := do
  let digest := sha3 chunk
  let reused : Nat ← execute (.reuseChunk digest)
  onlyIf (reused = 0) (execute (.addChunk digest chunk))
  execute (.linkChunk id seq digest)

def storeChunksFrom (id : Int) : Nat → List Bytes → Tx Unit
  | _, [] => pure ()
  | seq, chunk :: rest => do
      storeChunk sha3 id seq chunk
      storeChunksFrom id (seq + 1) rest

def storeChunks (id : Int) (data : Bytes) : Tx Unit := do
  execute .prepare
  execute .prepare
  execute .prepare
  storeChunksFrom sha3 id 0 (fastCdc data)

def releaseChunks (id : Int) : Tx Unit := do
  execute (.dropReferences id)
  execute (.deleteUnreferenced id)
  execute (.deleteManifestOf id)

def releaseAll : List Expiring → Tx Unit
  | [] => pure ()
  | row :: rest => do
      onlyIf row.isChunked (releaseChunks row.id)
      releaseAll rest

-- `rows.filter_map(|r| r.ok()).collect()`: a step that fails ends the rows.
def fetchAll : List Expiring → Tx (List Expiring)
  | [] => do
      let _ ← attempt (.fetchExpiring [])
      pure []
  | row :: rest => do
      match ← attempt (.fetchExpiring (row :: rest)) with
      | none => pure []
      | some _ => do
          let fetched ← fetchAll rest
          pure (row :: fetched)

def insertRow (now : Int) (mime : Str) (body : Body) (hash : Str) : Tx Int := do
  let id ← execute (.insertClipboard (newRow now mime body hash))
  match (body.parts mime).2 with
  | .chunked data => do
      storeChunks sha3 id data
      pure id
  | _ => pure id

def touchOrInsert (now : Int) (mime : Str) (body : Body) (hash : Str) : Tx Int := do
  match ← attempt (.selectByHash hash) with
  | some id => do
      let _ ← execute (.updateTimestamp now id)
      pure id
  | none => insertRow sha3 now mime body hash

def rotate (fetchTie deleteTie : TieOrder) (maxHistory : UInt64) : Tx (List Str) := do
  let rows ← execute (.selectExpiring fetchTie (asI64 maxHistory.toNat))
  let expiring ← fetchAll rows
  releaseAll expiring
  execute (.deleteExpired deleteTie (asI64 maxHistory.toNat))
  pure (expiring.filterMap Expiring.hash)

def upsertTx (now : Int) (fetchTie deleteTie : TieOrder) (mime : Str) (body : Body) (hash : Str)
    (maxHistory : UInt64) : Tx UpsertOutcome := do
  let realId ← touchOrInsert sha3 now mime body hash
  let expiredHashes ← rotate fetchTie deleteTie maxHistory
  pure { realId := realId, isImage := isCacheClass mime, expiredHashes := expiredHashes }

def upsert (now : Int) (fetchTie deleteTie : TieOrder) (mime : Str) (body : Body) (hash : Str)
    (maxHistory : UInt64) : Query UpsertOutcome :=
  transaction (upsertTx sha3 now fetchTie deleteTie mime body hash maxHistory)

def upsertRecord (now : Int) (fetchTie deleteTie : TieOrder) (mime : Str) (data : Bytes)
    (hash : Str) (maxHistory : UInt64) : Query UpsertOutcome :=
  if isSkipped mime data.length then pure .skipped
  else upsert sha3 now fetchTie deleteTie mime (.bytes data) hash maxHistory

def upsertDetached (now : Int) (fetchTie deleteTie : TieOrder) (mime : Str) (len : Nat)
    (hash : Str) (maxHistory : UInt64) : Query UpsertOutcome :=
  if isSkipped mime len then pure .skipped
  else upsert sha3 now fetchTie deleteTie mime (.detached len) hash maxHistory

end

def updateTimestamp (now id : Int) : Query Unit := do
  let _ ← autocommit (.updateTimestamp now id)

def setPinned (id : Int) (isPinned : Bool) : Query Bool := do
  let affected : Nat ← autocommit (.setPinned isPinned id)
  pure (decide (0 < affected))

-- `.unwrap_or((None, false))`: a failed lookup reads as a row without hash or chunks.
def deleteTx (id : Int) : Tx (Bool × Option Str) := do
  let found ← attempt (.selectForDelete id)
  let row : Option Str × Bool := found.getD (none, false)
  onlyIf row.2 (releaseChunks id)
  let deleted : Nat ← execute (.deleteRow id)
  pure (decide (0 < deleted), row.1)

def deleteById (id : Int) : Query (Bool × Option Str) :=
  transaction (deleteTx id)

-- A batch stops at its first failure, which is ignored.
def maintenance : Nat → Program Cmd Cmd.Answer Unit
  | 0 => pure ()
  | count + 1 => do
      match ← Program.ask (Cmd.stmt .maintenance) with
      | .error _ => pure ()
      | .ok _ => maintenance count

def wipeTx : Tx Unit := do
  execute .clearManifest
  execute .clearChunks
  execute .clearClipboard

def wipe : Query Unit := do
  transaction wipeTx
  -- journal_mode = DELETE, VACUUM, journal_mode = WAL; then shrink_memory
  ExceptT.lift (maintenance 3)
  ExceptT.lift (maintenance 1)

def reassembleFrom (expected : Nat) (out : Bytes) :
    List Bytes → Program Cmd Cmd.Answer (Option Bytes)
  | [] => do
      match ← Program.ask (Cmd.stmt (.fetchChunk [])) with
      | .error _ => pure none
      | .ok _ => pure (if out.length = expected then some out else none)
  | data :: rest => do
      match ← Program.ask (Cmd.stmt (.fetchChunk (data :: rest))) with
      | .error _ => pure none
      | .ok _ =>
          if expected < (out ++ data).length then pure none
          else reassembleFrom expected (out ++ data) rest

def reassemble (id size : Int) : Program Cmd Cmd.Answer (Option Bytes) := do
  if size < 0 then pure none
  else
    match ← Program.ask (Cmd.stmt .prepare) with
    | .error _ => pure none
    | .ok _ =>
        match ← Program.ask (Cmd.stmt (.selectChunks id)) with
        | .error _ => pure none
        | .ok rows => reassembleFrom size.toNat [] rows

def Value.bytes? : Value → Option Bytes
  | .null => none
  | .text bytes => some bytes
  | .blob bytes => some bytes

def getRowContent (id : Int) : Program Cmd Cmd.Answer (Option (Str × Option Bytes × Str)) := do
  match ← Program.ask (Cmd.stmt (.selectContent id)) with
  | .error _ => pure none
  | .ok row =>
      match row.hash with
      | none => pure none
      | some hash =>
          if row.isChunked then
            match ← reassemble id row.size with
            | none => pure none
            | some data => pure (some (row.mime, some data, hash))
          else pure (some (row.mime, row.content.bytes?, hash))

def getRowLocation (id : Int) : Program Cmd Cmd.Answer (Option (Str × Bool × Str)) := do
  match ← Program.ask (Cmd.stmt (.selectLocation id)) with
  | .error _ => pure none
  | .ok (mime, hasContent, hash) => pure (hash.map fun hash => (mime, hasContent, hash))

end Y4p
