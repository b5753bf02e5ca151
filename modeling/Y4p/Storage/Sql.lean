import Y4p.Lib.Program
import Y4p.Storage.Schema

/-!
The SQL statements storage issues and what each does to the tables; a connection
with at most one open transaction; and the step function under which every
statement may be made to fail.
-/

namespace Y4p

-- A row of the rotation query: `SELECT id, hash, is_chunked`.
structure Expiring where
  id : Int
  hash : Option Str
  isChunked : Bool
  deriving DecidableEq

-- A row of `SELECT mime, content, hash, is_chunked, size`.
structure ContentRow where
  mime : Str
  content : Value
  hash : Option Str
  isChunked : Bool
  size : Int
  deriving DecidableEq

inductive Stmt where
  -- SELECT id FROM clipboard WHERE hash = ?1 LIMIT 1
  | selectByHash (hash : Str)
  -- UPDATE clipboard SET timestamp = ?1 WHERE id = ?2
  | updateTimestamp (timestamp id : Int)
  -- INSERT INTO clipboard ...; the answer is last_insert_rowid()
  | insertClipboard (row : NewRow)
  -- preparing one of the three statements of store_chunks, or a query
  | prepare
  -- UPDATE chunks SET refcount = refcount + 1 WHERE hash = ?1
  | reuseChunk (digest : Bytes)
  -- INSERT INTO chunks (hash, data, refcount) VALUES (?1, ?2, 1)
  | addChunk (digest data : Bytes)
  -- INSERT INTO manifest (clipboard_id, seq, chunk_hash) VALUES (?1, ?2, ?3)
  | linkChunk (id : Int) (seq : Nat) (digest : Bytes)
  -- SELECT id, hash, is_chunked ... WHERE is_pinned = 0 ORDER BY timestamp DESC LIMIT -1 OFFSET ?1
  | selectExpiring (tie : TieOrder) (offset : Int)
  -- stepping that query to its next row; `rest` is what it has still to yield
  | fetchExpiring (rest : List Expiring)
  -- UPDATE chunks SET refcount = refcount - (SELECT COUNT(*) ...) WHERE hash IN (...)
  | dropReferences (id : Int)
  -- DELETE FROM chunks WHERE refcount <= 0 AND hash IN (...)
  | deleteUnreferenced (id : Int)
  -- DELETE FROM manifest WHERE clipboard_id = ?1
  | deleteManifestOf (id : Int)
  -- DELETE FROM clipboard WHERE id IN (SELECT id ... LIMIT -1 OFFSET ?1)
  | deleteExpired (tie : TieOrder) (offset : Int)
  -- SELECT hash, is_chunked FROM clipboard WHERE id = ?1
  | selectForDelete (id : Int)
  -- DELETE FROM clipboard WHERE id = ?1
  | deleteRow (id : Int)
  -- DELETE FROM manifest / chunks / clipboard
  | clearManifest
  | clearChunks
  | clearClipboard
  -- UPDATE clipboard SET is_pinned = ?1 WHERE id = ?2
  | setPinned (isPinned : Bool) (id : Int)
  -- SELECT mime, content, hash, is_chunked, size FROM clipboard WHERE id = ?1
  | selectContent (id : Int)
  -- SELECT mime, content IS NOT NULL OR is_chunked = 1, hash FROM clipboard WHERE id = ?1
  | selectLocation (id : Int)
  -- SELECT ch.data FROM manifest m JOIN chunks ch ... WHERE m.clipboard_id = ?1 ORDER BY m.seq
  | selectChunks (id : Int)
  | fetchChunk (rest : List Bytes)
  -- PRAGMA journal_mode, VACUUM, PRAGMA shrink_memory: no effect on the tables
  | maintenance

def Stmt.Result : Stmt → Type
  | .selectByHash _ => Int
  | .insertClipboard _ => Int
  | .updateTimestamp .. | .reuseChunk _ | .deleteRow _ | .setPinned .. => Nat
  | .selectExpiring .. => List Expiring
  | .selectForDelete _ => Option Str × Bool
  | .selectContent _ => ContentRow
  | .selectLocation _ => Str × Bool × Option Str
  | .selectChunks _ => List Bytes
  | _ => Unit

abbrev Stmt.Answer (stmt : Stmt) : Type := Except String stmt.Result

def noRows : String := "Query returned no rows"

-- SQLite reads a negative OFFSET as zero.
def unpinned (db : Db) : List Row :=
  db.clipboard.filter fun row => !row.isPinned

def expired (tie : TieOrder) (offset : Int) (db : Db) : List Row :=
  Ranking.dropped (MruLe tie) offset.toNat (unpinned db)

def Row.expiring (row : Row) : Expiring where
  id := row.id
  hash := row.hash
  isChunked := row.isChunked

def Row.touch (timestamp id : Int) (row : Row) : Row :=
  if row.id = id then { row with timestamp := timestamp } else row

def Row.pin (isPinned : Bool) (id : Int) (row : Row) : Row :=
  if row.id = id then { row with isPinned := isPinned } else row

def references (db : Db) (id : Int) (hash : Bytes) : Nat :=
  (db.manifestOf id).countP fun entry => entry.chunkHash = hash

def Chunk.release (db : Db) (id : Int) (chunk : Chunk) : Chunk :=
  { chunk with refcount := chunk.refcount - references db id chunk.hash }

def Chunk.reuse (digest : Bytes) (chunk : Chunk) : Chunk :=
  if chunk.hash = digest then { chunk with refcount := chunk.refcount + 1 } else chunk

def chunkData (db : Db) (id : Int) : List Bytes :=
  ((db.manifestOf id).insertionSort fun a b => a.seq ≤ b.seq).filterMap fun entry =>
    (db.chunks.find? fun chunk => chunk.hash = entry.chunkHash).map Chunk.data

namespace Db

def touch (db : Db) (timestamp id : Int) : Db :=
  db.updateRows (Row.touch timestamp id)
    (fun row => by unfold Row.touch; split <;> rfl) (fun row => by unfold Row.touch; split <;> rfl)

def pin (db : Db) (isPinned : Bool) (id : Int) : Db :=
  db.updateRows (Row.pin isPinned id)
    (fun row => by unfold Row.pin; split <;> rfl) (fun row => by unfold Row.pin; split <;> rfl)

def reuseChunk (db : Db) (digest : Bytes) : Db :=
  db.updateChunks (Chunk.reuse digest) (fun chunk => by unfold Chunk.reuse; split <;> rfl)

def dropReferences (db : Db) (id : Int) : Db :=
  db.updateChunks (Chunk.release db id) (fun _ => rfl)

def deleteUnreferenced (db : Db) (id : Int) : Db :=
  db.deleteChunks fun chunk =>
    decide (chunk.refcount ≤ 0) && (db.manifestOf id).any fun entry => entry.chunkHash = chunk.hash

def deleteManifestOf (db : Db) (id : Int) : Db :=
  db.deleteEntries fun entry => entry.clipboardId = id

def deleteExpired (db : Db) (tie : TieOrder) (offset : Int) : Db :=
  db.deleteRows fun row => row.id ∈ (expired tie offset db).map Row.id

def deleteRow (db : Db) (id : Int) : Db :=
  db.deleteRows fun row => row.id = id

end Db

def Stmt.run : (stmt : Stmt) → Db → stmt.Answer × Db
  | .selectByHash hash, db =>
      match db.rowByHash hash with
      | some row => (.ok row.id, db)
      | none => (.error noRows, db)
  | .updateTimestamp timestamp id, db =>
      (.ok (db.clipboard.filter fun row => row.id = id).length, db.touch timestamp id)
  | .insertClipboard row, db =>
      if free : db.HashFree row.hash then (.ok (db.sequence + 1), db.insertRow row free)
      else (.error "UNIQUE constraint failed: clipboard.hash", db)
  | .prepare, db => (.ok (), db)
  | .reuseChunk digest, db =>
      (.ok (db.chunks.filter fun chunk => chunk.hash = digest).length, db.reuseChunk digest)
  | .addChunk digest data, db =>
      if free : digest ∉ db.chunks.map Chunk.hash then
        (.ok (), db.insertChunk { hash := digest, data := data, refcount := 1 } free)
      else (.error "UNIQUE constraint failed: chunks.hash", db)
  | .linkChunk id seq digest, db =>
      if free : (id, seq) ∉ db.manifest.map ManifestEntry.key then
        (.ok (), db.insertEntry { clipboardId := id, seq := seq, chunkHash := digest } free)
      else (.error "UNIQUE constraint failed: manifest.clipboard_id, manifest.seq", db)
  | .selectExpiring tie offset, db => (.ok ((expired tie offset db).map Row.expiring), db)
  | .fetchExpiring _, db => (.ok (), db)
  | .dropReferences id, db => (.ok (), db.dropReferences id)
  | .deleteUnreferenced id, db => (.ok (), db.deleteUnreferenced id)
  | .deleteManifestOf id, db => (.ok (), db.deleteManifestOf id)
  | .deleteExpired tie offset, db => (.ok (), db.deleteExpired tie offset)
  | .selectForDelete id, db =>
      match db.rowById id with
      | some row => (.ok (row.hash, row.isChunked), db)
      | none => (.error noRows, db)
  | .deleteRow id, db =>
      (.ok (db.clipboard.filter fun row => row.id = id).length, db.deleteRow id)
  | .clearManifest, db => (.ok (), db.deleteEntries fun _ => true)
  | .clearChunks, db => (.ok (), db.deleteChunks fun _ => true)
  | .clearClipboard, db => (.ok (), db.deleteRows fun _ => true)
  | .setPinned isPinned id, db =>
      (.ok (db.clipboard.filter fun row => row.id = id).length, db.pin isPinned id)
  | .selectContent id, db =>
      match db.rowById id with
      | some row =>
          (.ok { mime := row.mime, content := row.content, hash := row.hash,
                 isChunked := row.isChunked, size := row.size }, db)
      | none => (.error noRows, db)
  | .selectLocation id, db =>
      match db.rowById id with
      | some row => (.ok (row.mime, decide (row.content ≠ .null) || row.isChunked, row.hash), db)
      | none => (.error noRows, db)
  | .selectChunks id, db => (.ok (chunkData db id), db)
  | .fetchChunk _, db => (.ok (), db)
  | .maintenance, db => (.ok (), db)

inductive Cmd where
  | begin
  | commit
  | rollback
  | stmt (query : Stmt)

def Cmd.Result : Cmd → Type
  | .stmt query => query.Result
  | _ => Unit

abbrev Cmd.Answer (cmd : Cmd) : Type := Except String cmd.Result

-- `work` is what the open transaction has made of the database so far.
structure Conn where
  committed : Db
  work : Option Db

namespace Conn

def on (db : Db) : Conn where
  committed := db
  work := none

def inside (committed work : Db) : Conn where
  committed := committed
  work := some work

def current (conn : Conn) : Db :=
  conn.work.getD conn.committed

def write (conn : Conn) (db : Db) : Conn :=
  match conn.work with
  | some _ => { conn with work := some db }
  | none => { conn with committed := db }

end Conn

def Cmd.run : (cmd : Cmd) → Conn → cmd.Answer × Conn
  | .begin, conn =>
      match conn.work with
      | none => (.ok (), { conn with work := some conn.committed })
      | some _ => (.error "cannot start a transaction within a transaction", conn)
  | .commit, conn =>
      match conn.work with
      | some db => (.ok (), { committed := db, work := none })
      | none => (.error "cannot commit - no transaction is active", conn)
  | .rollback, conn => (.ok (), { conn with work := none })
  | .stmt query, conn =>
      ((query.run conn.current).1, conn.write (query.run conn.current).2)

-- `issued` counts the commands so far.
structure Session where
  conn : Conn
  issued : Nat

def Session.at (db : Db) (issued : Nat) : Session where
  conn := Conn.on db
  issued := issued

-- Which commands fail, by their number in the run, and with what message.
abbrev Faults := Nat → Cmd → Option String

-- The rollback of a dropped transaction always happens.
def Faults.hit (faults : Faults) (issued : Nat) : Cmd → Option String
  | .rollback => none
  | cmd => faults issued cmd

-- A command that is made to fail changes nothing and leaves the transaction open.
def Cmd.step (faults : Faults) (cmd : Cmd) (session : Session) : cmd.Answer × Session :=
  match faults.hit session.issued cmd with
  | none =>
      ((cmd.run session.conn).1, { conn := (cmd.run session.conn).2, issued := session.issued + 1 })
  | some message => (.error message, { session with issued := session.issued + 1 })

def noFaults : Faults := fun _ _ => none

-- The reads whose errors the code swallows or turns into "nothing there".
def Stmt.isRead : Stmt → Bool
  | .selectByHash _ | .fetchExpiring _ | .selectForDelete _ | .selectContent _
  | .selectLocation _ | .selectChunks _ | .fetchChunk _ => true
  | _ => false

def Cmd.isRead : Cmd → Bool
  | .stmt query => query.isRead
  | _ => false

def Faults.SparesReads (faults : Faults) : Prop :=
  ∀ issued cmd, cmd.isRead = true → faults issued cmd = none

structure WriteFaults where
  hits : Faults
  spares : hits.SparesReads

def WriteFaults.none : WriteFaults where
  hits := noFaults
  spares := fun _ _ _ => rfl

def failOnly (index : Nat) (message : String) : Faults := fun issued _ =>
  if issued = index then some message else none

end Y4p
