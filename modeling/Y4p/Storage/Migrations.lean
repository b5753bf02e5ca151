import Y4p.Storage.Concurrency
import Y4p.Storage.Search

/-!
Opening a database file of any schema version (`SchemaManager` of
`crates/storage/src/schema.rs`): the file, the statements the migrations issue, and
the migrations as programs.
-/

namespace Y4p

open Programs

inductive Column where
  | isPinned
  | isChunked
  deriving DecidableEq

def Column.name : Column → String
  | .isPinned => "is_pinned"
  | .isChunked => "is_chunked"

-- A row of whatever version: `added` holds the cells of the columns added since the first.
structure FileRow where
  id : Int
  timestamp : Int
  mime : Str
  size : Int
  preview : Option Str
  content : Value
  hash : Option Str
  added : List (Column × Int)
  deriving DecidableEq

-- Both columns are `INTEGER NOT NULL DEFAULT 0`.
def FileRow.cell (column : Column) (row : FileRow) : Int :=
  (row.added.lookup column).getD 0

def FileRow.addColumn (column : Column) (row : FileRow) : FileRow :=
  { row with added := row.added ++ [(column, 0)] }

def Value.castText : Value → Value
  | .null => .null
  | .text bytes => .text bytes
  | .blob bytes => .text bytes

def FileRow.castText (row : FileRow) : FileRow :=
  if row.content ≠ .null ∧ textMimeSqlPredicate row.mime then
    { row with content := row.content.castText }
  else row

structure Table where
  columns : List Column
  rows : List FileRow
  distinct : columns.Nodup
  shaped : ∀ row ∈ rows, row.added.map Prod.fst = columns

namespace Table

def empty : Table where
  columns := []
  rows := []
  distinct := List.nodup_nil
  shaped := by simp

def addColumn (table : Table) (column : Column) (absent : column ∉ table.columns) : Table where
  columns := table.columns ++ [column]
  rows := table.rows.map (FileRow.addColumn column)
  distinct := by
    rw [List.nodup_append]
    refine ⟨table.distinct, List.nodup_singleton column, ?_⟩
    intro other listed added new same
    rw [List.mem_singleton.mp new] at same
    exact absent (same ▸ listed)
  shaped := by
    intro row member
    obtain ⟨old, present, rfl⟩ := List.mem_map.mp member
    rw [FileRow.addColumn, List.map_append, table.shaped old present]
    rfl

theorem castText_added (row : FileRow) : row.castText.added = row.added := by
  unfold FileRow.castText
  split <;> rfl

def castText (table : Table) : Table where
  columns := table.columns
  rows := table.rows.map FileRow.castText
  distinct := table.distinct
  shaped := by
    intro row member
    obtain ⟨old, present, rfl⟩ := List.mem_map.mp member
    rw [castText_added]
    exact table.shaped old present

end Table

structure DbFile where
  userVersion : Int
  clipboard : Option Table
  chunks : Option (List Chunk)
  manifest : Option (List ManifestEntry)
  idxTs : Bool
  idxPinned : Bool
  idxPinnedTs : Bool

namespace DbFile

def empty : DbFile where
  userVersion := 0
  clipboard := none
  chunks := none
  manifest := none
  idxTs := false
  idxPinned := false
  idxPinnedTs := false

def columns (file : DbFile) : List Column :=
  (file.clipboard.map Table.columns).getD []

def rows (file : DbFile) : List FileRow :=
  (file.clipboard.map Table.rows).getD []

end DbFile

inductive Ddl where
  -- PRAGMA journal_mode = WAL; PRAGMA synchronous = NORMAL; ...: no effect on the tables
  | pragmas
  -- PRAGMA user_version
  | userVersion
  -- CREATE TABLE IF NOT EXISTS clipboard (...)
  | createClipboard
  -- CREATE INDEX IF NOT EXISTS idx_ts ON clipboard(timestamp)
  | createIdxTs
  -- SELECT 1 FROM pragma_table_info('clipboard') WHERE name = ...
  | hasColumn (column : Column)
  -- ALTER TABLE clipboard ADD COLUMN ... INTEGER NOT NULL DEFAULT 0
  | addColumn (column : Column)
  -- UPDATE clipboard SET content = CAST(content AS TEXT) WHERE content IS NOT NULL AND ...
  | castText
  -- CREATE TABLE IF NOT EXISTS chunks / manifest (...)
  | createChunks
  | createManifest
  -- PRAGMA user_version = 4
  | setUserVersion
  -- DROP INDEX IF EXISTS idx_pinned
  | dropIdxPinned
  -- CREATE INDEX IF NOT EXISTS idx_pinned_ts ON clipboard(is_pinned, timestamp DESC)
  | createIdxPinnedTs

def Ddl.Result : Ddl → Type
  | .userVersion => Int
  | .hasColumn _ => Bool
  | _ => Unit

abbrev Ddl.Answer (ddl : Ddl) : Type := Except String ddl.Result

def schemaVersion : Int := 4

def noTable : String := "no such table: main.clipboard"

def DbFile.onTable (file : DbFile) (change : Table → Except String DbFile) :
    Except String Unit × DbFile :=
  match file.clipboard with
  | none => (.error noTable, file)
  | some table =>
      match change table with
      | .error message => (.error message, file)
      | .ok after => (.ok (), after)

def Ddl.run : (ddl : Ddl) → DbFile → ddl.Answer × DbFile
  | .pragmas, file => (.ok (), file)
  | .userVersion, file => (.ok file.userVersion, file)
  | .createClipboard, file =>
      (.ok (), { file with clipboard := some (file.clipboard.getD .empty) })
  | .createIdxTs, file => file.onTable fun _ => .ok { file with idxTs := true }
  | .hasColumn column, file => (.ok (decide (column ∈ file.columns)), file)
  | .addColumn column, file => file.onTable fun table =>
      if absent : column ∉ table.columns then
        .ok { file with clipboard := some (table.addColumn column absent) }
      else .error ("duplicate column name: " ++ column.name)
  | .castText, file => file.onTable fun table => .ok { file with clipboard := some table.castText }
  | .createChunks, file => (.ok (), { file with chunks := some (file.chunks.getD []) })
  | .createManifest, file => (.ok (), { file with manifest := some (file.manifest.getD []) })
  | .setUserVersion, file => (.ok (), { file with userVersion := schemaVersion })
  | .dropIdxPinned, file => (.ok (), { file with idxPinned := false })
  | .createIdxPinnedTs, file => file.onTable fun table =>
      if file.idxPinnedTs ∨ .isPinned ∈ table.columns then .ok { file with idxPinnedTs := true }
      else .error ("no such column: " ++ Column.isPinned.name)

inductive SchemaCmd where
  | begin
  | commit
  | rollback
  | stmt (ddl : Ddl)

def SchemaCmd.Result : SchemaCmd → Type
  | .stmt ddl => ddl.Result
  | _ => Unit

abbrev SchemaCmd.Answer (cmd : SchemaCmd) : Type := Except String cmd.Result

abbrev Migration (α : Type) : Type := Fallible SchemaCmd SchemaCmd.Answer String α

namespace SchemaManager

-- `.map_err(|e| format!("... failed: {}", e))?`
def issue (context : String) (ddl : Ddl) : Migration ddl.Result :=
  ExceptT.mk do
    let answer : ddl.Answer ← Program.ask (SchemaCmd.stmt ddl)
    pure (answer.mapError fun message => context ++ message)

-- `.ok()`
def attempt (ddl : Ddl) : Migration Unit :=
  ExceptT.mk do
    let _ ← Program.ask (SchemaCmd.stmt ddl)
    pure (.ok ())

-- `.unwrap_or(false)`
def hasColumn (column : Column) : Migration Bool :=
  ExceptT.mk do
    let answer : Except String Bool ← Program.ask (SchemaCmd.stmt (.hasColumn column))
    pure (.ok (answer.toOption.getD false))

def onlyIf (condition : Prop) [Decidable condition] (action : Migration Unit) : Migration Unit :=
  if condition then action else pure ()

-- `conn.transaction()`, rolled back when dropped on an error.
def transaction (context : String) (body : Migration Unit) : Migration Unit :=
  ExceptT.mk do
    match ← Program.ask SchemaCmd.begin with
    | .error message => pure (.error (context ++ message))
    | .ok _ =>
        match ← body.run with
        | .error message => do
            let _ ← Program.ask SchemaCmd.rollback
            pure (.error message)
        | .ok _ =>
            match ← Program.ask SchemaCmd.commit with
            | .error message => do
                let _ ← Program.ask SchemaCmd.rollback
                pure (.error (context ++ message))
            | .ok _ => pure (.ok ())

def migrateToV1 : Migration Unit := do
  let _ ← issue "schema initialization failed: " .createClipboard
  attempt .createIdxTs

def migrateToV2 : Migration Unit := do
  let present ← hasColumn .isPinned
  onlyIf (present = false) (issue "v2 migration failed: " (.addColumn .isPinned))

def migrateToV3 : Migration Unit :=
  issue "v3 migration failed: " .castText

def migrateToV4 : Migration Unit := do
  let present ← hasColumn .isChunked
  transaction "v4 migration failed: " do
    onlyIf (present = false) (issue "v4 migration failed: " (.addColumn .isChunked))
    let _ ← issue "v4 migration failed: " .createChunks
    issue "v4 migration failed: " .createManifest

-- `SchemaManager::initialize`; the plain word is a keyword.
def initializeSchema : Migration Unit := do
  attempt .pragmas
  let version : Int ← issue "" .userVersion
  onlyIf (version < 1) migrateToV1
  onlyIf (version < 2) migrateToV2
  onlyIf (version < 3) migrateToV3
  onlyIf (version < 4) migrateToV4
  onlyIf (version < schemaVersion) (issue "" .setUserVersion)
  attempt .dropIdxPinned
  attempt .createIdxPinnedTs

end SchemaManager

-- `IF [NOT] EXISTS` with nothing to do only reads.
def Ddl.access : Ddl → DbFile → Access
  | .pragmas, _ => .none
  | .userVersion, _ | .hasColumn _, _ => .read
  | .createClipboard, file => if file.clipboard.isSome then .read else .write
  | .createIdxTs, file => if file.idxTs then .read else .write
  | .createChunks, file => if file.chunks.isSome then .read else .write
  | .createManifest, file => if file.manifest.isSome then .read else .write
  | .dropIdxPinned, file => if file.idxPinned then .write else .read
  | .createIdxPinnedTs, file => if file.idxPinnedTs then .read else .write
  | .addColumn _, _ | .castText, _ | .setUserVersion, _ => .write

abbrev SharedFile : Type := Wal Turn DbFile

def SchemaCmd.answer (turn : Turn) :
    (cmd : SchemaCmd) → SharedFile → Option (cmd.Answer × SharedFile)
  | .begin, wal => some (.ok (), wal.begin turn)
  | .commit, wal => some (.ok (), wal.commit turn)
  | .rollback, wal => some (.ok (), wal.rollback turn)
  | .stmt ddl, wal =>
      wal.statement turn (ddl.access (wal.sees turn)) databaseLocked ddl.run

end Y4p
