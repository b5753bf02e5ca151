import Y4p.Storage.Migrations

/-!
A file between two schema versions: what no statement of a migration takes back, and what
every committed file satisfies.
-/

namespace Y4p

open Programs

structure RowKept (old new : FileRow) : Prop where
  id : new.id = old.id
  timestamp : new.timestamp = old.timestamp
  mime : new.mime = old.mime
  size : new.size = old.size
  preview : new.preview = old.preview
  content : new.content.bytes? = old.content.bytes?
  hash : new.hash = old.hash
  cell : ∀ column, new.cell column = old.cell column

theorem RowKept.refl (row : FileRow) : RowKept row row :=
  ⟨rfl, rfl, rfl, rfl, rfl, rfl, rfl, fun _ => rfl⟩

theorem RowKept.trans {first second third : FileRow} (before : RowKept first second)
    (after : RowKept second third) : RowKept first third where
  id := after.id.trans before.id
  timestamp := after.timestamp.trans before.timestamp
  mime := after.mime.trans before.mime
  size := after.size.trans before.size
  preview := after.preview.trans before.preview
  content := after.content.trans before.content
  hash := after.hash.trans before.hash
  cell column := (after.cell column).trans (before.cell column)

theorem rowsKept_map {change : FileRow → FileRow} (kept : ∀ row, RowKept row (change row))
    (rows : List FileRow) : List.Forall₂ RowKept rows (rows.map change) := by
  rw [List.forall₂_map_right_iff, List.forall₂_same]
  exact fun row _ => kept row

theorem rowsKept_trans {first second third : List FileRow} (before : List.Forall₂ RowKept first second)
    (after : List.Forall₂ RowKept second third) : List.Forall₂ RowKept first third := by
  induction before generalizing third with
  | nil =>
      cases after
      exact .nil
  | cons kept _ ih =>
      cases after with
      | cons later rest => exact .cons (kept.trans later) (ih rest)

theorem addColumn_kept (column : Column) (row : FileRow) : RowKept row (row.addColumn column) := by
  refine ⟨rfl, rfl, rfl, rfl, rfl, rfl, rfl, fun other => ?_⟩
  unfold FileRow.cell FileRow.addColumn
  rw [List.lookup_append]
  cases found : row.added.lookup other with
  | some cell => rfl
  | none =>
      by_cases same : other = column
      · simp [same]
      · have differs : (other == column) = false := beq_eq_false_iff_ne.mpr same
        simp [List.lookup_cons, differs]

theorem castText_kept (row : FileRow) : RowKept row row.castText := by
  unfold FileRow.castText
  split
  · refine ⟨rfl, rfl, rfl, rfl, rfl, ?_, rfl, fun _ => rfl⟩
    cases row.content <;> rfl
  · exact .refl row

structure DbFile.Grows (before after : DbFile) : Prop where
  table : before.clipboard.isSome → after.clipboard.isSome
  columns : before.columns <+: after.columns
  rows : List.Forall₂ RowKept before.rows after.rows
  chunks : ∀ stored, before.chunks = some stored → after.chunks = some stored
  manifest : ∀ stored, before.manifest = some stored → after.manifest = some stored
  stamped : before.userVersion = schemaVersion → after.userVersion = schemaVersion
  idxTs : before.idxTs = true → after.idxTs = true
  idxPinned : before.idxPinned = false → after.idxPinned = false
  idxPinnedTs : before.idxPinnedTs = true → after.idxPinnedTs = true

namespace DbFile

theorem Grows.refl (file : DbFile) : file.Grows file where
  table := id
  columns := List.prefix_rfl
  rows := List.forall₂_same.mpr fun row _ => .refl row
  chunks _ := id
  manifest _ := id
  stamped := id
  idxTs := id
  idxPinned := id
  idxPinnedTs := id

theorem Grows.trans {first second third : DbFile} (before : first.Grows second)
    (after : second.Grows third) : first.Grows third where
  table := after.table ∘ before.table
  columns := before.columns.trans after.columns
  rows := rowsKept_trans before.rows after.rows
  chunks stored := after.chunks stored ∘ before.chunks stored
  manifest stored := after.manifest stored ∘ before.manifest stored
  stamped := after.stamped ∘ before.stamped
  idxTs := after.idxTs ∘ before.idxTs
  idxPinned := after.idxPinned ∘ before.idxPinned
  idxPinnedTs := after.idxPinnedTs ∘ before.idxPinnedTs

/-- A statement that need not write changes nothing. -/
theorem run_read {ddl : Ddl} {file : DbFile} (reads : ddl.access file ≠ .write) :
    (ddl.run file).2 = file := by
  obtain ⟨version, clipboard, chunks, manifest, idxTs, idxPinned, idxPinnedTs⟩ := file
  cases ddl with
  | pragmas | userVersion | hasColumn column => rfl
  | createClipboard =>
      cases clipboard with
      | none => exact absurd rfl reads
      | some table => rfl
  | createIdxTs =>
      cases idxTs with
      | false => exact absurd rfl reads
      | true => cases clipboard <;> rfl
  | createChunks =>
      cases chunks with
      | none => exact absurd rfl reads
      | some stored => rfl
  | createManifest =>
      cases manifest with
      | none => exact absurd rfl reads
      | some stored => rfl
  | dropIdxPinned =>
      cases idxPinned with
      | true => exact absurd rfl reads
      | false => rfl
  | createIdxPinnedTs =>
      cases idxPinnedTs with
      | false => exact absurd rfl reads
      | true => cases clipboard <;> rfl
  | addColumn column => exact absurd rfl reads
  | castText => exact absurd rfl reads
  | setUserVersion => exact absurd rfl reads

theorem onTable_grows {file : DbFile} {change : Table → Except String DbFile}
    (grows : ∀ table after, file.clipboard = some table → change table = .ok after →
      file.Grows after) : file.Grows (file.onTable change).2 := by
  unfold onTable
  cases there : file.clipboard with
  | none => exact .refl file
  | some table =>
      cases changed : change table with
      | error message => simpa only [changed] using Grows.refl file
      | ok after => simpa only [changed] using grows table after there changed

theorem Grows.ofTable {file : DbFile} {old new : Table} (there : file.clipboard = some old)
    (columns : old.columns <+: new.columns) (rows : List.Forall₂ RowKept old.rows new.rows) :
    file.Grows { file with clipboard := some new } where
  table _ := rfl
  columns := by
    unfold DbFile.columns
    rw [there]
    exact columns
  rows := by
    unfold DbFile.rows
    rw [there]
    exact rows
  chunks _ := id
  manifest _ := id
  stamped := id
  idxTs := id
  idxPinned := id
  idxPinnedTs := id

/-- No statement takes back what another has done. -/
theorem run_grows (ddl : Ddl) (file : DbFile) : file.Grows (ddl.run file).2 := by
  have same := Grows.refl file
  cases ddl with
  | pragmas | userVersion | hasColumn column => exact same
  | createClipboard =>
      cases there : file.clipboard with
      | none =>
          refine { same with table := fun _ => rfl, columns := ?_, rows := ?_ }
          · simp [DbFile.columns, Ddl.run, there]
          · simp [DbFile.rows, Ddl.run, there, Table.empty]
      | some table =>
          rw [run_read (by simp [Ddl.access, there])]
          exact same
  | createIdxTs =>
      refine onTable_grows fun table after _ changed => ?_
      cases changed
      exact { same with idxTs := fun _ => rfl }
  | addColumn column =>
      refine onTable_grows fun table after there changed => ?_
      split at changed
      · cases changed
        exact Grows.ofTable there (List.prefix_append _ _) (rowsKept_map (addColumn_kept column) _)
      · cases changed
  | castText =>
      refine onTable_grows fun table after there changed => ?_
      cases changed
      exact Grows.ofTable there List.prefix_rfl (rowsKept_map castText_kept _)
  | createChunks =>
      refine { same with chunks := fun stored there => ?_ }
      simp [Ddl.run, there]
  | createManifest =>
      refine { same with manifest := fun stored there => ?_ }
      simp [Ddl.run, there]
  | setUserVersion => exact { same with stamped := fun _ => rfl }
  | dropIdxPinned => exact { same with idxPinned := fun _ => rfl }
  | createIdxPinnedTs =>
      refine onTable_grows fun table after _ changed => ?_
      split at changed
      · cases changed
        exact { same with idxPinnedTs := fun _ => rfl }
      · cases changed

/-- A statement that fails changes nothing. -/
theorem run_fails {ddl : Ddl} {file : DbFile} {message : String}
    (failed : (ddl.run file).1 = .error message) : (ddl.run file).2 = file := by
  have onTable : ∀ change : Table → Except String DbFile,
      (file.onTable change).1 = .error message → (file.onTable change).2 = file := by
    intro change failed
    unfold DbFile.onTable at failed ⊢
    cases there : file.clipboard with
    | none => rfl
    | some table =>
        cases changed : change table with
        | error other => simp only [changed]
        | ok after => simp [there, changed] at failed
  cases ddl with
  | pragmas | userVersion | hasColumn column => rfl
  | createClipboard | createChunks | createManifest | setUserVersion | dropIdxPinned => cases failed
  | createIdxTs => exact onTable _ failed
  | addColumn column => exact onTable _ failed
  | castText => exact onTable _ failed
  | createIdxPinnedTs => exact onTable _ failed

structure Sound (file : DbFile) : Prop where
  known : file.userVersion ≤ schemaVersion
  ordered : file.columns <+: [.isPinned, .isChunked]
  first : 1 ≤ file.userVersion → file.clipboard.isSome ∧ file.idxTs = true
  second : 2 ≤ file.userVersion → .isPinned ∈ file.columns
  fourth : 4 ≤ file.userVersion → .isChunked ∈ file.columns
  stored : .isChunked ∈ file.columns → file.chunks.isSome ∧ file.manifest.isSome

structure Progress (version level : Int) (file : DbFile) : Prop where
  first : 1 ≤ level → file.clipboard.isSome ∧ file.idxTs = true
  second : 2 ≤ level → .isPinned ∈ file.columns
  fourth : 4 ≤ level → .isChunked ∈ file.columns
  stamped : version = schemaVersion → file.userVersion = schemaVersion

theorem Progress.grows {version level : Int} {before after : DbFile}
    (progress : before.Progress version level) (grows : before.Grows after) :
    after.Progress version level where
  first reached := ⟨grows.table (progress.first reached).1, grows.idxTs (progress.first reached).2⟩
  second reached := grows.columns.subset (progress.second reached)
  fourth reached := grows.columns.subset (progress.fourth reached)
  stamped read := grows.stamped (progress.stamped read)

theorem Progress.raised {file : DbFile} {version low high : Int}
    (progress : file.Progress version low) (begun : 1 ≤ low)
    (second : 2 ≤ high → .isPinned ∈ file.columns)
    (fourth : 4 ≤ high → .isChunked ∈ file.columns) : file.Progress version high where
  first _ := progress.first begun
  second := second
  fourth := fourth
  stamped := progress.stamped

theorem Sound.progress {file : DbFile} (sound : file.Sound) :
    file.Progress file.userVersion file.userVersion :=
  ⟨sound.first, sound.second, sound.fourth, id⟩

theorem Sound.columns_cases {file : DbFile} (sound : file.Sound) :
    file.columns = [] ∨ file.columns = [.isPinned] ∨ file.columns = [.isPinned, .isChunked] := by
  obtain ⟨rest, shape⟩ := sound.ordered
  rcases listed : file.columns with _ | ⟨first, _ | ⟨second, others⟩⟩
  · exact .inl rfl
  · rw [listed] at shape
    cases shape
    exact .inr (.inl rfl)
  · rw [listed] at shape
    simp only [List.cons_append, List.cons.injEq, List.append_eq_nil_iff] at shape
    obtain ⟨rfl, rfl, rfl, _⟩ := shape
    exact .inr (.inr rfl)

theorem Sound.grown {before after : DbFile} (sound : before.Sound) (grows : before.Grows after)
    (columns : after.columns = before.columns) (version : after.userVersion = before.userVersion) :
    after.Sound where
  known := by rw [version]; exact sound.known
  ordered := by rw [columns]; exact sound.ordered
  first reached := by
    rw [version] at reached
    exact ⟨grows.table (sound.first reached).1, grows.idxTs (sound.first reached).2⟩
  second reached := by rw [columns]; exact sound.second (version ▸ reached)
  fourth reached := by rw [columns]; exact sound.fourth (version ▸ reached)
  stored listed := by
    obtain ⟨chunks, manifest⟩ := sound.stored (columns ▸ listed)
    obtain ⟨stored, isStored⟩ := Option.isSome_iff_exists.mp chunks
    obtain ⟨linked, isLinked⟩ := Option.isSome_iff_exists.mp manifest
    rw [grows.chunks stored isStored, grows.manifest linked isLinked]
    exact ⟨rfl, rfl⟩

def Steady : Ddl → Prop
  | .addColumn _ | .setUserVersion => False
  | _ => True

theorem onTable_steady {file : DbFile} {change : Table → Except String DbFile}
    (steady : ∀ table after, file.clipboard = some table → change table = .ok after →
      after.columns = file.columns ∧ after.userVersion = file.userVersion) :
    (file.onTable change).2.columns = file.columns ∧
      (file.onTable change).2.userVersion = file.userVersion := by
  unfold onTable
  cases there : file.clipboard with
  | none => exact ⟨rfl, rfl⟩
  | some table =>
      cases changed : change table with
      | error message => simp [changed]
      | ok after => simpa only [changed] using steady table after there changed

theorem run_steady {ddl : Ddl} (steady : Steady ddl) (file : DbFile) :
    (ddl.run file).2.columns = file.columns ∧ (ddl.run file).2.userVersion = file.userVersion := by
  cases ddl with
  | addColumn column => exact steady.elim
  | setUserVersion => exact steady.elim
  | pragmas | userVersion | hasColumn column | createChunks | createManifest | dropIdxPinned =>
      exact ⟨rfl, rfl⟩
  | createClipboard =>
      refine ⟨?_, rfl⟩
      cases there : file.clipboard <;> simp [Ddl.run, columns, there, Table.empty]
  | createIdxTs =>
      refine onTable_steady fun table after _ changed => ?_
      cases changed
      exact ⟨rfl, rfl⟩
  | castText =>
      refine onTable_steady fun table after there changed => ?_
      cases changed
      exact ⟨by simp [columns, there, Table.castText], rfl⟩
  | createIdxPinnedTs =>
      refine onTable_steady fun table after _ changed => ?_
      split at changed
      · cases changed
        exact ⟨rfl, rfl⟩
      · cases changed

theorem Sound.run_steady {file : DbFile} (sound : file.Sound) {ddl : Ddl} (steady : Steady ddl) :
    (ddl.run file).2.Sound :=
  sound.grown (run_grows ddl file) (DbFile.run_steady steady file).1 (DbFile.run_steady steady file).2

theorem run_onTable {file : DbFile} (there : file.clipboard.isSome)
    {change : Table → Except String DbFile} (works : ∀ table, file.clipboard = some table →
      ∃ after, change table = .ok after) : (file.onTable change).1 = .ok () := by
  obtain ⟨table, isTable⟩ := Option.isSome_iff_exists.mp there
  obtain ⟨after, changed⟩ := works table isTable
  simp only [onTable, isTable, changed]

theorem run_addColumn {file : DbFile} (there : file.clipboard.isSome) {column : Column}
    (absent : column ∉ file.columns) :
    ((Ddl.addColumn column).run file).1 = .ok () ∧
      ((Ddl.addColumn column).run file).2.columns = file.columns ++ [column] ∧
      ((Ddl.addColumn column).run file).2.userVersion = file.userVersion := by
  obtain ⟨table, isTable⟩ := Option.isSome_iff_exists.mp there
  have unlisted : column ∉ table.columns := by
    rw [columns, isTable] at absent
    exact absent
  simp only [Ddl.run, onTable, isTable, dif_pos unlisted]
  exact ⟨rfl, by simp [columns, isTable, Table.addColumn], trivial⟩

theorem Sound.pinned {file : DbFile} (sound : file.Sound) (there : file.clipboard.isSome)
    (absent : .isPinned ∉ file.columns) : ((Ddl.addColumn .isPinned).run file).2.Sound := by
  obtain ⟨_, columns, version⟩ := run_addColumn there absent
  have grows := run_grows (.addColumn .isPinned) file
  have none : file.columns = [] := by
    rcases sound.columns_cases with none | one | both
    · exact none
    · rw [one] at absent
      exact absurd List.mem_cons_self absent
    · rw [both] at absent
      exact absurd List.mem_cons_self absent
  rw [none, List.nil_append] at columns
  refine ⟨version ▸ sound.known, ?_, ?_, ?_, ?_, ?_⟩
  · rw [columns]
    exact ⟨[.isChunked], rfl⟩
  · intro reached
    rw [version] at reached
    exact ⟨grows.table (sound.first reached).1, grows.idxTs (sound.first reached).2⟩
  · intro _
    rw [columns]
    exact List.mem_cons_self
  · intro reached
    exact grows.columns.subset (sound.fourth (version ▸ reached))
  · intro listed
    rw [columns] at listed
    cases List.mem_singleton.mp listed

theorem Sound.chunked {before after : DbFile} (sound : before.Sound) (grows : before.Grows after)
    (columns : after.columns = [.isPinned, .isChunked])
    (version : after.userVersion = before.userVersion)
    (stored : after.chunks.isSome ∧ after.manifest.isSome) : after.Sound where
  known := version ▸ sound.known
  ordered := by rw [columns]
  first reached := by
    rw [version] at reached
    exact ⟨grows.table (sound.first reached).1, grows.idxTs (sound.first reached).2⟩
  second _ := by simp [columns]
  fourth _ := by simp [columns]
  stored _ := stored

theorem Sound.stamped {file : DbFile} (sound : file.Sound) {version : Int}
    (progress : file.Progress version 4) : (Ddl.setUserVersion.run file).2.Sound where
  known := Int.le_refl _
  ordered := sound.ordered
  first _ := progress.first (by decide)
  second _ := progress.second (by decide)
  fourth _ := progress.fourth (by decide)
  stored := sound.stored

end DbFile

structure Layout where
  userVersion : Int
  columns : Option (List Column)
  chunks : Bool
  manifest : Bool
  idxTs : Bool
  idxPinned : Bool
  idxPinnedTs : Bool
  deriving DecidableEq

def DbFile.layout (file : DbFile) : Layout where
  userVersion := file.userVersion
  columns := file.clipboard.map Table.columns
  chunks := file.chunks.isSome
  manifest := file.manifest.isSome
  idxTs := file.idxTs
  idxPinned := file.idxPinned
  idxPinnedTs := file.idxPinnedTs

def Layout.current : Layout where
  userVersion := schemaVersion
  columns := some [.isPinned, .isChunked]
  chunks := true
  manifest := true
  idxTs := true
  idxPinned := false
  idxPinnedTs := true

def columnsAt (version : Int) : List Column :=
  if version < 2 then [] else if version < 4 then [.isPinned] else [.isPinned, .isChunked]

-- What the migrations up to `version` leave, whatever the rows: the original first version had
-- no stamp, and any version may have either index on the pins.
structure LeftBy (version : Int) (file : DbFile) : Prop where
  known : 1 ≤ version ∧ version ≤ schemaVersion
  stamp : file.userVersion = version ∨ version = 1 ∧ file.userVersion = 0
  table : file.clipboard.map Table.columns = some (columnsAt version)
  chunks : file.chunks.isSome = decide (4 ≤ version)
  manifest : file.manifest.isSome = decide (4 ≤ version)
  idxTs : file.userVersion ≠ 0 → file.idxTs = true

def Started (file : DbFile) : Prop :=
  file = .empty ∨ ∃ version, LeftBy version file

theorem DbFile.Sound.empty : DbFile.empty.Sound where
  known := by decide
  ordered := List.nil_prefix
  first reached := absurd reached (by decide)
  second reached := absurd reached (by decide)
  fourth reached := absurd reached (by decide)
  stored listed := absurd listed (by decide)

theorem LeftBy.sound {version : Int} {file : DbFile} (left : LeftBy version file) : file.Sound := by
  have columns : file.columns = columnsAt version := by rw [DbFile.columns, left.table]; rfl
  have there : file.clipboard.isSome := by
    rw [← Option.isSome_map, left.table]
    rfl
  obtain ⟨lower, upper⟩ := left.known
  have stamp : file.userVersion ≤ version := by
    rcases left.stamp with same | ⟨rfl, unstamped⟩ <;> omega
  refine ⟨stamp.trans upper, ?_, ?_, ?_, ?_, ?_⟩
  · rw [columns]
    unfold columnsAt
    split
    · exact List.nil_prefix
    · split
      · exact ⟨[.isChunked], rfl⟩
      · exact List.prefix_rfl
  · intro reached
    exact ⟨there, left.idxTs (by omega)⟩
  · intro reached
    rw [columns, columnsAt, if_neg (by omega)]
    split <;> exact List.mem_cons_self
  · intro reached
    rw [columns, columnsAt, if_neg (by omega), if_neg (by omega)]
    exact List.mem_cons_of_mem _ List.mem_cons_self
  · intro listed
    have last : 4 ≤ version := by
      rw [columns] at listed
      unfold columnsAt at listed
      split at listed
      · cases listed
      · split at listed
        · cases List.mem_singleton.mp listed
        · omega
    rw [left.chunks, left.manifest]
    exact ⟨decide_eq_true last, decide_eq_true last⟩

theorem Started.sound {file : DbFile} (started : Started file) : file.Sound := by
  rcases started with rfl | ⟨version, left⟩
  · exact .empty
  · exact left.sound

theorem DbFile.cell_absent {file : DbFile} {row : FileRow} (stored : row ∈ file.rows)
    {column : Column} (absent : column ∉ file.columns) : row.cell column = 0 := by
  cases there : file.clipboard with
  | none =>
      rw [DbFile.rows, there] at stored
      cases stored
  | some table =>
      rw [DbFile.rows, there] at stored
      rw [DbFile.columns, there] at absent
      have unknown : row.added.lookup column = none := by
        rw [List.lookup_eq_none_iff]
        intro entry member
        rw [bne_iff_ne]
        rintro rfl
        have listed : entry.1 ∈ row.added.map Prod.fst := List.mem_map.mpr ⟨entry, member, rfl⟩
        rw [table.shaped row stored] at listed
        exact absent listed
      rw [FileRow.cell, unknown]
      rfl

end Y4p
