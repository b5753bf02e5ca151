import Y4p.Storage.Upgrade

/-!
Migrations interrupted at any point and run again, until one run is not.
-/

namespace Y4p

open Programs

-- One process: a lock that is never released is a busy error.
def SchemaCmd.alone (cmd : SchemaCmd) (wal : SharedFile) : cmd.Answer × SharedFile :=
  (cmd.answer .first wal).getD (.error databaseLocked, wal)

-- A crash leaves what was committed when it came.
def Crash (file after : DbFile) : Prop :=
  ∃ wal ∈ Program.visits SchemaCmd.alone SchemaManager.initializeSchema.run (.fresh file),
    after = wal.current

theorem SchemaCmd.alone_replies {base : DbFile} {cmd : SchemaCmd} {wal : SharedFile}
    (safe : Safe base wal) (mine : wal.draft .second = none) :
    Pair.Replies SchemaCmd.answer Interlude (Safe base) .first cmd wal (cmd.alone wal).1
      (cmd.alone wal).2 ∧ (cmd.alone wal).2.draft .second = none := by
  have free : wal.writer = none ∨ ∃ file, wal.draft .first = some file := by
    cases locked : wal.writer with
    | none => exact .inl rfl
    | some held =>
        obtain ⟨holder, file⟩ := held
        cases holder with
        | first => exact .inr ⟨file, Wal.draft_eq_some.mpr locked⟩
        | second =>
            rw [Wal.draft_eq_some.mpr locked] at mine
            cases mine
  obtain ⟨⟨answer, after⟩, answered⟩ := Option.isSome_iff_exists.mp (answer_ready free)
  have same : cmd.alone wal = (answer, after) := by rw [SchemaCmd.alone, answered]; rfl
  have undisturbed := answer_undisturbed (Turn.other_ne .first) answered
  rw [same]
  exact ⟨⟨wal, .refl _ _ _, safe, answered⟩, undisturbed.draft.trans mine⟩

theorem initializeSchema_runs {file : DbFile} (sound : file.Sound) :
    let ended := Program.exec SchemaCmd.alone SchemaManager.initializeSchema.run (.fresh file)
    (∀ after, Crash file after → after.Sound ∧ file.Grows after) ∧ ended.1 = .ok () ∧
      Safe file ended.2 ∧ SchemaManager.Arrived .first ended.2 := by
  have fresh : (Wal.fresh file : SharedFile).Resting .first := ⟨rfl, rfl⟩
  obtain ⟨visited, safe, _, ok, arrived⟩ := Program.Ensures.of_steps
    (fun cmd wal safe mine => SchemaCmd.alone_replies safe mine)
    (SchemaManager.initializeSchema_migrates fresh) ⟨sound, .refl file⟩ rfl
  refine ⟨?_, ok, safe, arrived⟩
  rintro after ⟨wal, visit, rfl⟩
  exact visited wal visit

theorem crashes_sound {file crashed : DbFile} (sound : file.Sound)
    (crashes : Relation.ReflTransGen Crash file crashed) : crashed.Sound ∧ file.Grows crashed := by
  induction crashes with
  | refl => exact ⟨sound, .refl file⟩
  | tail _ crash ih =>
      obtain ⟨still, grown⟩ := ih
      obtain ⟨sound, grows⟩ := (initializeSchema_runs still).1 _ crash
      exact ⟨sound, grown.trans grows⟩

/-- However often it was interrupted, the migration of a file that any version left ends with the
layout of a new file and with every row that it began with. -/
theorem migrations_converge (file crashed : DbFile) (started : Started file)
    (crashes : Relation.ReflTransGen Crash file crashed) :
    let ended := Program.exec SchemaCmd.alone SchemaManager.initializeSchema.run (.fresh crashed)
    let clean := Program.exec SchemaCmd.alone SchemaManager.initializeSchema.run (.fresh .empty)
    ended.1 = .ok () ∧ clean.1 = .ok () ∧
      ended.2.current.layout = clean.2.current.layout ∧
      ended.2.current.userVersion = schemaVersion ∧
      List.Forall₂ (fun old new => RowKept old new ∧
        ∀ column, column ∉ file.columns → new.cell column = 0)
        file.rows ended.2.current.rows := by
  intro ended clean
  obtain ⟨sound, grown⟩ := crashes_sound started.sound crashes
  obtain ⟨_, ok, ⟨endSound, grows⟩, arrived⟩ := initializeSchema_runs sound
  obtain ⟨_, cleanOk, ⟨cleanSound, _⟩, cleanArrived⟩ := initializeSchema_runs DbFile.Sound.empty
  have unpinned : ∀ row ∈ file.rows, ∀ column, column ∉ file.columns → row.cell column = 0 :=
    fun row stored column => DbFile.cell_absent stored
  have kept := (List.forall₂_and_left _ _).mpr ⟨unpinned, (grown.trans grows).rows⟩
  refine ⟨ok, cleanOk, ?_, arrived.stage.progress.stamped rfl, kept.imp ?_⟩
  · rw [arrived.layout endSound, cleanArrived.layout cleanSound]
  · rintro old new ⟨zero, same⟩
    exact ⟨same, fun column absent => (same.cell column).trans (zero column absent)⟩

def legacyRow : FileRow where
  id := 1
  timestamp := 1000
  mime := "text/plain".toList
  size := 5
  preview := some "hello".toList
  content := .blob sampleText
  hash := some "legacy-hash".toList
  added := []

theorem legacyRow_shaped : ∀ row ∈ [legacyRow], row.added.map Prod.fst = [] := by
  simp [legacyRow]

def legacyFile : DbFile where
  userVersion := 0
  clipboard := some ⟨[], [legacyRow], List.nodup_nil, legacyRow_shaped⟩
  chunks := none
  manifest := none
  idxTs := false
  idxPinned := false
  idxPinnedTs := false

def interruptedFile : DbFile :=
  ((Ddl.addColumn .isPinned).run (Ddl.createIdxTs.run legacyFile).2).2

theorem migrations_converge_interrupted :
    let ended := Program.exec SchemaCmd.alone SchemaManager.initializeSchema.run
      (.fresh interruptedFile)
    let clean := Program.exec SchemaCmd.alone SchemaManager.initializeSchema.run (.fresh .empty)
    ended.1 = .ok () ∧ clean.1 = .ok () ∧
      ended.2.current.layout = clean.2.current.layout ∧
      ended.2.current.userVersion = schemaVersion ∧
      List.Forall₂ (fun old new => RowKept old new ∧
        ∀ column, column ∉ legacyFile.columns → new.cell column = 0)
        legacyFile.rows ended.2.current.rows := by
  refine migrations_converge legacyFile interruptedFile (.inr ⟨1, ?_⟩) (.single ?_)
  · exact ⟨by decide, .inr ⟨rfl, rfl⟩, rfl, rfl, rfl, fun stamped => absurd rfl stamped⟩
  · exact ⟨_, List.mem_iff_getElem?.mpr ⟨5, rfl⟩, rfl⟩

end Y4p
