import Y4p.Storage.Versions

/-!
A run of the migrations arrives at the one schema, whatever it starts from and whatever
another connection adds to the file meanwhile, as long as that spares the columns the run
has found missing.
-/

namespace Y4p

open Programs

def SchemaCmd.Awaits (column : Column) : SchemaCmd → Prop
  | .begin => column = .isChunked
  | .stmt (.addColumn other) => other = column
  | _ => False

structure Interlude (turn : Turn) (next : Option SchemaCmd) (before after : SharedFile) : Prop where
  undisturbed : Wal.Undisturbed turn before after
  grows : before.current.Grows after.current
  spared : ∀ cmd ∈ next, ∀ column, cmd.Awaits column →
    column ∉ before.current.columns → column ∉ after.current.columns

theorem Interlude.refl (turn : Turn) (next : Option SchemaCmd) (wal : SharedFile) :
    Interlude turn next wal wal :=
  ⟨.refl turn wal, .refl _, fun _ _ _ _ absent => absent⟩

theorem Interlude.trans (turn : Turn) (next : Option SchemaCmd) (first second third : SharedFile)
    (before : Interlude turn next first second) (after : Interlude turn next second third) :
    Interlude turn next first third where
  undisturbed := before.undisturbed.trans after.undisturbed
  grows := before.grows.trans after.grows
  spared cmd issued column awaits absent :=
    after.spared cmd issued column awaits (before.spared cmd issued column awaits absent)

-- What is committed is sound, and has lost nothing of the file both started from.
def Safe (base : DbFile) (wal : SharedFile) : Prop :=
  wal.current.Sound ∧ base.Grows wal.current

abbrev Migrates {α : Type} (base : DbFile) (turn : Turn) (post : α → SharedFile → Prop)
    (program : Migration α) (wal : SharedFile) : Prop :=
  Fallible.Returns (Pair.Replies SchemaCmd.answer Interlude (Safe base) turn) (Safe base) post
    program wal

section
variable {base : DbFile} {turn : Turn} {wal : SharedFile}

structure Found (ddl : Ddl) (before file : DbFile) : Prop where
  grown : before.Grows file
  sound : file.Sound
  spared : ∀ column, SchemaCmd.Awaits column (.stmt ddl) → column ∉ before.columns →
    column ∉ file.columns

theorem statement_replies {ddl : Ddl} {answer : ddl.Answer} {after : SharedFile}
    (resting : wal.Resting turn)
    (sound : ∀ file, Found ddl wal.current file → (ddl.run file).2.Sound)
    (replies : Pair.Replies SchemaCmd.answer Interlude (Safe base) turn (.stmt ddl) wal answer after) :
    Safe base after ∧ ∃ file, Found ddl wal.current file ∧ answer = (ddl.run file).1 ∧
      after.current = (ddl.run file).2 ∧ after.Resting turn := by
  obtain ⟨middle, interlude, ⟨isSound, grown⟩, answered⟩ := replies
  have resting := resting.undisturbed interlude.undisturbed
  have found : Found ddl wal.current middle.current :=
    ⟨interlude.grows, isSound, interlude.spared _ rfl⟩
  obtain ⟨same, current, closed, _⟩ := Wal.statement_resting resting
    (by rw [resting.sees]; exact DbFile.run_read) (fun _ => DbFile.run_fails) answered
  refine ⟨⟨?_, ?_⟩, middle.current, found, same, current, closed⟩
  · rw [current]
    exact sound _ found
  · rw [current]
    exact grown.trans (DbFile.run_grows ddl _)

namespace SchemaManager

theorem issue_replies {context : String} {ddl : Ddl} {post : ddl.Result → SharedFile → Prop}
    (replies : ∀ middle (answer : ddl.Answer) after, Interlude turn (some (.stmt ddl)) wal middle →
      Safe base middle →
      middle.statement turn (ddl.access (middle.sees turn)) databaseLocked ddl.run =
        some (answer, after) →
      Safe base after ∧ ∃ result, answer = .ok result ∧ post result after) :
    Migrates base turn post (issue context ddl) wal := by
  refine Program.Ensures.ask ?_
  rintro answer after ⟨middle, interlude, safe, answered⟩
  obtain ⟨still, result, rfl, holds⟩ := replies middle answer after interlude safe answered
  exact ⟨still, result, rfl, holds⟩

theorem issue_migrates {context : String} {ddl : Ddl} {post : ddl.Result → SharedFile → Prop}
    (resting : wal.Resting turn)
    (sound : ∀ file, Found ddl wal.current file → (ddl.run file).2.Sound)
    (works : ∀ file, Found ddl wal.current file → ∃ result, (ddl.run file).1 = .ok result ∧
      ∀ after, after.current = (ddl.run file).2 → after.Resting turn → post result after) :
    Migrates base turn post (issue context ddl) wal := by
  refine issue_replies fun middle answer after interlude safe answered => ?_
  obtain ⟨safe, file, found, rfl, current, closed⟩ :=
    statement_replies resting sound ⟨middle, interlude, safe, answered⟩
  obtain ⟨result, ok, holds⟩ := works file found
  exact ⟨safe, result, ok, holds after current closed⟩

theorem attempt_migrates {ddl : Ddl} {post : Unit → SharedFile → Prop}
    (resting : wal.Resting turn)
    (sound : ∀ file, Found ddl wal.current file → (ddl.run file).2.Sound)
    (holds : ∀ file, Found ddl wal.current file →
      ∀ after, after.current = (ddl.run file).2 → after.Resting turn → post () after) :
    Migrates base turn post (attempt ddl) wal := by
  refine Program.Ensures.ask fun answer after replies => ?_
  obtain ⟨safe, file, found, _, current, closed⟩ := statement_replies resting sound replies
  exact ⟨safe, (), rfl, holds file found after current closed⟩

theorem hasColumn_migrates {column : Column} {post : Bool → SharedFile → Prop}
    (resting : wal.Resting turn)
    (holds : ∀ after, wal.current.Grows after.current → after.Resting turn →
      post (decide (column ∈ after.current.columns)) after) :
    Migrates base turn post (hasColumn column) wal := by
  have steady : DbFile.Steady (.hasColumn column) := trivial
  refine Program.Ensures.ask fun answer after replies => ?_
  obtain ⟨safe, file, found, rfl, current, closed⟩ :=
    statement_replies resting (fun _ found => found.sound.run_steady steady) replies
  have same : after.current = file := current
  subst same
  exact ⟨safe, _, rfl, holds after found.grown closed⟩

end SchemaManager

structure Drafting (turn : Turn) (file draft : DbFile) (wal : SharedFile) : Prop where
  current : wal.current = file
  draft : wal.draft turn = some draft

theorem Drafting.interlude {next : Option SchemaCmd} {file draft : DbFile} {after : SharedFile}
    (drafting : Drafting turn file draft wal) (interlude : Interlude turn next wal after) :
    Drafting turn file draft after where
  current := by
    have same := interlude.undisturbed.locked (by rw [drafting.draft]; rfl)
    exact (Wal.history_eq same).1.trans drafting.current
  draft := interlude.undisturbed.draft.trans drafting.draft

structure Reading (turn : Turn) (file : DbFile) (wal : SharedFile) : Prop where
  unwritten : wal.draft turn = none
  grows : file.Grows wal.current
  snapshot : ∃ taken : SharedFile, taken.current = file ∧ taken.history <:+ wal.history ∧
    wal.phase turn = .reading taken.version

theorem Reading.interlude {next : Option SchemaCmd} {file : DbFile} {after : SharedFile}
    (reading : Reading turn file wal) (interlude : Interlude turn next wal after) :
    Reading turn file after where
  unwritten := interlude.undisturbed.draft.trans reading.unwritten
  grows := reading.grows.trans interlude.grows
  snapshot := by
    obtain ⟨taken, same, grown, phase⟩ := reading.snapshot
    exact ⟨taken, same, grown.trans interlude.undisturbed.grown,
      interlude.undisturbed.phase.trans phase⟩

structure Begun (turn : Turn) (wal : SharedFile) : Prop where
  opened : wal.phase turn = .opened
  unwritten : wal.draft turn = none

theorem Begun.interlude {next : Option SchemaCmd} {after : SharedFile} (begun : Begun turn wal)
    (interlude : Interlude turn next wal after) : Begun turn after :=
  ⟨interlude.undisturbed.phase.trans begun.opened,
    interlude.undisturbed.draft.trans begun.unwritten⟩

theorem Begun.sees (begun : Begun turn wal) : wal.sees turn = wal.current := by
  simp only [Wal.sees, begun.unwritten, begun.opened]

namespace SchemaManager

theorem issue_drafting {context : String} {ddl : Ddl} {file draft : DbFile} {result : ddl.Result}
    (drafting : Drafting turn file draft wal) (works : (ddl.run draft).1 = .ok result) :
    Migrates base turn (fun _ after => Drafting turn file (ddl.run draft).2 after)
      (issue context ddl) wal := by
  refine issue_replies fun middle answer after interlude safe answered => ?_
  have now := drafting.interlude interlude
  rw [Wal.statement_of_draft now.draft] at answered
  cases answered
  exact ⟨safe, result, works, now.current, Wal.hold_draft_self _⟩

theorem issue_reading {context : String} {ddl : Ddl} {file : DbFile} {result : ddl.Result}
    (reading : Reading turn file wal) (reads : ddl.access file = .read)
    (works : (ddl.run file).1 = .ok result) :
    Migrates base turn (fun _ after => Reading turn file after) (issue context ddl) wal := by
  refine issue_replies fun middle answer after interlude safe answered => ?_
  have now := reading.interlude interlude
  obtain ⟨taken, same, grown, phase⟩ := now.snapshot
  have seen : middle.seen taken.version = file := (Wal.seen_of_suffix grown).trans same
  have sees : middle.sees turn = file := by
    simp only [Wal.sees, now.unwritten, phase, seen]
  rw [sees, reads] at answered
  simp only [Wal.statement, now.unwritten, Wal.read, phase, seen] at answered
  cases answered
  exact ⟨safe, result, works, now⟩

theorem issue_begun {context : String} {ddl : Ddl} (begun : Begun turn wal)
    (reads : ∀ file, Found ddl wal.current file →
      ddl.access file = .read ∧ ∃ result, (ddl.run file).1 = .ok result) :
    Migrates base turn (fun _ after => ∃ file, Found ddl wal.current file ∧
      Reading turn file after) (issue context ddl) wal := by
  refine issue_replies fun middle answer after interlude safe answered => ?_
  have now := begun.interlude interlude
  have found : Found ddl wal.current middle.current :=
    ⟨interlude.grows, safe.1, interlude.spared _ rfl⟩
  obtain ⟨access, result, works⟩ := reads _ found
  rw [now.sees, access, Wal.statement_read now.unwritten now.opened] at answered
  cases answered
  refine ⟨safe, result, works, middle.current, found, now.unwritten, .refl _, ?_⟩
  exact ⟨middle, rfl, List.suffix_rfl, Wal.enter_phase_self _⟩

theorem issue_acquires {context : String} {ddl : Ddl} {result : ddl.Result}
    (begun : Begun turn wal) (writes : ∀ file, ddl.access file = .write)
    (works : ∀ file, Found ddl wal.current file → (ddl.run file).1 = .ok result) :
    Migrates base turn (fun _ after => ∃ file, Found ddl wal.current file ∧
      Drafting turn file (ddl.run file).2 after) (issue context ddl) wal := by
  refine issue_replies fun middle answer after interlude safe answered => ?_
  have now := begun.interlude interlude
  have found : Found ddl wal.current middle.current :=
    ⟨interlude.grows, safe.1, interlude.spared _ rfl⟩
  rw [writes] at answered
  obtain ⟨rfl, rfl⟩ := Wal.statement_opened now.unwritten now.opened answered
  refine ⟨safe, result, works _ found, middle.current, found, rfl, ?_⟩
  exact @Wal.hold_draft_self _ _ _ middle _ _

def Closes (base : DbFile) (turn : Turn) (post : SharedFile → Prop) (closing : SharedFile) : Prop :=
  ∀ middle, Interlude turn (some .commit) closing middle → Safe base middle →
    Safe base (middle.commit turn) ∧ post (middle.commit turn)

theorem transaction_migrates {context : String} {body : Migration Unit} {post : SharedFile → Prop}
    (resting : wal.Resting turn)
    (opens : ∀ after, Begun turn after → wal.current.Grows after.current →
      (.isChunked ∉ wal.current.columns → .isChunked ∉ after.current.columns) →
      Migrates base turn (fun _ => Closes base turn post) body after) :
    Migrates base turn (fun _ => post) (transaction context body) wal := by
  refine Program.Ensures.ask ?_
  rintro begun after ⟨middle, interlude, safe, answered⟩
  have resting := resting.undisturbed interlude.undisturbed
  cases answered
  refine ⟨safe, Program.Ensures.bind ?_⟩
  have opened : Begun turn (middle.begin turn) := ⟨Wal.enter_phase_self _, resting.unwritten⟩
  refine Program.Ensures.mono
    (opens _ opened interlude.grows (interlude.spared _ rfl _ rfl)) ?_
  rintro outcome closing ⟨value, rfl, closes⟩
  refine Program.Ensures.ask ?_
  rintro committed after ⟨middle, interlude, safe, answered⟩
  cases answered
  obtain ⟨safe, holds⟩ := closes middle interlude safe
  exact ⟨safe, (), rfl, holds⟩

structure Stage (turn : Turn) (version level : Int) (wal : SharedFile) : Prop where
  resting : wal.Resting turn
  progress : wal.current.Progress version level

variable {version level : Int}

theorem migrateToV1_migrates (stage : Stage turn version level wal) :
    Migrates base turn (fun _ => Stage turn version 1) migrateToV1 wal := by
  have steady : DbFile.Steady .createClipboard ∧ DbFile.Steady .createIdxTs := ⟨trivial, trivial⟩
  refine Fallible.Returns.bind (issue_migrates stage.resting
    (fun _ found => found.sound.run_steady steady.1) fun file found => ⟨(), rfl, ?_⟩)
  intro middle created resting
  have there : middle.current.clipboard.isSome := by
    rw [created]
    rfl
  refine attempt_migrates resting (fun _ found => found.sound.run_steady steady.2) ?_
  intro last foundLast after indexed closed
  have lasts := foundLast.grown.table there
  have grown : wal.current.Grows after.current := by
    rw [indexed]
    refine (found.grown.trans (DbFile.run_grows .createClipboard file)).trans ?_
    rw [← created]
    exact foundLast.grown.trans (DbFile.run_grows .createIdxTs last)
  refine ⟨closed, fun _ => ?_, fun reached => ?_, fun reached => ?_,
    (stage.progress.grows grown).stamped⟩
  · obtain ⟨table, isTable⟩ := Option.isSome_iff_exists.mp lasts
    rw [indexed]
    simp [Ddl.run, DbFile.onTable, isTable]
  · omega
  · omega

theorem migrateToV2_migrates (stage : Stage turn version 1 wal) :
    Migrates base turn (fun _ => Stage turn version 2) migrateToV2 wal := by
  refine Fallible.Returns.bind (hasColumn_migrates stage.resting fun middle grown resting => ?_)
  have progress := stage.progress.grows grown
  by_cases listed : .isPinned ∈ middle.current.columns
  · simp only [listed, decide_true, onlyIf, Bool.true_eq_false]
    refine Fallible.Returns.pure ⟨resting, ?_⟩
    exact progress.raised (by decide) (fun _ => listed)
      (fun reached => absurd reached (by decide))
  · simp only [listed, decide_false, onlyIf]
    have absent : ∀ file, Found (.addColumn .isPinned) middle.current file →
        .isPinned ∉ file.columns := fun _ found => found.spared _ rfl listed
    have there : ∀ file, Found (.addColumn .isPinned) middle.current file →
        file.clipboard.isSome :=
      fun _ found => found.grown.table (progress.first (by decide)).1
    refine issue_migrates resting
      (fun file found => found.sound.pinned (there file found) (absent file found)) ?_
    intro file found
    obtain ⟨works, columns, _⟩ := DbFile.run_addColumn (there file found) (absent file found)
    refine ⟨(), works, fun after added closed => ⟨closed, ?_⟩⟩
    have later := (progress.grows found.grown).grows (DbFile.run_grows (.addColumn .isPinned) file)
    rw [added]
    refine later.raised (by decide) (fun _ => ?_) (fun reached => absurd reached (by decide))
    rw [columns]
    exact List.mem_append_right _ List.mem_cons_self

theorem migrateToV3_migrates (stage : Stage turn version 2 wal) :
    Migrates base turn (fun _ => Stage turn version 3) migrateToV3 wal := by
  have steady : DbFile.Steady .castText := trivial
  refine issue_migrates stage.resting (fun _ found => found.sound.run_steady steady) ?_
  intro file found
  have progress := stage.progress.grows found.grown
  refine ⟨(), DbFile.run_onTable (progress.first (by decide)).1 fun _ _ => ⟨_, rfl⟩, ?_⟩
  intro after cast closed
  have later := progress.grows (DbFile.run_grows .castText file)
  rw [← cast] at later
  exact ⟨closed, later.raised (by decide) (fun _ => later.second (by decide))
    (fun reached => absurd reached (by decide))⟩

theorem reading_closes (stage : Stage turn version 3 wal) {file : DbFile} {closing : SharedFile}
    (reading : Reading turn file closing) (grown : wal.current.Grows file)
    (listed : .isChunked ∈ wal.current.columns) :
    Closes base turn (Stage turn version 4) closing := by
  intro middle interlude safe
  have unwritten := (reading.interlude interlude).unwritten
  have committed : middle.commit turn = middle.enter turn .idle := by
    simp only [Wal.commit, unwritten]
  have grows := grown.trans (reading.interlude interlude).grows
  have progress := stage.progress.grows grows
  rw [committed]
  refine ⟨safe, ⟨Wal.enter_phase_self _, unwritten⟩, ?_⟩
  exact progress.raised (by decide) (fun _ => progress.second (by decide))
    (fun _ => grows.columns.subset listed)

theorem drafting_closes (stage : Stage turn version 3 wal) {file draft : DbFile}
    {closing : SharedFile} (drafting : Drafting turn file draft closing)
    (grown : wal.current.Grows file) (drafted : file.Grows draft)
    (columns : draft.columns = file.columns ++ [.isChunked]) (absent : .isChunked ∉ file.columns)
    (same : draft.userVersion = file.userVersion)
    (stored : draft.chunks.isSome ∧ draft.manifest.isSome) :
    Closes base turn (Stage turn version 4) closing := by
  intro middle interlude safe
  have now := drafting.interlude interlude
  obtain ⟨idle, unwritten, history⟩ := Wal.commit_closed now.draft
  have current : (middle.commit turn).current = draft := (List.cons.inj history).1
  have sound : file.Sound := now.current ▸ safe.1
  have progress := (stage.progress.grows grown).grows drafted
  have pinned : file.columns = [.isPinned] := by
    have second := (stage.progress.grows grown).second (by decide)
    rcases sound.columns_cases with none | one | both
    · rw [none] at second
      cases second
    · exact one
    · rw [both] at absent
      exact absurd (List.mem_cons_of_mem _ List.mem_cons_self) absent
  rw [pinned] at columns
  refine ⟨⟨?_, ?_⟩, ⟨idle, unwritten⟩, ?_⟩
  · rw [current]
    exact sound.chunked drafted columns same stored
  · rw [current]
    exact (now.current ▸ safe.2).trans drafted
  · rw [current]
    refine progress.raised (by decide) (fun _ => progress.second (by decide)) (fun _ => ?_)
    rw [columns]
    exact List.mem_cons_of_mem _ List.mem_cons_self

theorem tables_present (stage : Stage turn version 3 wal) {begun : SharedFile}
    (opened : Begun turn begun) (grown : wal.current.Grows begun.current)
    (listed : .isChunked ∈ wal.current.columns) :
    Migrates base turn (fun _ => Closes base turn (Stage turn version 4))
      (do let _ ← issue "v4 migration failed: " .createChunks
          issue "v4 migration failed: " .createManifest) begun := by
  have stored : ∀ file, begun.current.Grows file → file.Sound →
      file.chunks.isSome ∧ file.manifest.isSome := fun file grows sound =>
    sound.stored ((grown.trans grows).columns.subset listed)
  refine Fallible.Returns.bind (Fallible.Returns.mono (issue_begun opened fun file found => ?_) ?_)
  · have there := (stored file found.grown found.sound).1
    exact ⟨by simp [Ddl.access, there], (), rfl⟩
  · rintro _ reader ⟨file, found, reading⟩
    have there := (stored file found.grown found.sound).2
    refine Fallible.Returns.mono (issue_reading reading (by simp [Ddl.access, there]) rfl) ?_
    intro _ closing still
    exact reading_closes stage still (grown.trans found.grown) listed

theorem tables_created (stage : Stage turn version 3 wal) {altered : SharedFile} {file : DbFile}
    (drafting : Drafting turn file ((Ddl.addColumn .isChunked).run file).2 altered)
    (grown : wal.current.Grows file) (there : file.clipboard.isSome)
    (absent : .isChunked ∉ file.columns) :
    Migrates base turn (fun _ => Closes base turn (Stage turn version 4))
      (do let _ ← issue "v4 migration failed: " .createChunks
          issue "v4 migration failed: " .createManifest) altered := by
  obtain ⟨_, columns, same⟩ := DbFile.run_addColumn there absent
  refine Fallible.Returns.bind (Fallible.Returns.mono (issue_drafting drafting rfl) ?_)
  intro _ chunked drafting
  refine Fallible.Returns.mono (issue_drafting drafting rfl) ?_
  intro _ closing drafting
  refine drafting_closes stage drafting grown ?_ columns absent same ⟨rfl, rfl⟩
  exact ((DbFile.run_grows (.addColumn .isChunked) file).trans
    (DbFile.run_grows .createChunks _)).trans (DbFile.run_grows .createManifest _)

theorem migrateToV4_migrates (stage : Stage turn version 3 wal) :
    Migrates base turn (fun _ => Stage turn version 4) migrateToV4 wal := by
  refine Fallible.Returns.bind (hasColumn_migrates stage.resting fun middle grown resting => ?_)
  have stage : Stage turn version 3 middle := ⟨resting, stage.progress.grows grown⟩
  refine transaction_migrates resting fun begun opened grown spared => ?_
  by_cases listed : .isChunked ∈ middle.current.columns
  · simp only [listed, decide_true, onlyIf, Bool.true_eq_false]
    exact Fallible.Returns.bind (Fallible.Returns.pure (tables_present stage opened grown listed))
  · simp only [listed, decide_false, onlyIf]
    have absent : ∀ file, Found (.addColumn .isChunked) begun.current file →
        .isChunked ∉ file.columns := fun _ found => found.spared _ rfl (spared listed)
    have there : ∀ file, Found (.addColumn .isChunked) begun.current file →
        file.clipboard.isSome := fun _ found =>
      (grown.trans found.grown).table (stage.progress.first (by decide)).1
    refine Fallible.Returns.bind (Fallible.Returns.mono
      (issue_acquires opened (fun _ => rfl) fun file found =>
        (DbFile.run_addColumn (there file found) (absent file found)).1) ?_)
    rintro _ altered ⟨file, found, drafting⟩
    exact tables_created stage drafting (grown.trans found.grown) (there file found)
      (absent file found)

theorem onlyIf_migrates {condition : Prop} [Decidable condition] {action : Migration Unit}
    {post : Unit → SharedFile → Prop}
    (migrates : condition → Migrates base turn post action wal)
    (skips : ¬ condition → post () wal) :
    Migrates base turn post (onlyIf condition action) wal := by
  unfold onlyIf
  split
  · exact migrates ‹condition›
  · exact Fallible.Returns.pure (skips ‹¬ condition›)

theorem level_migrates {next : Int} {action : Migration Unit}
    (stage : Stage turn version (max version (next - 1)) wal)
    (migrates : Stage turn version (next - 1) wal →
      Migrates base turn (fun _ => Stage turn version next) action wal) :
    Migrates base turn (fun _ => Stage turn version (max version next))
      (onlyIf (version < next) action) wal := by
  refine onlyIf_migrates (fun older => ?_) (fun newer => ?_)
  · rw [max_eq_right (by omega)] at stage ⊢
    exact migrates stage
  · rw [max_eq_left (by omega)] at stage ⊢
    exact stage

theorem setUserVersion_migrates (known : version ≤ schemaVersion)
    (stage : Stage turn version (max version 4) wal) :
    Migrates base turn (fun _ => Stage turn schemaVersion 4)
      (onlyIf (version < schemaVersion) (issue "" .setUserVersion)) wal := by
  rw [show max version 4 = 4 from max_eq_right known] at stage
  refine onlyIf_migrates (fun _ => ?_) (fun newer => ?_)
  · refine issue_migrates stage.resting
      (fun _ found => found.sound.stamped (stage.progress.grows found.grown)) ?_
    intro file found
    refine ⟨(), rfl, fun after stamped closed => ⟨closed, ?_⟩⟩
    have progress := (stage.progress.grows found.grown).grows (DbFile.run_grows .setUserVersion file)
    rw [stamped]
    exact { progress with stamped := fun _ => rfl }
  · rw [le_antisymm known (not_lt.mp newer)] at stage
    exact stage

structure Arrived (turn : Turn) (wal : SharedFile) : Prop where
  stage : Stage turn schemaVersion 4 wal
  idxPinned : wal.current.idxPinned = false
  idxPinnedTs : wal.current.idxPinnedTs = true

theorem reindex_migrates (stage : Stage turn schemaVersion 4 wal) :
    Migrates base turn (fun _ => Arrived turn)
      (do attempt .dropIdxPinned; attempt .createIdxPinnedTs) wal := by
  have steady : DbFile.Steady .dropIdxPinned ∧ DbFile.Steady .createIdxPinnedTs :=
    ⟨trivial, trivial⟩
  refine Fallible.Returns.bind
    (attempt_migrates stage.resting (fun _ found => found.sound.run_steady steady.1) ?_)
  intro file found middle dropped resting
  refine attempt_migrates resting (fun _ found => found.sound.run_steady steady.2) ?_
  intro last foundLast after created closed
  have progress := (stage.progress.grows found.grown).grows (DbFile.run_grows .dropIdxPinned file)
  rw [← dropped] at progress
  have lasts := progress.grows foundLast.grown
  have later := lasts.grows (DbFile.run_grows .createIdxPinnedTs last)
  have absent : last.idxPinned = false := by
    refine foundLast.grown.idxPinned ?_
    rw [dropped]
    rfl
  obtain ⟨table, isTable⟩ := Option.isSome_iff_exists.mp (lasts.first (by decide)).1
  have pinned : .isPinned ∈ table.columns := by
    have listed := lasts.second (by decide)
    rw [DbFile.columns, isTable] at listed
    exact listed
  refine ⟨⟨closed, created ▸ later⟩, ?_, ?_⟩
  · rw [created]
    exact (DbFile.run_grows .createIdxPinnedTs last).idxPinned absent
  · rw [created]
    simp [Ddl.run, DbFile.onTable, isTable, pinned]

/-- Whatever another connection adds meanwhile, as long as it spares the columns found missing,
the migrations arrive. -/
theorem initializeSchema_migrates (resting : wal.Resting turn) :
    Migrates base turn (fun _ => Arrived turn) initializeSchema wal := by
  have steady : DbFile.Steady .pragmas ∧ DbFile.Steady .userVersion := ⟨trivial, trivial⟩
  refine Fallible.Returns.bind
    (attempt_migrates resting (fun _ found => found.sound.run_steady steady.1) ?_)
  intro _ _ opened _ resting
  refine Fallible.Returns.bind
    (issue_migrates resting (fun _ found => found.sound.run_steady steady.2) ?_)
  intro file found
  refine ⟨file.userVersion, rfl, fun asked same resting => ?_⟩
  have start : Stage turn file.userVersion (max file.userVersion (1 - 1)) asked := by
    have progress := found.sound.progress
    refine ⟨resting, ?_⟩
    rw [show asked.current = file from same]
    exact ⟨fun reached => progress.first (by omega), fun reached => progress.second (by omega),
      fun reached => progress.fourth (by omega), progress.stamped⟩
  refine Fallible.Returns.bind (Fallible.Returns.mono
    (level_migrates start migrateToV1_migrates) fun _ first stage => ?_)
  refine Fallible.Returns.bind (Fallible.Returns.mono
    (level_migrates stage migrateToV2_migrates) fun _ second stage => ?_)
  refine Fallible.Returns.bind (Fallible.Returns.mono
    (level_migrates stage migrateToV3_migrates) fun _ third stage => ?_)
  refine Fallible.Returns.bind (Fallible.Returns.mono
    (level_migrates stage migrateToV4_migrates) fun _ fourth stage => ?_)
  exact Fallible.Returns.bind (Fallible.Returns.mono
    (setUserVersion_migrates found.sound.known stage) fun _ _ stage => reindex_migrates stage)

end SchemaManager

theorem SchemaCmd.answer_undisturbed {other : Turn} {cmd : SchemaCmd} {answer : cmd.Answer}
    {after : SharedFile} (differs : other ≠ turn)
    (answered : cmd.answer turn wal = some (answer, after)) : Wal.Undisturbed other wal after := by
  cases cmd with
  | begin =>
      cases answered
      exact Wal.Apart.undisturbed (Wal.enter_apart .opened) differs False.elim
  | commit =>
      cases answered
      exact Wal.commit_undisturbed differs
  | rollback =>
      cases answered
      exact Wal.Apart.undisturbed Wal.rollback_apart differs False.elim
  | stmt ddl => exact Wal.statement_undisturbed differs answered

theorem SchemaCmd.answer_ready {cmd : SchemaCmd}
    (free : wal.writer = none ∨ ∃ file, wal.draft turn = some file) :
    (cmd.answer turn wal).isSome := by
  cases cmd with
  | begin | commit | rollback => rfl
  | stmt ddl => exact Wal.statement_free free

end

theorem SchemaManager.Arrived.layout {turn : Turn} {wal : SharedFile} (arrived : Arrived turn wal)
    (sound : wal.current.Sound) : wal.current.layout = .current := by
  have progress := arrived.stage.progress
  obtain ⟨there, idxTs⟩ := progress.first (by decide)
  have listed := progress.fourth (by decide)
  obtain ⟨chunks, manifest⟩ := sound.stored listed
  obtain ⟨table, isTable⟩ := Option.isSome_iff_exists.mp there
  have columns : table.columns = [.isPinned, .isChunked] := by
    have named : wal.current.columns = table.columns := by rw [DbFile.columns, isTable]; rfl
    rw [← named]
    rcases sound.columns_cases with none | one | both
    · rw [none] at listed
      cases listed
    · rw [one] at listed
      cases List.mem_singleton.mp listed
    · exact both
  simp only [DbFile.layout, isTable, Option.map_some, columns, progress.stamped rfl, chunks,
    manifest, idxTs, arrived.idxPinned, arrived.idxPinnedTs, Layout.current]

end Y4p
