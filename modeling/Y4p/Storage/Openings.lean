import Y4p.Storage.Upgrade

/-!
Two processes that open the same file at once, each migrating it statement by statement.
-/

namespace Y4p

open Programs

abbrev Openings : Type := Pair SchemaCmd SchemaCmd.Answer (Except String Unit) SharedFile

-- The daemon's connection is the first, the CLI's the second.
def openings (file : DbFile) : Openings where
  first := SchemaManager.initializeSchema.run
  second := SchemaManager.initializeSchema.run
  state := .fresh file

def Brings (turn : Turn) (column : Column) (wal : SharedFile) : SchemaCmd → Prop
  | .commit => ∃ draft, wal.draft turn = some draft ∧ column ∈ draft.columns
  | .stmt ddl => wal.phase turn = .idle ∧ ddl = .addColumn column
  | _ => False

-- No process commits a column that the other one has found missing and adds next.
def SparesColumns (turn : Turn) (pair : Openings) : Prop :=
  ∀ cmd next awaiting column, pair.mover turn = .call cmd next →
    awaiting ∈ (pair.mover turn.other).next? → awaiting.Awaits column →
    column ∉ pair.state.current.columns → ¬ Brings turn column pair.state cmd

theorem DbFile.addColumn_ok {file : DbFile} {column : Column}
    (works : ((Ddl.addColumn column).run file).1 = .ok ()) :
    file.clipboard.isSome ∧ column ∉ file.columns := by
  simp only [Ddl.run, DbFile.onTable] at works
  split at works
  · cases works
  · rename_i table there
    rw [DbFile.columns, there]
    split at works
    · cases works
    · rename_i changed
      split at changed
      · exact ⟨rfl, ‹column ∉ table.columns›⟩
      · cases changed

theorem DbFile.run_columns {ddl : Ddl} {file : DbFile} {column : Column}
    (listed : column ∈ (ddl.run file).2.columns) :
    column ∈ file.columns ∨ ddl = .addColumn column := by
  by_cases steady : DbFile.Steady ddl
  · rw [(DbFile.run_steady steady file).1] at listed
    exact .inl listed
  · cases ddl with
    | addColumn added =>
        cases outcome : ((Ddl.addColumn added).run file).1 with
        | error message =>
            rw [DbFile.run_fails outcome] at listed
            exact .inl listed
        | ok _ =>
            obtain ⟨there, absent⟩ := DbFile.addColumn_ok outcome
            rw [(DbFile.run_addColumn there absent).2.1, List.mem_append,
              List.mem_singleton] at listed
            rcases listed with old | rfl
            · exact .inl old
            · exact .inr rfl
    | setUserVersion => exact .inl listed
    | _ => exact absurd trivial steady

section
variable {turn : Turn} {wal after : SharedFile}

theorem SchemaCmd.answer_brings {cmd : SchemaCmd} {answer : cmd.Answer} {column : Column}
    (answered : cmd.answer turn wal = some (answer, after))
    (absent : column ∉ wal.current.columns) (listed : column ∈ after.current.columns) :
    Brings turn column wal cmd := by
  cases cmd with
  | begin =>
      cases answered
      exact absurd listed absent
  | rollback =>
      cases answered
      rw [(Wal.history_eq Wal.rollback_closed.2.2).1] at listed
      exact absurd listed absent
  | commit =>
      cases answered
      cases mine : wal.draft turn with
      | none =>
          simp only [Wal.commit, mine] at listed
          exact absurd listed absent
      | some draft =>
          simp only [Wal.commit, mine] at listed
          exact ⟨draft, mine, listed⟩
  | stmt ddl =>
      rcases Wal.statement_current answered with same | ⟨idle, committed⟩
      · rw [same] at listed
        exact absurd listed absent
      · rw [committed] at listed
        exact ⟨idle, (DbFile.run_columns listed).resolve_left absent⟩

theorem SchemaCmd.answer_grows {cmd : SchemaCmd} {answer : cmd.Answer}
    (drafted : wal.Drafted DbFile.Grows)
    (answered : cmd.answer turn wal = some (answer, after)) :
    wal.current.Grows after.current ∧ after.Drafted DbFile.Grows := by
  cases cmd with
  | begin =>
      cases answered
      exact ⟨.refl _, drafted⟩
  | commit =>
      cases answered
      exact Wal.commit_grows DbFile.Grows.refl drafted
  | rollback =>
      cases answered
      exact Wal.rollback_grows DbFile.Grows.refl drafted
  | stmt ddl =>
      exact Wal.statement_grows DbFile.Grows.refl (fun _ _ _ => DbFile.Grows.trans)
        (DbFile.run_grows ddl) drafted answered

end

theorem interlude_of_answer {turn : Turn} {pair : Openings} {cmd : SchemaCmd}
    {next : cmd.Answer → Program SchemaCmd SchemaCmd.Answer (Except String Unit)}
    {answer : cmd.Answer} {after : SharedFile}
    (allowed : SparesColumns turn pair ∧ pair.state.Drafted DbFile.Grows)
    (moves : pair.mover turn = .call cmd next)
    (answered : cmd.answer turn pair.state = some (answer, after)) :
    Interlude turn.other (pair.mover turn.other).next? pair.state after where
  undisturbed := SchemaCmd.answer_undisturbed (Turn.other_ne turn) answered
  grows := (SchemaCmd.answer_grows allowed.2 answered).1
  spared awaiting issued column awaits absent := by
    intro listed
    exact allowed.1 cmd next awaiting column moves issued awaits absent
      (SchemaCmd.answer_brings answered absent listed)

theorem SchemaManager.Arrived.interlude {turn : Turn} {next : Option SchemaCmd}
    {before after : SharedFile} (arrived : Arrived turn before)
    (interlude : Interlude turn next before after) : Arrived turn after where
  stage := ⟨arrived.stage.resting.undisturbed interlude.undisturbed,
    arrived.stage.progress.grows interlude.grows⟩
  idxPinned := interlude.grows.idxPinned arrived.idxPinned
  idxPinnedTs := interlude.grows.idxPinnedTs arrived.idxPinnedTs

/-- Two processes that open one file both succeed and keep its rows, if neither commits a column
that the other has found missing and adds next. -/
theorem openings_succeed (file : DbFile) (started : Started file) (schedule : Nat → Turn)
    (fair : Pair.Fair schedule)
    (spares : ∀ count, SparesColumns (schedule count)
      (Pair.after SchemaCmd.answer schedule (openings file) count)) :
    ∃ count,
      let ended := Pair.after SchemaCmd.answer schedule (openings file) count
      ended.first = .ret (.ok ()) ∧ ended.second = .ret (.ok ()) ∧
        ended.state.current.layout = .current ∧
        List.Forall₂ RowKept file.rows ended.state.current.rows := by
  have resting : ∀ turn, (openings file).state.Resting turn := fun _ => ⟨rfl, rfl⟩
  have assured : Pair.Assured SchemaCmd.answer Interlude (Safe file)
      (fun turn outcome after => ∃ value, outcome = .ok value ∧ SchemaManager.Arrived turn after)
      (openings file) := by
    refine ⟨⟨started.sound, .refl file⟩, fun turn => ⟨_, .refl _ _ _, ?_⟩⟩
    cases turn with
    | first => exact SchemaManager.initializeSchema_migrates (resting .first)
    | second => exact SchemaManager.initializeSchema_migrates (resting .second)
  have drafts : ∀ turn (cmd : SchemaCmd) (wal : SharedFile) answer after,
      wal.Drafted DbFile.Grows → cmd.answer turn wal = some (answer, after) →
      after.Drafted DbFile.Grows :=
    fun _ _ _ _ _ drafted answered => (SchemaCmd.answer_grows drafted answered).2
  have start : (openings file).state.Drafted DbFile.Grows := Wal.Drafted.unlocked rfl
  have drafted := @Pair.after_keeps _ _ _ _ _ _ drafts schedule _ start
  have kept := Pair.after_assured Interlude.refl Interlude.trans
    (fun turn pair cmd next answer after => interlude_of_answer) assured
    (fun count => ⟨spares count, drafted count⟩)
  have returned : ∀ count turn outcome,
      (Pair.after SchemaCmd.answer schedule (openings file) count).mover turn = .ret outcome →
      outcome = .ok () ∧ SchemaManager.Arrived turn
        (Pair.after SchemaCmd.answer schedule (openings file) count).state := by
    intro count turn outcome moves
    obtain ⟨base, relied, ensures⟩ := (kept count).2 turn
    rw [moves] at ensures
    obtain ⟨value, rfl, arrived⟩ := ensures
    exact ⟨rfl, arrived.interlude relied⟩
  have progress : ∀ count, ¬ (Pair.after SchemaCmd.answer schedule (openings file) count).finished →
      ∃ turn, Pair.Ready SchemaCmd.answer
        (Pair.after SchemaCmd.answer schedule (openings file) count) turn :=
    fun count => Pair.ready_of_holder (fun _ _ => SchemaCmd.answer_ready)
      fun turn outcome moves => (returned count turn outcome moves).2.stage.resting.unwritten
  obtain ⟨count, finished⟩ := Pair.finishes fair progress
  have ended : ∀ turn, (Pair.after SchemaCmd.answer schedule (openings file) count).mover turn =
      .ret (.ok ()) := by
    intro turn
    cases moves : (Pair.after SchemaCmd.answer schedule (openings file) count).mover turn with
    | ret outcome => rw [(returned count turn outcome moves).1]
    | call cmd next =>
        have stopped := Pair.finished_iff.mp finished turn
        rw [moves] at stopped
        cases stopped
  obtain ⟨sound, grown⟩ := (kept count).1
  exact ⟨count, ended .first, ended .second,
    (returned count .first _ (ended .first)).2.layout sound, grown.rows⟩

def alternately (count : Nat) : Turn :=
  if count % 2 = 0 then .first else .second

theorem alternately_fair : Pair.Fair alternately := by
  intro turn count
  cases turn with
  | first => exact ⟨2 * count, by omega, by simp [alternately]⟩
  | second => exact ⟨2 * count + 1, by omega, by simp [alternately]⟩

theorem openings_succeed_counterexample :
    Started .empty ∧ Pair.Fair alternately ∧
      (Pair.after SchemaCmd.answer alternately (openings .empty) 12).second =
        .ret (.error "v2 migration failed: duplicate column name: is_pinned") :=
  ⟨.inl rfl, alternately_fair, rfl⟩

def oneAfterTheOther (count : Nat) : Turn :=
  if count < 16 then .first else if count < 32 then .second else alternately count

theorem oneAfterTheOther_fair : Pair.Fair oneAfterTheOther := by
  intro turn count
  obtain ⟨later, beyond, scheduled⟩ := alternately_fair turn (count + 32)
  refine ⟨later, by omega, ?_⟩
  rw [oneAfterTheOther, if_neg (by omega), if_neg (by omega)]
  exact scheduled

theorem openings_succeed_sample :
    ∃ count,
      let ended := Pair.after SchemaCmd.answer oneAfterTheOther (openings .empty) count
      ended.first = .ret (.ok ()) ∧ ended.second = .ret (.ok ()) ∧
        ended.state.current.layout = .current ∧
        List.Forall₂ RowKept DbFile.empty.rows ended.state.current.rows := by
  refine openings_succeed .empty (.inl rfl) _ oneAfterTheOther_fair ?_
  intro count cmd next awaiting column moves issued awaits
  have ended : (Pair.after SchemaCmd.answer oneAfterTheOther (openings .empty) 32).finished :=
    ⟨rfl, rfl⟩
  by_cases beyond : 32 ≤ count
  · obtain ⟨further, rfl⟩ := Nat.exists_eq_add_of_le beyond
    rw [Pair.after_finished ended] at moves
    have stopped := Pair.finished_iff.mp ended (oneAfterTheOther (32 + further))
    rw [moves] at stopped
    cases stopped
  · interval_cases count
    all_goals cases issued
    all_goals cases awaits

end Y4p
