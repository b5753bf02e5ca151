import Mathlib.Tactic.IntervalCases
import Y4p.Lib.Contention
import Y4p.Lib.Wal
import Y4p.Storage.Progress

/-!
The daemon's worker and a CLI process as two connections of one database in WAL mode,
each performing store operations one statement at a time.
-/

namespace Y4p

open Programs

def Stmt.access : Stmt → Access
  | .prepare | .fetchExpiring _ | .fetchChunk _ | .maintenance => .none
  | .selectByHash _ | .selectExpiring .. | .selectForDelete _ | .selectContent _
  | .selectLocation _ | .selectChunks _ => .read
  | _ => .write

def databaseLocked : String := "database is locked"

-- The daemon's connection is the first, the CLI's the second.
abbrev SharedDb : Type := Wal Turn Db

def Cmd.answer (turn : Turn) : (cmd : Cmd) → SharedDb → Option (cmd.Answer × SharedDb)
  | .begin, wal => some (.ok (), wal.begin turn)
  | .commit, wal => some (.ok (), wal.commit turn)
  | .rollback, wal => some (.ok (), wal.rollback turn)
  | .stmt query, wal => wal.statement turn query.access databaseLocked query.run

abbrev Performed : Type := Σ op : StoreOp, op.Result

section
variable (sha3 : Bytes → Bytes)

def perform : List StoreOp → Program Cmd Cmd.Answer (List Performed)
  | [] => pure []
  | op :: rest => do
      let result ← op.program sha3
      let others ← perform rest
      pure (⟨op, result⟩ :: others)

def connected (db : Db) (daemon cli : List StoreOp) :
    Pair Cmd Cmd.Answer (List Performed) SharedDb where
  first := perform sha3 daemon
  second := perform sha3 cli
  state := .fresh db

def Succeeds (history : List Db) : (op : StoreOp) → op.Result → Prop
  | .upsert now tie mime offer hash maxHistory, result =>
      if isSkipped mime offer.body.len then result = .ok .skipped
      else ∃ outcome before after, result = .ok outcome ∧ [after, before] <:+: history ∧
        Upserted sha3 before now tie mime offer.body hash maxHistory outcome after
  | _, _ => True

end

def StoreOp.concurrent : StoreOp → Prop
  | .upsert .. | .updateTimestamp .. | .setPinned .. | .deleteById _ => True
  | _ => False

-- The first write of an upsert, which follows its deduplication lookup.
def Cmd.placesRow : Cmd → Bool
  | .stmt (.updateTimestamp ..) | .stmt (.insertClipboard _) => true
  | _ => false

def Exposed (turn : Turn) (next : Option Cmd) (wal : SharedDb) : Prop :=
  (∃ version, wal.phase turn = .reading version) ∧ next.any Cmd.placesRow = true

def Commits (turn : Turn) (wal : SharedDb) : Cmd → Prop
  | .commit => (wal.draft turn).isSome
  | .stmt query => wal.phase turn = .idle ∧ query.access = .write
  | _ => False

def SparesUpserts (turn : Turn) (pair : Pair Cmd Cmd.Answer (List Performed) SharedDb) : Prop :=
  ∀ cmd next, pair.mover turn = .call cmd next → Commits turn pair.state cmd →
    ¬ Exposed turn.other (pair.mover turn.other).next? pair.state

structure Meanwhile (turn : Turn) (next : Option Cmd) (before after : SharedDb) : Prop where
  phase : after.phase turn = before.phase turn
  draft : after.draft turn = before.draft turn
  grown : before.history <:+ after.history
  kept : (before.draft turn).isSome ∨ Exposed turn next before → after.history = before.history

theorem Meanwhile.refl (turn : Turn) (next : Option Cmd) (wal : SharedDb) :
    Meanwhile turn next wal wal :=
  ⟨rfl, rfl, List.suffix_rfl, fun _ => rfl⟩

theorem Meanwhile.trans (turn : Turn) (next : Option Cmd) (first second third : SharedDb)
    (before : Meanwhile turn next first second) (after : Meanwhile turn next second third) :
    Meanwhile turn next first third where
  phase := after.phase.trans before.phase
  draft := after.draft.trans before.draft
  grown := before.grown.trans after.grown
  kept := by
    intro exposed
    refine (after.kept ?_).trans (before.kept exposed)
    rw [before.draft, Exposed, before.phase]
    exact exposed

theorem Cmd.answer_apart {turn : Turn} {cmd : Cmd} {wal after : SharedDb} {answer : cmd.Answer}
    (answered : cmd.answer turn wal = some (answer, after)) :
    Wal.Apart turn (Commits turn wal cmd) wal after := by
  cases cmd with
  | begin =>
      cases answered
      exact Wal.enter_apart .opened
  | commit =>
      cases answered
      exact Wal.commit_apart
  | rollback =>
      cases answered
      exact Wal.rollback_apart
  | stmt query => exact Wal.statement_apart answered

/-- A connection that holds the lock keeps the others from committing. -/
theorem Commits.unlocked {turn other : Turn} {cmd : Cmd} {wal after : SharedDb}
    {answer : cmd.Answer} (commits : Commits turn wal cmd) (apart : other ≠ turn)
    (answered : cmd.answer turn wal = some (answer, after)) : wal.draft other = none := by
  cases cmd with
  | commit =>
      obtain ⟨data, mine⟩ := Option.isSome_iff_exists.mp commits
      exact Wal.draft_other mine apart
  | stmt query =>
      obtain ⟨idle, writes⟩ := commits
      cases mine : wal.draft turn with
      | some data => exact Wal.draft_other mine apart
      | none =>
          cases locked : wal.writer with
          | none => exact Wal.draft_of_unlocked locked
          | some held =>
              simp [Cmd.answer, Wal.statement, mine, writes, Wal.write, idle, locked] at answered
  | begin => exact commits.elim
  | rollback => exact commits.elim

theorem meanwhile_of_answer {turn : Turn}
    {pair : Pair Cmd Cmd.Answer (List Performed) SharedDb} {cmd : Cmd}
    {next : cmd.Answer → Program Cmd Cmd.Answer (List Performed)} {answer : cmd.Answer}
    {after : SharedDb} (spares : SparesUpserts turn pair)
    (moves : pair.mover turn = .call cmd next)
    (answered : cmd.answer turn pair.state = some (answer, after)) :
    Meanwhile turn.other (pair.mover turn.other).next? pair.state after := by
  have apart := Cmd.answer_apart answered
  have differs := Turn.other_ne turn
  refine ⟨apart.phase _ differs, apart.draft _ differs, ?_, fun held => ?_⟩
  · rcases apart.history with same | ⟨_, data, pushed⟩
    · rw [same]
    · rw [pushed]
      exact List.suffix_cons data _
  · rcases apart.history with same | ⟨commits, _⟩
    · exact same
    · rcases held with locked | exposed
      · rw [commits.unlocked differs answered] at locked
        cases locked
      · exact absurd exposed (spares cmd next moves commits)

abbrev Upholds {α : Type} (turn : Turn) (post : α → SharedDb → Prop)
    (program : Program Cmd Cmd.Answer α) (wal : SharedDb) : Prop :=
  Program.Ensures
    (Pair.Replies Cmd.answer Meanwhile (fun wal => RefsExact wal.current) turn)
    (fun wal => RefsExact wal.current) post program wal

theorem resting_meanwhile {turn : Turn} {next : Option Cmd} {before after : SharedDb}
    (resting : Wal.Resting turn before) (meanwhile : Meanwhile turn next before after) :
    Wal.Resting turn after :=
  ⟨meanwhile.phase.trans resting.idle, meanwhile.draft.trans resting.unwritten⟩

section
variable {turn : Turn} {wal : SharedDb}

/-- Under the lock the statements of a transaction run on its draft. -/
theorem lift_upholds {α : Type} {body : Program Stmt Stmt.Answer α} {db : Db}
    (mine : wal.draft turn = some db) :
    Upholds turn (fun value after => value = (Program.exec Stmt.run body db).1 ∧
        after.draft turn = some (Program.exec Stmt.run body db).2 ∧
        after.history = wal.history)
      (Program.lift Cmd.stmt (fun _ answer => answer) body) wal := by
  induction body generalizing wal db with
  | ret value => exact ⟨rfl, mine, rfl⟩
  | call query next ih =>
      rintro answer after ⟨middle, meanwhile, exact, answered⟩
      have kept := meanwhile.kept (.inl (by rw [mine]; rfl))
      have still : middle.draft turn = some db := meanwhile.draft.trans mine
      change middle.statement turn query.access databaseLocked query.run = _ at answered
      rw [Wal.statement_of_draft still] at answered
      cases answered
      refine ⟨exact, (ih _ (Wal.hold_draft_self _)).mono ?_⟩
      rintro value after ⟨outcome, draft, history⟩
      exact ⟨outcome, draft, history.trans kept⟩

structure LooksUpFirst {α : Type} (body : Program Stmt Stmt.Answer (Except String α))
    (places : Bool) : Prop where
  shape : ∃ query next, body = .call query next ∧ query.access = .read ∧
    (∀ db, (query.run db).2 = db) ∧
    ∀ answer, ∃ write rest, next answer = .call write rest ∧ write.access = .write ∧
      (places = true → (Cmd.stmt write).placesRow = true) ∧
      ∀ failure, rest (.error failure) = .ret (.error failure)

inductive Outcome {α : Type} (body : Program Stmt Stmt.Answer (Except String α)) (places : Bool)
    (history : List Db) : Except String α → Prop
  | committed {before after value} : RefsExact before →
      Program.exec Stmt.run body before = (.ok value, after) → [after, before] <:+: history →
      Outcome body places history (.ok value)
  | failed {before message} : RefsExact before →
      (Program.exec Stmt.run body before).1 = .error message →
      Outcome body places history (.error message)
  | refused : places = false → Outcome body places history (.error databaseLocked)

def closing {α : Type} : Except String α → Program Cmd Cmd.Answer (Except String α)
  | .error message => do
      let _ ← Program.ask Cmd.rollback
      pure (.error message)
  | .ok value => do
      match ← Program.ask Cmd.commit with
      | .error message => do
          let _ ← Program.ask Cmd.rollback
          pure (.error message)
      | .ok _ => pure (.ok value)

theorem rollback_upholds {α : Type} {message : String} :
    Upholds turn (fun result after => Wal.Resting turn after ∧ wal.history <:+ after.history ∧
      result = .error message) (closing (.error message : Except String α)) wal := by
  rintro answer after ⟨middle, meanwhile, exact, answered⟩
  cases answered
  obtain ⟨idle, unwritten, same⟩ := @Wal.rollback_closed _ _ _ middle turn
  refine ⟨?_, ⟨idle, unwritten⟩, ?_, rfl⟩
  · change RefsExact (middle.rollback turn).current
    rw [(Wal.history_eq same).1]
    exact exact
  · rw [same]
    exact meanwhile.grown

theorem commit_upholds {α : Type} {value : α} {changed : Db} (mine : wal.draft turn = some changed)
    (exact : RefsExact changed) :
    Upholds turn (fun result after => Wal.Resting turn after ∧ after.history = changed :: wal.history ∧
      result = .ok value) (closing (.ok value)) wal := by
  rintro answer after ⟨middle, meanwhile, _, answered⟩
  cases answered
  have still : middle.draft turn = some changed := meanwhile.draft.trans mine
  have kept := meanwhile.kept (.inl (by rw [mine]; rfl))
  obtain ⟨idle, unwritten, pushed⟩ := Wal.commit_closed still
  refine ⟨?_, ⟨idle, unwritten⟩, ?_, rfl⟩
  · change RefsExact (middle.commit turn).current
    rw [show (middle.commit turn).current = changed from (List.cons.inj pushed).1]
    exact exact
  · rw [pushed, kept]

theorem history_of_version {before after : SharedDb} (grown : before.history <:+ after.history)
    (same : before.version = after.version) : after.history = before.history := by
  refine (grown.eq_of_length ?_).symm
  simp only [Wal.history, List.length_cons]
  exact congrArg (· + 1) same

/-- From the lookup on: the snapshot is upgraded as it was taken, or is refused. -/
theorem lookup_upholds {α : Type} {body : Tx α} {places : Bool}
    (looks : LooksUpFirst body.run places)
    (keeps : ∀ before value after, RefsExact before →
      Program.exec Stmt.run body.run before = (.ok value, after) → RefsExact after)
    (opened : wal.phase turn = .opened) (unwritten : wal.draft turn = none) :
    Upholds turn (fun result after => Wal.Resting turn after ∧ wal.history <:+ after.history ∧
        Outcome body.run places after.history result)
      (Program.lift Cmd.stmt (fun _ answer => answer) body.run >>= closing) wal := by
  obtain ⟨query, next, isCall, reads, still, writes⟩ := looks.shape
  rw [isCall]
  rintro found looked ⟨middle, meanwhile, exact, answered⟩
  change middle.statement turn query.access databaseLocked query.run = _ at answered
  rw [reads, Wal.statement_read (meanwhile.draft.trans unwritten)
    (meanwhile.phase.trans opened)] at answered
  cases answered
  refine ⟨exact, ?_⟩
  obtain ⟨write, rest, isNext, access, placed, stops⟩ := writes (query.run middle.current).1
  change Upholds turn _ (Program.bind (Program.lift Cmd.stmt (fun _ answer => answer)
    (next (query.run middle.current).1)) closing) _
  rw [isNext]
  rintro answer wrote ⟨later, waited, exactLater, upgraded⟩
  change later.statement turn write.access databaseLocked write.run = _ at upgraded
  rw [access] at upgraded
  have reading : later.phase turn = .reading middle.version :=
    waited.phase.trans (Wal.enter_phase_self _)
  have undrafted : later.draft turn = none :=
    waited.draft.trans (meanwhile.draft.trans unwritten)
  have grown : wal.history <:+ later.history := meanwhile.grown.trans waited.grown
  rcases Wal.statement_upgrade undrafted reading upgraded
    with ⟨stale, rfl, rfl⟩ | ⟨fresh, rfl, rfl⟩
  · refine ⟨exactLater, ?_⟩
    change Upholds turn _ (Program.bind (Program.lift Cmd.stmt (fun _ answer => answer)
      (rest (.error databaseLocked))) closing) _
    rw [stops]
    refine rollback_upholds.mono ?_
    rintro result after ⟨resting, extended, rfl⟩
    refine ⟨resting, grown.trans extended, .refused ?_⟩
    cases places with
    | false => rfl
    | true =>
        have kept := waited.kept (.inr ⟨⟨_, Wal.enter_phase_self _⟩, placed rfl⟩)
        exact absurd (Wal.history_eq kept).2.symm stale
  · refine ⟨exactLater, ?_⟩
    have same : later.history = middle.history := history_of_version waited.grown fresh
    have current : later.current = middle.current := (Wal.history_eq same).1
    have ran : Program.exec Stmt.run (.call query next) middle.current =
        Program.exec Stmt.run (rest (write.run later.current).1) (write.run later.current).2 := by
      rw [Program.exec_call, still, isNext, Program.exec_call, current]
    have acquired : (later.acquire turn write.run).2.draft turn =
        some (write.run later.current).2 := @Wal.hold_draft_self _ _ _ later _ _
    rw [isCall] at keeps
    apply Program.Ensures.bind
    refine (lift_upholds acquired).mono ?_
    rintro value after ⟨rfl, draft, history⟩
    rw [← ran] at draft ⊢
    cases outcome : Program.exec Stmt.run (.call query next) middle.current with
    | mk ended changed =>
        rw [outcome] at draft
        cases ended with
        | error message =>
            refine rollback_upholds.mono ?_
            rintro result last ⟨resting, extended, rfl⟩
            refine ⟨resting, grown.trans ?_, .failed exact (by rw [outcome])⟩
            rw [show later.history = after.history from history.symm]
            exact extended
        | ok value =>
            refine (commit_upholds draft (keeps _ _ _ exact outcome)).mono ?_
            rintro result last ⟨resting, pushed, rfl⟩
            have shape : last.history = changed :: middle.current :: middle.earlier := by
              rw [pushed, history]
              exact congrArg _ same
            refine ⟨resting, ?_, .committed exact outcome ?_⟩
            · rw [pushed, history]
              exact grown.trans (List.suffix_cons _ _)
            · rw [shape]
              exact ⟨[], middle.earlier, rfl⟩

theorem transaction_upholds {α : Type} {body : Tx α} {places : Bool}
    (looks : LooksUpFirst body.run places)
    (keeps : ∀ before value after, RefsExact before →
      Program.exec Stmt.run body.run before = (.ok value, after) → RefsExact after)
    (resting : Wal.Resting turn wal) :
    Upholds turn (fun result after => Wal.Resting turn after ∧ wal.history <:+ after.history ∧
      Outcome body.run places after.history result) (transaction body).run wal := by
  rintro answer begun ⟨middle, meanwhile, exact, answered⟩
  cases answered
  refine ⟨exact, ?_⟩
  refine (lookup_upholds looks keeps (Wal.enter_phase_self _)
    (meanwhile.draft.trans resting.unwritten)).mono ?_
  rintro result after ⟨resting, extended, outcome⟩
  exact ⟨resting, meanwhile.grown.trans extended, outcome⟩

/-- A single statement outside a transaction commits by itself or fails. -/
theorem autocommit_upholds (stmt : Stmt) {α : Type} (read : stmt.Result → α)
    (write : stmt.access = .write) (keeps : ∀ db, RefsExact db → RefsExact (stmt.run db).2)
    (resting : Wal.Resting turn wal) :
    Upholds turn (fun _ after => Wal.Resting turn after ∧ wal.history <:+ after.history)
      (autocommit stmt >>= fun found => pure (read found) : Query α).run wal := by
  rintro answer after ⟨middle, meanwhile, exact, answered⟩
  have still := resting_meanwhile resting meanwhile
  change middle.statement turn stmt.access databaseLocked stmt.run = _ at answered
  rw [write] at answered
  have ran := Wal.statement_autocommit still.unwritten still.idle answered
  unfold Wal.autocommit at ran
  split at ran
  · rename_i result changed executed
    cases ran
    have kept := keeps _ exact
    rw [executed] at kept
    exact ⟨kept, ⟨still.idle, still.unwritten⟩, meanwhile.grown.trans (List.suffix_cons _ _)⟩
  · cases ran
    exact ⟨exact, still, meanwhile.grown⟩

end

section
variable (sha3 : Bytes → Bytes)

theorem upsertTx_looksUp (now : Int) (tie : TieOrder) (mime : Str) (body : Body) (hash : Str)
    (maxHistory : UInt64) :
    LooksUpFirst (upsertTx sha3 now tie tie mime body hash maxHistory).run true := by
  refine ⟨.selectByHash hash, _, rfl, rfl, ?_, ?_⟩
  · intro db
    simp only [Stmt.run]
    split <;> rfl
  · rintro (message | id)
    · exact ⟨_, _, rfl, rfl, fun _ => rfl, fun _ => rfl⟩
    · exact ⟨_, _, rfl, rfl, fun _ => rfl, fun _ => rfl⟩

theorem deleteTx_looksUp (id : Int) : LooksUpFirst (deleteTx id).run false := by
  refine ⟨.selectForDelete id, _, rfl, rfl, ?_, ?_⟩
  · intro db
    simp only [Stmt.run]
    split <;> rfl
  · have never {conclusion : Prop} (raised : false = true) : conclusion :=
      absurd raised Bool.false_ne_true
    rintro (message | ⟨hash, _ | _⟩)
    · exact ⟨_, _, rfl, rfl, never, fun _ => rfl⟩
    · exact ⟨_, _, rfl, rfl, never, fun _ => rfl⟩
    · exact ⟨_, _, rfl, rfl, never, fun _ => rfl⟩

variable {sha3} {turn : Turn} {wal : SharedDb}

theorem upserted_exact {db after : Db} {now : Int} {tie : TieOrder} {mime hash : Str} {body : Body}
    {maxHistory : UInt64} {outcome : UpsertOutcome} (refs : RefsExact db)
    (upserted : Upserted sha3 db now tie mime body hash maxHistory outcome after) :
    RefsExact after := by
  obtain ⟨placed, places, _, _, rfl⟩ := upserted
  exact (refs.places places).rotated tie maxHistory

theorem upsert_upholds {now : Int} {tie : TieOrder} {mime hash : Str} {body : Body}
    {maxHistory : UInt64} (resting : Wal.Resting turn wal) :
    Upholds turn (fun result after => Wal.Resting turn after ∧ wal.history <:+ after.history ∧
        ∃ outcome before changed, result = .ok outcome ∧ [changed, before] <:+: after.history ∧
          Upserted sha3 before now tie mime body hash maxHistory outcome changed)
      (upsert sha3 now tie tie mime body hash maxHistory).run wal := by
  have keeps : ∀ before value after, RefsExact before →
      Program.exec Stmt.run (upsertTx sha3 now tie tie mime body hash maxHistory).run before =
        (.ok value, after) → RefsExact after :=
    fun before value after refs ran => upserted_exact refs (calm_upsertTx ran)
  refine (transaction_upholds (upsertTx_looksUp sha3 now tie mime body hash maxHistory) keeps
    resting).mono ?_
  rintro result after ⟨resting, grown, outcome⟩
  refine ⟨resting, grown, ?_⟩
  cases outcome with
  | committed refs ran adjacent => exact ⟨_, _, _, rfl, adjacent, calm_upsertTx ran⟩
  | @failed before message refs ran =>
      obtain ⟨outcome, changed, calm⟩ := @upsertTx_total sha3 now tie mime hash body maxHistory
        before refs
      rw [show Program.exec Stmt.run _ before = _ from calm] at ran
      cases ran
  | refused never => cases never

theorem StoreOp.upholds {op : StoreOp} (concurrent : op.concurrent) (resting : Wal.Resting turn wal) :
    Upholds turn (fun result after => Wal.Resting turn after ∧ wal.history <:+ after.history ∧
      Succeeds sha3 after.history op result) (op.program sha3) wal := by
  cases op with
  | upsert now tie mime offer hash maxHistory =>
      have attempted : Upholds turn (fun result after => Wal.Resting turn after ∧
          wal.history <:+ after.history ∧
          Succeeds sha3 after.history (.upsert now tie mime offer hash maxHistory) result)
          (if isSkipped mime offer.body.len then pure .skipped
            else Y4p.upsert sha3 now tie tie mime offer.body hash maxHistory :
            Query UpsertOutcome).run wal := by
        simp only [Succeeds]
        split
        · exact ⟨resting, List.suffix_rfl, rfl⟩
        · exact upsert_upholds resting
      cases offer with
      | record data => exact attempted
      | detached len => exact attempted
  | updateTimestamp now id =>
      refine (autocommit_upholds (.updateTimestamp now id) (fun _ => ()) rfl
        (fun _ refs => refs.touch now id) resting).mono ?_
      rintro result after ⟨resting, grown⟩
      exact ⟨resting, grown, trivial⟩
  | setPinned id isPinned =>
      refine (autocommit_upholds (.setPinned isPinned id)
        (fun affected : Nat => decide (0 < affected)) rfl
        (fun _ refs => refs.pin isPinned id) resting).mono ?_
      rintro result after ⟨resting, grown⟩
      exact ⟨resting, grown, trivial⟩
  | deleteById id =>
      have keeps : ∀ before value after, RefsExact before →
          Program.exec Stmt.run (deleteTx id).run before = (.ok value, after) →
          RefsExact after := by
        intro before value after refs ran
        rw [(calm_deleteTx.mp ran).2]
        exact refs.dropped id
      refine (transaction_upholds (deleteTx_looksUp id) keeps resting).mono ?_
      rintro result after ⟨resting, grown, _⟩
      exact ⟨resting, grown, trivial⟩
  | wipe | getRowContent id | getRowLocation id => exact concurrent.elim

theorem Succeeds.mono {earlier later : List Db} (grown : earlier <:+ later) {op : StoreOp}
    {result : op.Result} (succeeds : Succeeds sha3 earlier op result) :
    Succeeds sha3 later op result := by
  cases op with
  | upsert now tie mime offer hash maxHistory =>
      simp only [Succeeds] at succeeds ⊢
      split
      · rename_i skipped
        rw [if_pos skipped] at succeeds
        exact succeeds
      · rename_i kept
        rw [if_neg kept] at succeeds
        obtain ⟨outcome, before, after, same, adjacent, upserted⟩ := succeeds
        exact ⟨outcome, before, after, same, adjacent.trans grown.isInfix, upserted⟩
  | _ => trivial

theorem perform_upholds {ops : List StoreOp} (concurrent : ∀ op ∈ ops, op.concurrent)
    (resting : Wal.Resting turn wal) :
    Upholds turn (fun done after => Wal.Resting turn after ∧ wal.history <:+ after.history ∧
      done.map Sigma.fst = ops ∧
      ∀ entry ∈ done, Succeeds sha3 after.history entry.1 entry.2) (perform sha3 ops) wal := by
  induction ops generalizing wal with
  | nil => exact ⟨resting, List.suffix_rfl, rfl, List.forall_mem_nil _⟩
  | cons op rest ih =>
      apply Program.Ensures.bind
      refine (@StoreOp.upholds sha3 _ _ _ (concurrent op List.mem_cons_self) resting).mono ?_
      rintro result middle ⟨resting, grown, succeeds⟩
      apply Program.Ensures.bind
      refine (ih (fun other member => concurrent other (List.mem_cons_of_mem _ member))
        resting).mono ?_
      rintro others after ⟨resting, extended, same, each⟩
      refine ⟨resting, grown.trans extended, congrArg _ same, ?_⟩
      exact List.forall_mem_cons.mpr ⟨succeeds.mono extended, each⟩

abbrev Connections : Type := Pair Cmd Cmd.Answer (List Performed) SharedDb

def Finishes (sha3 : Bytes → Bytes) (ops : List StoreOp) (turn : Turn) (done : List Performed)
    (wal : SharedDb) : Prop :=
  Wal.Resting turn wal ∧ done.map Sigma.fst = ops ∧
    ∀ entry ∈ done, Succeeds sha3 wal.history entry.1 entry.2

theorem Cmd.answer_ready {cmd : Cmd} (free : wal.writer = none ∨ ∃ db, wal.draft turn = some db) :
    (cmd.answer turn wal).isSome := by
  cases cmd with
  | begin | commit | rollback => rfl
  | stmt query => exact Wal.statement_free free

theorem connections_ready {pair : Connections} {post : Turn → List Performed → SharedDb → Prop}
    (assured : Pair.Assured Cmd.answer Meanwhile (fun wal => RefsExact wal.current) post pair)
    (closes : ∀ turn done wal, post turn done wal → Wal.Resting turn wal)
    (unfinished : ¬ pair.finished) : ∃ turn, Pair.Ready Cmd.answer pair turn := by
  refine Pair.ready_of_holder (fun turn cmd => Cmd.answer_ready) (fun turn done moves => ?_)
    unfinished
  obtain ⟨base, relied, ensures⟩ := assured.2 turn
  rw [moves] at ensures
  exact relied.draft.trans (closes _ _ _ ensures).unwritten

end

def opsOf (daemon cli : List StoreOp) : Turn → List StoreOp
  | .first => daemon
  | .second => cli

/-- When no connection commits between the lookup and the first write of an upsert on the other
one, both finish under every fair schedule, and every upsert has inserted or touched its row. -/
theorem upserts_succeed (sha3 : Bytes → Bytes) (past : List Attempt) (daemon cli : List StoreOp)
    (concurrent : ∀ op ∈ daemon ++ cli, op.concurrent) (schedule : Nat → Turn)
    (fair : Pair.Fair schedule)
    (spares : ∀ count, SparesUpserts (schedule count) (Pair.after Cmd.answer schedule
      (connected sha3 (runStore sha3 past Db.empty) daemon cli) count)) :
    ∃ count first second,
      let ended := Pair.after Cmd.answer schedule
        (connected sha3 (runStore sha3 past Db.empty) daemon cli) count
      ended.first = .ret first ∧ ended.second = .ret second ∧
        first.map Sigma.fst = daemon ∧ second.map Sigma.fst = cli ∧
        ∀ entry ∈ first ++ second, Succeeds sha3 ended.state.history entry.1 entry.2 := by
  let ops := opsOf daemon cli
  let start := connected sha3 (runStore sha3 past Db.empty) daemon cli
  have empty : ChunksAgree sha3 Set.univ Db.empty := ⟨.empty, fun _ => [], .empty⟩
  have exact : RefsExact (runStore sha3 past Db.empty) :=
    (runStore_agree empty fun _ _ _ _ => trivial).1
  have resting : ∀ turn, Wal.Resting turn start.state := fun _ => ⟨rfl, rfl⟩
  have assured : Pair.Assured Cmd.answer Meanwhile (fun wal => RefsExact wal.current)
      (fun turn => Finishes sha3 (ops turn) turn) start := by
    refine ⟨exact, fun turn => ⟨start.state, .refl _ _ _, ?_⟩⟩
    have upholds : ∀ turn, Upholds turn (Finishes sha3 (ops turn) turn)
        (perform sha3 (ops turn)) start.state := by
      intro turn
      have each : ∀ op ∈ ops turn, op.concurrent := by
        intro op member
        refine concurrent op (List.mem_append.mpr ?_)
        cases turn with
        | first => exact .inl member
        | second => exact .inr member
      refine (perform_upholds each (resting turn)).mono ?_
      rintro done after ⟨ended, _, same, succeed⟩
      exact ⟨ended, same, succeed⟩
    cases turn with
    | first => exact upholds .first
    | second => exact upholds .second
  have kept := Pair.after_assured Meanwhile.refl Meanwhile.trans
    (fun turn pair cmd next answer after => meanwhile_of_answer) assured spares
  obtain ⟨count, finished⟩ := Pair.finishes fair fun count unfinished =>
    connections_ready (kept count) (fun _ _ _ finishes => finishes.1) unfinished
  have results : ∀ turn, ∃ done,
      (Pair.after Cmd.answer schedule start count).mover turn = .ret done ∧
        done.map Sigma.fst = ops turn ∧ ∀ entry ∈ done,
          Succeeds sha3 (Pair.after Cmd.answer schedule start count).state.history entry.1
            entry.2 := by
    intro turn
    obtain ⟨base, relied, ensures⟩ := (kept count).2 turn
    cases moves : (Pair.after Cmd.answer schedule start count).mover turn with
    | ret done =>
        rw [moves] at ensures
        obtain ⟨_, same, succeed⟩ := ensures
        exact ⟨done, rfl, same, fun entry member => (succeed entry member).mono relied.grown⟩
    | call cmd next =>
        have ended := Pair.finished_iff.mp finished turn
        rw [moves] at ended
        cases ended
  obtain ⟨first, firstEnded, firstOps, firstSucceed⟩ := results .first
  obtain ⟨second, secondEnded, secondOps, secondSucceed⟩ := results .second
  refine ⟨count, first, second, firstEnded, secondEnded, firstOps, secondOps, ?_⟩
  intro entry member
  rcases List.mem_append.mp member with early | late
  · exact firstSucceed entry early
  · exact secondSucceed entry late

def sampleCopy : StoreOp :=
  .upsert 1000 .byRowid "text/plain".toList (.record ⟨sampleText, sampleText_fits⟩)
    (toHex (sampleSha3 sampleText)) 256

def sampleConnections : Connections :=
  connected sampleSha3 (runStore sampleSha3 [⟨sampleCopy, .none⟩] Db.empty) [sampleCopy]
    [.updateTimestamp 2000 1]

def touchBetween (count : Nat) : Turn :=
  if count % 3 = 2 then .second else .first

theorem touchBetween_fair : Pair.Fair touchBetween := by
  intro turn count
  cases turn with
  | first => exact ⟨3 * count, by omega, by simp [touchBetween]⟩
  | second => exact ⟨3 * count + 2, by omega, by simp [touchBetween]⟩

theorem upserts_succeed_counterexample :
    Pair.Fair touchBetween ∧
      (Pair.after Cmd.answer touchBetween sampleConnections 5).finished ∧
      (Pair.after Cmd.answer touchBetween sampleConnections 5).first =
        .ret [⟨sampleCopy, .error databaseLocked⟩] :=
  ⟨touchBetween_fair, ⟨rfl, rfl⟩, rfl⟩

def touchAfter (count : Nat) : Turn :=
  if count % 8 = 7 then .second else .first

theorem touchAfter_fair : Pair.Fair touchAfter := by
  intro turn count
  cases turn with
  | first => exact ⟨8 * count, by omega, by simp [touchAfter]⟩
  | second => exact ⟨8 * count + 7, by omega, by simp [touchAfter]⟩

theorem upserts_succeed_sample :
    ∃ count first second,
      let ended := Pair.after Cmd.answer touchAfter sampleConnections count
      ended.first = .ret first ∧ ended.second = .ret second ∧
        first.map Sigma.fst = [sampleCopy] ∧
        second.map Sigma.fst = [.updateTimestamp 2000 1] ∧
        ∀ entry ∈ first ++ second,
          Succeeds sampleSha3 ended.state.history entry.1 entry.2 := by
  refine upserts_succeed sampleSha3 _ _ _ ?_ _ touchAfter_fair ?_
  · simp only [List.singleton_append, List.forall_mem_cons]
    exact ⟨trivial, trivial, List.forall_mem_nil _⟩
  · intro count
    change SparesUpserts (touchAfter count) (Pair.after Cmd.answer touchAfter sampleConnections count)
    have ended : (Pair.after Cmd.answer touchAfter sampleConnections 8).finished := ⟨rfl, rfl⟩
    by_cases beyond : 8 ≤ count
    · obtain ⟨further, rfl⟩ := Nat.exists_eq_add_of_le beyond
      rw [Pair.after_finished ended]
      intro cmd next moves
      have stopped := Pair.finished_iff.mp ended (touchAfter (8 + further))
      rw [moves] at stopped
      cases stopped
    · rintro cmd next moves commits ⟨⟨version, reading⟩, _⟩
      interval_cases count
      all_goals cases reading

end Y4p
