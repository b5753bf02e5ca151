import Y4p.Storage.Db

/-!
What a transaction amounts to: all of its body, run on the committed tables, or
nothing. A body whose swallowed reads do not fail is either stopped by a failure
or runs as if nothing could fail.
-/

namespace Y4p

open Programs

structure Draft where
  db : Db
  issued : Nat

def Stmt.step (faults : Faults) (stmt : Stmt) (draft : Draft) : stmt.Answer × Draft :=
  match faults draft.issued (.stmt stmt) with
  | none => ((stmt.run draft.db).1, { db := (stmt.run draft.db).2, issued := draft.issued + 1 })
  | some message => (.error message, { draft with issued := draft.issued + 1 })

def Draft.inside (committed : Db) (draft : Draft) : Session where
  conn := Conn.inside committed draft.db
  issued := draft.issued

theorem step_inside (faults : Faults) (committed : Db) (stmt : Stmt) (draft : Draft) :
    (Cmd.step faults (.stmt stmt) (draft.inside committed)).1 = (stmt.step faults draft).1 ∧
      (Cmd.step faults (.stmt stmt) (draft.inside committed)).2 =
        (stmt.step faults draft).2.inside committed := by
  simp only [Cmd.step, Faults.hit, Stmt.step, Draft.inside]
  cases faults draft.issued (.stmt stmt) with
  | none => exact ⟨rfl, rfl⟩
  | some message => exact ⟨rfl, rfl⟩

theorem lift_exec (faults : Faults) {α : Type} (body : Tx α) (committed : Db) (draft : Draft) :
    Program.exec (Cmd.step faults) (Program.lift Cmd.stmt (fun _ answer => answer) body.run)
        (draft.inside committed) =
      ((Program.exec (Stmt.step faults) body.run draft).1,
        (Program.exec (Stmt.step faults) body.run draft).2.inside committed) :=
  Program.exec_lift (Draft.inside committed) (step_inside faults committed) body.run draft

theorem lift_calls (faults : Faults) {α : Type} (body : Tx α) (committed : Db) (draft : Draft) :
    Program.calls (Cmd.step faults) (Program.lift Cmd.stmt (fun _ answer => answer) body.run)
        (draft.inside committed) =
      (Program.calls (Stmt.step faults) body.run draft).map Cmd.stmt :=
  Program.calls_lift (Draft.inside committed) (step_inside faults committed) body.run draft

theorem transaction_exec (faults : Faults) {α : Type} (body : Tx α) (db : Db) (issued : Nat) :
    Program.exec (Cmd.step faults) (transaction body).run (Session.at db issued) =
      match faults issued .begin with
      | some message => (.error message, Session.at db (issued + 1))
      | none =>
          match Program.exec (Stmt.step faults) body.run ⟨db, issued + 1⟩ with
          | (.error message, draft) => (.error message, Session.at db (draft.issued + 1))
          | (.ok value, draft) =>
              match faults draft.issued .commit with
              | some message => (.error message, Session.at db (draft.issued + 2))
              | none => (.ok value, Session.at draft.db (draft.issued + 1)) := by
  have opened : (Cmd.step faults .begin (Session.at db issued)) =
      match faults issued .begin with
      | some message => (.error message, Session.at db (issued + 1))
      | none => (.ok (), Draft.inside db ⟨db, issued + 1⟩) := by
    simp only [Cmd.step, Faults.hit, Session.at]
    cases faults issued .begin with
    | none => rfl
    | some message => rfl
  have closed : ∀ draft : Draft, Cmd.step faults .commit (draft.inside db) =
      match faults draft.issued .commit with
      | some message => (.error message, Draft.inside db { draft with issued := draft.issued + 1 })
      | none => (.ok (), Session.at draft.db (draft.issued + 1)) := by
    intro draft
    simp only [Cmd.step, Faults.hit, Draft.inside]
    cases faults draft.issued .commit with
    | none => rfl
    | some message => rfl
  have undone : ∀ draft : Draft, Cmd.step faults .rollback (draft.inside db) =
      (.ok (), Session.at db (draft.issued + 1)) := fun _ => rfl
  simp only [transaction, ExceptT.run_mk, Program.exec_bind, Program.exec_ask, opened]
  cases faults issued .begin with
  | some message => rfl
  | none =>
      simp only [Program.exec_bind, lift_exec]
      rcases Program.exec (Stmt.step faults) body.run ⟨db, issued + 1⟩ with ⟨outcome, draft⟩
      cases outcome with
      | error message =>
          simp only [Program.exec_bind, Program.exec_ask, Program.exec_pure, undone]
      | ok value =>
          simp only [Program.exec_bind, Program.exec_ask, closed]
          cases faults draft.issued .commit with
          | some message =>
              simp only [Program.exec_bind, Program.exec_ask, Program.exec_pure, undone]
          | none => rfl

abbrev Calm {α : Type} (body : Tx α) (db : Db) (value : α) (after : Db) : Prop :=
  Fallible.Runs Stmt.run body db value after

theorem calm_iff {α : Type} {body : Tx α} {db after ended : Db} {value result : α}
    (runs : Calm body db value after) :
    Calm body db result ended ↔ result = value ∧ ended = after := by
  constructor
  · intro ran
    exact Fallible.Runs.unique Stmt.run ran runs
  · rintro ⟨rfl, rfl⟩
    exact runs

theorem calm_execute {stmt : Stmt} {db after : Db} {result : stmt.Result} :
    Calm (execute stmt) db result after ↔ stmt.run db = (.ok result, after) := Iff.rfl

theorem calm_attempt {stmt : Stmt} {db after : Db} {found : Option stmt.Result} :
    Calm (attempt stmt) db found after ↔
      (stmt.run db).1.toOption = found ∧ (stmt.run db).2 = after := by
  change ((Except.ok (stmt.run db).1.toOption, (stmt.run db).2) = _) ↔ _
  simp

def Swallowed (stmt : Stmt) : Prop :=
  stmt.isRead = true

theorem execute_strict (stmt : Stmt) : Fallible.Strict Swallowed (execute stmt).run :=
  ⟨fun _ _ => trivial, fun _ => trivial⟩

theorem attempt_strict {stmt : Stmt} (read : Swallowed stmt) :
    Fallible.Strict Swallowed (attempt stmt).run :=
  ⟨fun loud => absurd read loud, fun _ => trivial⟩

theorem pure_strict {α : Type} (value : α) :
    Fallible.Strict Swallowed (pure value : Tx α).run := trivial

structure Loud {α : Type} (body : Tx α) : Prop where
  strict : Fallible.Strict Swallowed body.run
  issues : Program.Issues (fun stmt => ¬ Swallowed stmt) body.run

theorem Loud.bind {α β : Type} {body : Tx α} {rest : α → Tx β} (first : Loud body)
    (second : ∀ value, Loud (rest value)) : Loud (body >>= rest) where
  strict := Fallible.Strict.bind first.strict fun value => (second value).strict
  issues := Fallible.issues_bind first.issues fun value => (second value).issues

theorem pure_loud {α : Type} (value : α) : Loud (pure value : Tx α) :=
  ⟨trivial, trivial⟩

theorem execute_loud {stmt : Stmt} (write : stmt.isRead = false) : Loud (execute stmt) :=
  ⟨execute_strict stmt, by simp [Swallowed, write], fun _ => trivial⟩

theorem onlyIf_loud {condition : Prop} [Decidable condition] {action : Tx Unit}
    (loud : Loud action) : Loud (onlyIf condition action) := by
  unfold onlyIf
  split
  · exact loud
  · exact pure_loud ()

theorem calm_onlyIf {condition : Prop} [Decidable condition] {action : Tx Unit} {db after : Db} :
    Calm (onlyIf condition action) db () after ↔
      (condition ∧ Calm action db () after) ∨ (¬ condition ∧ after = db) := by
  unfold onlyIf
  split
  · rename_i holds
    simp [holds]
  · rename_i fails
    simp only [fails, false_and, not_false_eq_true, true_and, false_or]
    change ((Except.ok (), db) = (Except.ok (), after)) ↔ _
    simp [eq_comm]

/-- Under faults that spare the swallowed reads, a transaction either leaves the tables
alone and reports an error, or does what its body does when nothing fails. -/
theorem transaction_outcome {α : Type} {body : Tx α} (strict : Fallible.Strict Swallowed body.run)
    (faults : WriteFaults) (db : Db) (issued : Nat) :
    (∃ message count,
      Program.exec (Cmd.step faults.hits) (transaction body).run (Session.at db issued) =
        (.error message, Session.at db count)) ∨
    (∃ value after count, Calm body db value after ∧
      Program.exec (Cmd.step faults.hits) (transaction body).run (Session.at db issued) =
        (.ok value, Session.at after count)) := by
  rw [transaction_exec]
  cases faults.hits issued .begin with
  | some message => exact .inl ⟨message, _, rfl⟩
  | none =>
      rcases ran : Program.exec (Stmt.step faults.hits) body.run ⟨db, issued + 1⟩
        with ⟨outcome, draft⟩
      cases outcome with
      | error message => exact .inl ⟨message, _, rfl⟩
      | ok value =>
          cases closing : faults.hits draft.issued .commit with
          | some message => exact .inl ⟨message, draft.issued + 2, by simp only [closing]⟩
          | none =>
              have agree : ∀ (stmt : Stmt) (draft : Draft),
                  ((stmt.step faults.hits draft).1,
                      (stmt.step faults.hits draft).2.db) = stmt.run draft.db ∨
                    (¬ Swallowed stmt ∧
                      ∃ message, (stmt.step faults.hits draft).1 = .error message) := by
                intro stmt draft
                cases hit : faults.hits draft.issued (.stmt stmt) with
                | none => exact .inl (by simp only [Stmt.step, hit])
                | some message =>
                    refine .inr ⟨?_, message, by simp only [Stmt.step, hit]⟩
                    intro read
                    change stmt.isRead = true at read
                    simp [faults.spares draft.issued (.stmt stmt) read] at hit
              have ended : (Program.exec (Stmt.step faults.hits) body.run ⟨db, issued + 1⟩).1 =
                  .ok value := by rw [ran]
              have calm := strict.exec_eq_calm Draft.db agree ended
              rw [ran] at calm
              exact .inr ⟨value, draft.db, draft.issued + 1, calm, by simp only [closing]⟩

section
variable (sha3 : Bytes → Bytes)

theorem storeChunksFrom_loud (id : Int) (seq : Nat) (pieces : List Bytes) :
    Loud (storeChunksFrom sha3 id seq pieces) := by
  induction pieces generalizing seq with
  | nil => exact pure_loud ()
  | cons piece rest ih =>
      refine Loud.bind ?_ fun _ => ih (seq + 1)
      refine Loud.bind (execute_loud rfl) fun _ => ?_
      exact Loud.bind (onlyIf_loud (execute_loud rfl)) fun _ => execute_loud rfl

theorem storeChunks_loud (id : Int) (data : Bytes) : Loud (storeChunks sha3 id data) :=
  Loud.bind (execute_loud rfl) fun _ =>
    Loud.bind (execute_loud rfl) fun _ =>
      Loud.bind (execute_loud rfl) fun _ => storeChunksFrom_loud sha3 id 0 _

theorem insertRow_loud (now : Int) (mime : Str) (body : Body) (hash : Str) :
    Loud (insertRow sha3 now mime body hash) := by
  refine Loud.bind (execute_loud rfl) fun id => ?_
  split
  · exact Loud.bind (storeChunks_loud sha3 id _) fun _ => pure_loud id
  · exact pure_loud id

theorem touchOrInsert_strict (now : Int) (mime : Str) (body : Body) (hash : Str) :
    Fallible.Strict Swallowed (touchOrInsert sha3 now mime body hash).run := by
  refine Fallible.Strict.bind (attempt_strict rfl) fun found => ?_
  cases found with
  | some id => exact Fallible.Strict.bind (execute_strict _) fun _ => pure_strict id
  | none => exact (insertRow_loud sha3 now mime body hash).strict

theorem releaseChunks_loud (id : Int) : Loud (releaseChunks id) :=
  Loud.bind (execute_loud rfl) fun _ =>
    Loud.bind (execute_loud rfl) fun _ => execute_loud rfl

theorem releaseAll_loud (rows : List Expiring) : Loud (releaseAll rows) := by
  induction rows with
  | nil => exact pure_loud ()
  | cons row rest ih => exact Loud.bind (onlyIf_loud (releaseChunks_loud row.id)) fun _ => ih

theorem fetchAll_strict (rows : List Expiring) :
    Fallible.Strict Swallowed (fetchAll rows).run := by
  induction rows with
  | nil => exact Fallible.Strict.bind (attempt_strict rfl) fun _ => pure_strict []
  | cons row rest ih =>
      refine Fallible.Strict.bind (attempt_strict rfl) fun found => ?_
      cases found with
      | none => exact pure_strict []
      | some _ => exact Fallible.Strict.bind ih fun _ => pure_strict _

theorem rotate_strict (fetchTie deleteTie : TieOrder) (maxHistory : UInt64) :
    Fallible.Strict Swallowed (rotate fetchTie deleteTie maxHistory).run :=
  Fallible.Strict.bind (execute_strict _) fun rows =>
    Fallible.Strict.bind (fetchAll_strict rows) fun expiring =>
      Fallible.Strict.bind (releaseAll_loud expiring).strict fun _ =>
        Fallible.Strict.bind (execute_strict _) fun _ => pure_strict _

theorem upsertTx_strict (now : Int) (fetchTie deleteTie : TieOrder) (mime : Str) (body : Body)
    (hash : Str) (maxHistory : UInt64) :
    Fallible.Strict Swallowed
      (upsertTx sha3 now fetchTie deleteTie mime body hash maxHistory).run :=
  Fallible.Strict.bind (touchOrInsert_strict sha3 now mime body hash) fun _ =>
    Fallible.Strict.bind (rotate_strict fetchTie deleteTie maxHistory) fun _ => pure_strict _

end

theorem deleteTx_strict (id : Int) : Fallible.Strict Swallowed (deleteTx id).run :=
  Fallible.Strict.bind (attempt_strict rfl) fun _ =>
    Fallible.Strict.bind (onlyIf_loud (releaseChunks_loud id)).strict fun _ =>
      Fallible.Strict.bind (execute_strict _) fun _ => pure_strict _

theorem wipeTx_loud : Loud wipeTx :=
  Loud.bind (execute_loud rfl) fun _ =>
    Loud.bind (execute_loud rfl) fun _ => execute_loud rfl

end Y4p
