import Y4p.Storage.Payloads

/-!
The operations of `SqliteStore` as steps on the committed database: what each
may do, whichever of its statements fail.
-/

namespace Y4p

open Programs

-- What an upsert is given of its payload: `upsert_record` the bytes, `upsert_detached` a length.
inductive Offer where
  | record (data : Slice)
  | detached (len : UInt64)

def Offer.body : Offer → Body
  | .record data => .bytes data.bytes
  | .detached len => .detached len.toNat

-- Both queries of one rotation list equal timestamps in the same order.
inductive StoreOp where
  | upsert (now : Int) (tie : TieOrder) (mime : Str) (offer : Offer) (hash : Str)
      (maxHistory : UInt64)
  | updateTimestamp (now id : Int)
  | setPinned (id : Int) (isPinned : Bool)
  | deleteById (id : Int)
  | wipe
  | getRowContent (id : Int)
  | getRowLocation (id : Int)

def StoreOp.Result : StoreOp → Type
  | .upsert .. => Except String UpsertOutcome
  | .updateTimestamp .. | .wipe => Except String Unit
  | .setPinned .. => Except String Bool
  | .deleteById _ => Except String (Bool × Option Str)
  | .getRowContent _ => Option (Str × Option Bytes × Str)
  | .getRowLocation _ => Option (Str × Bool × Str)

section
variable (sha3 : Bytes → Bytes)

def StoreOp.program : (op : StoreOp) → Program Cmd Cmd.Answer op.Result
  | .upsert now tie mime (.record data) hash maxHistory =>
      (upsertRecord sha3 now tie tie mime data.bytes hash maxHistory).run
  | .upsert now tie mime (.detached len) hash maxHistory =>
      (upsertDetached sha3 now tie tie mime len.toNat hash maxHistory).run
  | .updateTimestamp now id => (Y4p.updateTimestamp now id).run
  | .setPinned id isPinned => (Y4p.setPinned id isPinned).run
  | .deleteById id => (Y4p.deleteById id).run
  | .wipe => Y4p.wipe.run
  | .getRowContent id => Y4p.getRowContent id
  | .getRowLocation id => Y4p.getRowLocation id

def StoreOp.run (op : StoreOp) (faults : Faults) (db : Db) : op.Result × Db :=
  let ended := Program.exec (Cmd.step faults) (op.program sha3) (Session.at db 0)
  (ended.1, ended.2.conn.committed)

end

theorem autocommit_exec (faults : Faults) (stmt : Stmt) (db : Db) (issued : Nat) :
    Program.exec (Cmd.step faults) (autocommit stmt).run (Session.at db issued) =
      match faults issued (.stmt stmt) with
      | some message => (.error message, Session.at db (issued + 1))
      | none => ((stmt.run db).1, Session.at (stmt.run db).2 (issued + 1)) := by
  change Cmd.step faults (.stmt stmt) (Session.at db issued) = _
  simp only [Cmd.step, Faults.hit, Session.at]
  cases faults issued (.stmt stmt) with
  | none => rfl
  | some message => rfl

theorem select_step {stmt : Stmt} {db : Db} (select : (stmt.run db).2 = db) (faults : Faults)
    (issued : Nat) :
    Cmd.step faults (.stmt stmt) (Session.at db issued) =
      (match faults issued (.stmt stmt) with
        | some message => .error message
        | none => (stmt.run db).1, Session.at db (issued + 1)) := by
  have ran := autocommit_exec faults stmt db issued
  change Cmd.step faults (.stmt stmt) (Session.at db issued) = _ at ran
  rw [ran]
  cases faults issued (.stmt stmt) with
  | none =>
      simp only [select]
      rfl
  | some message => rfl

theorem maintenance_exec (faults : Faults) (count : Nat) (db : Db) (issued : Nat) :
    ∃ after, Program.exec (Cmd.step faults) (maintenance count) (Session.at db issued) =
      ((), Session.at db after) := by
  induction count generalizing issued with
  | zero => exact ⟨issued, rfl⟩
  | succ count ih =>
      simp only [maintenance, Program.exec_bind, Program.exec_ask]
      rw [select_step rfl]
      cases faults issued (.stmt .maintenance) with
      | some message => exact ⟨issued + 1, rfl⟩
      | none => exact ih (issued + 1)

def Db.reassembled (db : Db) (row : Row) : Option Bytes :=
  if row.size < 0 then none
  else if (chunkData db row.id).flatten.length = row.size.toNat then
    some (chunkData db row.id).flatten
  else none

def Db.rowContent (db : Db) (id : Int) : Option (Str × Option Bytes × Str) :=
  match db.rowById id with
  | none => none
  | some row =>
      match row.hash with
      | none => none
      | some hash =>
          if row.isChunked then (db.reassembled row).map fun data => (row.mime, some data, hash)
          else some (row.mime, row.content.bytes?, hash)

def Db.rowLocation (db : Db) (id : Int) : Option (Str × Bool × Str) :=
  (db.rowById id).bind fun row =>
    row.hash.map fun hash => (row.mime, decide (row.content ≠ .null) || row.isChunked, hash)

def Interrupted {α : Type} (faults : Faults) (program : Program Cmd Cmd.Answer α)
    (session : Session) : Prop :=
  ∃ issued ∈ Program.trace (Cmd.step faults) program session,
    (faults.hit issued.2.issued issued.1).isSome

theorem Interrupted.bind {α β : Type} {faults : Faults} {program : Program Cmd Cmd.Answer α}
    {session : Session} (next : α → Program Cmd Cmd.Answer β)
    (interrupted : Interrupted faults program session) :
    Interrupted faults (program >>= next) session := by
  obtain ⟨issued, member, failed⟩ := interrupted
  refine ⟨issued, ?_, failed⟩
  rw [Program.trace_bind]
  exact List.mem_append_left _ member

theorem not_interrupted {α : Type} {program : Program Cmd Cmd.Answer α} {session : Session} :
    ¬ Interrupted noFaults program session := by
  rintro ⟨⟨cmd, state⟩, _, failed⟩
  cases cmd <;> simp [Faults.hit, noFaults] at failed

def Reads {α : Type} (faults : Faults) (db : Db) (program : Program Cmd Cmd.Answer (Option α))
    (value : Option α) : Prop :=
  ∀ issued, ∃ answer after,
    Program.exec (Cmd.step faults) program (Session.at db issued) = (answer, Session.at db after) ∧
      (answer = value ∨
        (answer = none ∧ Interrupted faults program (Session.at db issued)))

theorem Reads.pure {α : Type} (faults : Faults) (db : Db) (value : Option α) :
    Reads faults db (pure value) value :=
  fun issued => ⟨value, issued, rfl, .inl rfl⟩

theorem Reads.select {α : Type} {faults : Faults} {db : Db} {stmt : Stmt}
    {next : (Cmd.stmt stmt).Answer → Program Cmd Cmd.Answer (Option α)} {value : Option α}
    (select : (stmt.run db).2 = db) (answered : Reads faults db (next (stmt.run db).1) value)
    (failed : ∀ message, next (.error message) = Pure.pure none) :
    Reads faults db (Program.ask (Cmd.stmt stmt) >>= next) value := by
  intro issued
  have asked : Interrupted faults (Program.ask (Cmd.stmt stmt) >>= next) (Session.at db issued) ↔
      (faults issued (.stmt stmt)).isSome ∨
        Interrupted faults (next (Cmd.step faults (.stmt stmt) (Session.at db issued)).1)
          (Cmd.step faults (.stmt stmt) (Session.at db issued)).2 := by
    simp only [Interrupted, Program.trace_bind, Program.trace_ask, Program.exec_ask,
      List.singleton_append, List.mem_cons, exists_eq_or_imp]
    rfl
  rw [asked, Program.exec_bind, Program.exec_ask, select_step select]
  cases hit : faults issued (.stmt stmt) with
  | some message =>
      refine ⟨none, issued + 1, by simp [failed], .inr ⟨rfl, .inl rfl⟩⟩
  | none =>
      obtain ⟨answer, after, ran, cases⟩ := answered (issued + 1)
      exact ⟨answer, after, ran, cases.imp_right fun failed => ⟨failed.1, .inr failed.2⟩⟩

theorem reassembleFrom_reads (faults : Faults) (db : Db) (expected : Nat) (out : Bytes)
    (rows : List Bytes) :
    Reads faults db (reassembleFrom expected out rows)
      (if (out ++ rows.flatten).length = expected then some (out ++ rows.flatten) else none) := by
  induction rows generalizing out with
  | nil =>
      refine Reads.select rfl ?_ fun _ => rfl
      simp only [List.flatten_nil, List.append_nil]
      exact Reads.pure faults db (if out.length = expected then some out else none)
  | cons data rest ih =>
      refine Reads.select rfl ?_ fun _ => rfl
      simp only [Stmt.run]
      split
      · rename_i long
        have mismatch : ¬ (out ++ (data :: rest).flatten).length = expected := by
          simp only [List.flatten_cons, List.length_append] at long ⊢
          omega
        rw [if_neg mismatch]
        exact Reads.pure faults db none
      · simpa only [List.flatten_cons, List.append_assoc] using ih (out ++ data)

theorem reassemble_reads (faults : Faults) (db : Db) (row : Row) :
    Reads faults db (reassemble row.id row.size) (db.reassembled row) := by
  unfold reassemble Db.reassembled
  split
  · exact Reads.pure faults db none
  · refine Reads.select rfl ?_ fun _ => rfl
    refine Reads.select rfl ?_ fun _ => rfl
    exact reassembleFrom_reads faults db row.size.toNat [] (chunkData db row.id)

theorem Reads.map {α β : Type} {faults : Faults} {db : Db}
    {program : Program Cmd Cmd.Answer (Option α)} {value : Option α}
    (reads : Reads faults db program value) {next : Option α → Program Cmd Cmd.Answer (Option β)}
    {change : α → β} (none : next none = Pure.pure none)
    (some : ∀ found, next (some found) = Pure.pure (some (change found))) :
    Reads faults db (program >>= next) (value.map change) := by
  intro issued
  obtain ⟨answer, after, ran, cases⟩ := reads issued
  refine ⟨answer.map change, after, ?_, ?_⟩
  · rw [Program.exec_bind, ran]
    cases answer with
    | none =>
        rw [none]
        rfl
    | some found =>
        rw [some]
        rfl
  · rcases cases with rfl | ⟨rfl, failed⟩
    · exact .inl rfl
    · exact .inr ⟨rfl, failed.bind next⟩

theorem getRowContent_reads (faults : Faults) (db : Db) (id : Int) :
    Reads faults db (getRowContent id) (db.rowContent id) := by
  refine Reads.select ?_ ?_ fun _ => rfl
  · simp only [Stmt.run]
    split <;> rfl
  · unfold Db.rowContent
    cases found : db.rowById id with
    | none =>
        simp only [Stmt.run, found]
        exact Reads.pure faults db none
    | some row =>
        obtain ⟨_, named⟩ := Db.rowById_eq_some.mp found
        simp only [Stmt.run, found]
        cases row.hash with
        | none => exact Reads.pure faults db none
        | some hash =>
            cases row.isChunked with
            | false => exact Reads.pure faults db _
            | true =>
                rw [← named]
                simp only [if_true]
                exact (reassemble_reads faults db row).map rfl fun _ => rfl

theorem getRowLocation_reads (faults : Faults) (db : Db) (id : Int) :
    Reads faults db (getRowLocation id) (db.rowLocation id) := by
  refine Reads.select ?_ ?_ fun _ => rfl
  · simp only [Stmt.run]
    split <;> rfl
  · unfold Db.rowLocation
    cases found : db.rowById id with
    | none =>
        simp only [Stmt.run, found]
        exact Reads.pure faults db none
    | some row =>
        simp only [Stmt.run, found]
        exact Reads.pure faults db _

section
variable (sha3 : Bytes → Bytes)

def Upserted (db : Db) (now : Int) (tie : TieOrder) (mime : Str) (body : Body) (hash : Str)
    (maxHistory : UInt64) (outcome : UpsertOutcome) (after : Db) : Prop :=
  ∃ placed, Places sha3 db now mime body hash outcome.realId placed ∧
    outcome.isImage = isCacheClass mime ∧
    outcome.expiredHashes = (expiring tie maxHistory placed).filterMap Expiring.hash ∧
    after = placed.rotated tie tie maxHistory

def UpsertEffect (db : Db) (now : Int) (tie : TieOrder) (mime : Str) (body : Body) (hash : Str)
    (maxHistory : UInt64) (result : Except String UpsertOutcome) (after : Db) : Prop :=
  if isSkipped mime body.len then result = .ok .skipped ∧ after = db
  else
    (∃ message, result = .error message ∧ after = db) ∨
      ∃ outcome, result = .ok outcome ∧
        Upserted sha3 db now tie mime body hash maxHistory outcome after

def Attempts {α : Type} (db : Db) (value : α) (changed : Db) (result : Except String α)
    (after : Db) : Prop :=
  (∃ message, result = .error message ∧ after = db) ∨ (result = .ok value ∧ after = changed)

def StoreOp.Effect : (op : StoreOp) → Db → op.Result → Db → Prop
  | .upsert now tie mime offer hash maxHistory, db, result, after =>
      UpsertEffect sha3 db now tie mime offer.body hash maxHistory result after
  | .updateTimestamp now id, db, result, after =>
      Attempts db () (db.touch now id) result after
  | .setPinned id isPinned, db, result, after =>
      Attempts db (db.rowById id).isSome (db.pin isPinned id) result after
  | .deleteById id, db, result, after =>
      Attempts db ((db.rowById id).isSome, (db.rowById id).bind fun row => row.hash)
        (db.dropped id) result after
  | .wipe, db, result, after => Attempts db () db.wiped result after
  | .getRowContent id, db, result, after =>
      (result = db.rowContent id ∨ result = none) ∧ after = db
  | .getRowLocation _, db, _, after => after = db

/-- The maintenance after a wipe changes neither its result nor the tables. -/
theorem wipe_exec {faults : Faults} {db after : Db} {outcome : Except String Unit} {count : Nat}
    (ran : Program.exec (Cmd.step faults) (transaction wipeTx).run (Session.at db 0) =
      (outcome, Session.at after count)) :
    ∃ last, Program.exec (Cmd.step faults) wipe.run (Session.at db 0) =
      (outcome, Session.at after last) := by
  cases outcome with
  | error message => exact ⟨count, Fallible.exec_bind_error _ ran⟩
  | ok value =>
      obtain ⟨first, vacuumed⟩ := maintenance_exec faults 3 after count
      obtain ⟨second, shrunk⟩ := maintenance_exec faults 1 after first
      have lifted : ∀ {batch issued last},
          Program.exec (Cmd.step faults) (maintenance batch) (Session.at after issued) =
            ((), Session.at after last) →
          Program.exec (Cmd.step faults) (ExceptT.lift (maintenance batch) : Query Unit).run
            (Session.at after issued) = (.ok (), Session.at after last) := by
        intro batch issued last batched
        change Program.exec _ (maintenance batch >>= fun value => pure (Except.ok value)) _ = _
        rw [Program.exec_bind, batched]
        rfl
      refine ⟨second, ?_⟩
      rw [wipe, Fallible.exec_bind_ok _ ran, Fallible.exec_bind_ok _ (lifted vacuumed)]
      exact lifted shrunk

theorem transaction_attempts {α : Type} {body : Tx α}
    (strict : Fallible.Strict Swallowed body.run) (faults : WriteFaults) (db : Db)
    {expected : α} {changed : Db}
    (calm : ∀ value after, Calm body db value after → value = expected ∧ after = changed) :
    ∃ result after count,
      Program.exec (Cmd.step faults.hits) (transaction body).run (Session.at db 0) =
        (result, Session.at after count) ∧ Attempts db expected changed result after := by
  rcases transaction_outcome strict faults db 0
    with ⟨message, count, failed⟩ | ⟨value, after, count, ran, succeeded⟩
  · exact ⟨_, db, count, failed, .inl ⟨message, rfl, rfl⟩⟩
  · obtain ⟨rfl, rfl⟩ := calm value after ran
    exact ⟨_, after, count, succeeded, .inr ⟨rfl, rfl⟩⟩

theorem upsert_ends (faults : WriteFaults) (db : Db) (now : Int) (tie : TieOrder) (mime : Str)
    (body : Body) (hash : Str) (maxHistory : UInt64) :
    ∃ result after count,
      Program.exec (Cmd.step faults.hits)
        (if isSkipped mime body.len then pure .skipped
          else upsert sha3 now tie tie mime body hash maxHistory : Query UpsertOutcome).run
        (Session.at db 0) = (result, Session.at after count) ∧
      UpsertEffect sha3 db now tie mime body hash maxHistory result after := by
  unfold UpsertEffect
  split
  · exact ⟨.ok .skipped, db, 0, rfl, rfl, rfl⟩
  · rcases transaction_outcome (upsertTx_strict sha3 now tie tie mime body hash maxHistory) faults
      db 0 with ⟨message, count, failed⟩ | ⟨outcome, after, count, calm, succeeded⟩
    · exact ⟨_, db, count, failed, .inl ⟨message, rfl, rfl⟩⟩
    · exact ⟨_, after, count, succeeded, .inr ⟨outcome, rfl, calm_upsertTx calm⟩⟩

theorem autocommit_ends (faults : Faults) (stmt : Stmt) (db : Db) {α : Type} {answer : stmt.Result}
    {changed : Db} (ran : stmt.run db = (.ok answer, changed)) (read : stmt.Result → α) :
    ∃ result after count,
      Program.exec (Cmd.step faults) (autocommit stmt >>= fun found => pure (read found)).run
        (Session.at db 0) = (result, Session.at after count) ∧
      Attempts db (read answer) changed result after := by
  have executed := autocommit_exec faults stmt db 0
  cases hit : faults 0 (.stmt stmt) with
  | some message =>
      simp only [hit] at executed
      exact ⟨_, db, 1, Fallible.exec_bind_error _ executed, .inl ⟨message, rfl, rfl⟩⟩
  | none =>
      simp only [hit, ran] at executed
      exact ⟨_, changed, 1, Fallible.exec_bind_ok _ executed, .inr ⟨rfl, rfl⟩⟩

theorem StoreOp.ends (op : StoreOp) (faults : WriteFaults) (db : Db) :
    ∃ result after count,
      Program.exec (Cmd.step faults.hits) (op.program sha3) (Session.at db 0) =
        (result, Session.at after count) ∧ op.Effect sha3 db result after := by
  cases op with
  | upsert now tie mime offer hash maxHistory =>
      have ended := upsert_ends sha3 faults db now tie mime offer.body hash maxHistory
      cases offer with
      | record data => exact ended
      | detached len => exact ended
  | updateTimestamp now id =>
      exact autocommit_ends faults.hits (.updateTimestamp now id) db rfl fun _ => ()
  | setPinned id isPinned =>
      have ended := autocommit_ends faults.hits (.setPinned isPinned id) db rfl
        fun affected : Nat => decide (0 < affected)
      rw [rows_affected] at ended
      exact ended
  | deleteById id =>
      exact transaction_attempts (deleteTx_strict id) faults db fun _ _ => calm_deleteTx.mp
  | wipe =>
      have calm : ∀ value after, Calm wipeTx db value after → value = () ∧ after = db.wiped :=
        fun _ _ ran => ⟨rfl, calm_wipeTx.mp ran⟩
      obtain ⟨result, after, count, ran, attempts⟩ :=
        transaction_attempts wipeTx_loud.strict faults db calm
      obtain ⟨last, ended⟩ := wipe_exec ran
      exact ⟨result, after, last, ended, attempts⟩
  | getRowContent id =>
      obtain ⟨answer, count, ran, cases⟩ := getRowContent_reads faults.hits db id 0
      exact ⟨answer, db, count, ran, cases.imp_right And.left, rfl⟩
  | getRowLocation id =>
      obtain ⟨answer, count, ran, _⟩ := getRowLocation_reads faults.hits db id 0
      exact ⟨answer, db, count, ran, rfl⟩

/-- Whichever writes fail, an operation reports its failure and changes nothing, or has
its whole effect. -/
theorem StoreOp.run_effect (op : StoreOp) (faults : WriteFaults) (db : Db) :
    op.Effect sha3 db (op.run sha3 faults.hits db).1 (op.run sha3 faults.hits db).2 := by
  obtain ⟨result, after, count, ran, effect⟩ := op.ends sha3 faults db
  rw [StoreOp.run, ran]
  exact effect

theorem getRowContent_answers (faults : WriteFaults) (db : Db) (id : Int) :
    ((StoreOp.getRowContent id).run sha3 faults.hits db).1 = db.rowContent id ∨
      (((StoreOp.getRowContent id).run sha3 faults.hits db).1 = none ∧
        Interrupted faults.hits ((StoreOp.getRowContent id).program sha3) (Session.at db 0)) := by
  obtain ⟨answer, after, ran, cases⟩ := getRowContent_reads faults.hits db id 0
  change Program.exec (Cmd.step faults.hits) ((StoreOp.getRowContent id).program sha3)
    (Session.at db 0) = _ at ran
  rw [StoreOp.run, ran]
  exact cases

theorem getRowLocation_answers (faults : WriteFaults) (db : Db) (id : Int) :
    ((StoreOp.getRowLocation id).run sha3 faults.hits db).1 = db.rowLocation id := by
  obtain ⟨answer, after, ran, cases⟩ := getRowLocation_reads faults.hits db id 0
  have spared : ¬ Interrupted faults.hits (getRowLocation id) (Session.at db 0) := by
    rintro ⟨issued, member, failed⟩
    rw [getRowLocation, Program.trace_bind, Program.trace_ask, List.singleton_append,
      List.mem_cons] at member
    rcases member with rfl | later
    · change (faults.hits 0 (.stmt (.selectLocation id))).isSome at failed
      rw [faults.spares _ _ rfl] at failed
      cases failed
    · split at later <;> cases later
  change Program.exec (Cmd.step faults.hits) ((StoreOp.getRowLocation id).program sha3)
    (Session.at db 0) = _ at ran
  rw [StoreOp.run, ran]
  exact cases.resolve_right fun failed => spared failed.2

end

end Y4p
