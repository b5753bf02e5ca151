import Y4p.Core.Payload
import Y4p.Storage.ChunkInvariant

/-!
One failing statement, reads included: which failures a transaction contains, and
which let it commit chunks that belong to no row.
-/

namespace Y4p

open Programs

abbrev FailsIn {α : Type} (message : String) (body : Tx α) (db : Db) (failed : Stmt)
    (ended : Except String α × Db) : Prop :=
  Program.FailsOnce Stmt.run (fun _ => .error message) body.run db failed ended

def Stopped {α : Type} (failed : Stmt) (ended : Except String α × Db) : Prop :=
  failed.isRead = false ∧ ∃ reason, ended.1 = .error reason

section
variable {α β : Type} {message : String} {db : Db} {failed : Stmt}

theorem Loud.fails {body : Tx α} (loud : Loud body) {ended : Except String α × Db}
    (fails : FailsIn message body db failed ended) : Stopped failed ended := by
  have notSwallowed := fails.allowed loud.issues
  exact ⟨by simpa [Swallowed] using notSwallowed, loud.strict.failsOnce fails notSwallowed⟩

theorem Loud.bind_fails {body : Tx α} {rest : α → Tx β} (loud : Loud body)
    {ended : Except String β × Db} (fails : FailsIn message (body >>= rest) db failed ended) :
    Stopped failed ended ∨
      ∃ value middle, Calm body db value middle ∧
        FailsIn message (rest value) middle failed ended := by
  rcases Fallible.failsOnce_of_bind fails with ⟨reason, middle, rfl, early⟩ |
    ⟨value, middle, early, _⟩ | ⟨value, middle, ran, late⟩
  · exact .inl ⟨(loud.fails early).1, reason, rfl⟩
  · obtain ⟨_, reason, stopped⟩ := loud.fails early
    simp at stopped
  · exact .inr ⟨value, middle, ran, late⟩

theorem attempt_bind_fails {stmt : Stmt} {rest : Option stmt.Result → Tx β}
    {ended : Except String β × Db}
    (fails : FailsIn message (attempt stmt >>= rest) db failed ended) :
    (failed = stmt ∧ ended = Program.exec Stmt.run (rest none).run db) ∨
      ∃ found middle, Calm (attempt stmt) db found middle ∧
        FailsIn message (rest found) middle failed ended := by
  have only : ∀ {outcome}, FailsIn message (attempt stmt) db failed outcome →
      failed = stmt ∧ outcome = (.ok none, db) := by
    intro outcome early
    cases early with
    | here => exact ⟨rfl, rfl⟩
    | later early => cases early
  rcases Fallible.failsOnce_of_bind fails with ⟨reason, middle, _, early⟩ |
    ⟨value, middle, early, same⟩ | ⟨value, middle, ran, late⟩
  · have swallowed := (only early).2
    simp at swallowed
  · obtain ⟨named, swallowed⟩ := only early
    simp only [Prod.mk.injEq, Except.ok.injEq] at swallowed
    obtain ⟨rfl, rfl⟩ := swallowed
    exact .inl ⟨named, same⟩
  · exact .inr ⟨value, middle, ran, late⟩

theorem pure_fails {value : α} {ended : Except String α × Db}
    (fails : FailsIn message (pure value) db failed ended) : False := by
  cases fails

/-- A fetch that fails ends the rows: those fetched so far are all the code sees. -/
theorem fetchAll_bind_fails {rows : List Expiring} {rest : List Expiring → Tx β}
    {ended : Except String β × Db}
    (fails : FailsIn message (fetchAll rows >>= rest) db failed ended) :
    (∃ taken left, rows = taken ++ left ∧ failed = .fetchExpiring left ∧
      ended = Program.exec Stmt.run (rest taken).run db) ∨
    FailsIn message (rest rows) db failed ended := by
  have only : ∀ {rows outcome}, FailsIn message (fetchAll rows) db failed outcome →
      ∃ taken left, rows = taken ++ left ∧ failed = .fetchExpiring left ∧
        outcome = (.ok taken, db) := by
    intro rows
    induction rows with
    | nil =>
        intro outcome early
        rcases attempt_bind_fails early with ⟨named, same⟩ | ⟨_, _, _, late⟩
        · exact ⟨[], [], rfl, named, same⟩
        · exact (pure_fails late).elim
    | cons row others ih =>
        intro outcome early
        rcases attempt_bind_fails early with ⟨named, same⟩ | ⟨found, middle, ran, late⟩
        · exact ⟨[], row :: others, rfl, named, same⟩
        · obtain ⟨rfl, rfl⟩ := calm_attempt.mp ran
          rcases Fallible.failsOnce_of_bind late with ⟨reason, middle, _, later⟩ |
            ⟨value, middle, later, same⟩ | ⟨_, _, _, later⟩
          · obtain ⟨_, _, _, _, swallowed⟩ := ih later
            simp at swallowed
          · obtain ⟨taken, left, rfl, named, swallowed⟩ := ih later
            simp only [Prod.mk.injEq, Except.ok.injEq] at swallowed
            obtain ⟨rfl, rfl⟩ := swallowed
            exact ⟨row :: value, left, rfl, named, same⟩
          · exact (pure_fails later).elim
  rcases Fallible.failsOnce_of_bind fails with ⟨reason, middle, _, early⟩ |
    ⟨value, middle, early, same⟩ | ⟨value, middle, ran, late⟩
  · obtain ⟨_, _, _, _, swallowed⟩ := only early
    simp at swallowed
  · obtain ⟨taken, left, shape, named, swallowed⟩ := only early
    simp only [Prod.mk.injEq, Except.ok.injEq] at swallowed
    obtain ⟨rfl, rfl⟩ := swallowed
    exact .inl ⟨value, left, shape, named, same⟩
  · obtain ⟨rfl, rfl⟩ := calm_fetchAll.mp ran
    exact .inr late

end

-- The lookup of a row that has chunks, or a fetch while such a row is still to come.
def NeedsRead (db : Db) : Stmt → Prop
  | .selectForDelete id => db.manifestOf id ≠ []
  | .fetchExpiring left => ∃ row ∈ left, row.isChunked = true ∧
      (db.manifestOf row.id ≠ [] ∨ row.id = db.sequence + 1)
  | _ => False

theorem not_needsRead_of_write {db : Db} {stmt : Stmt} (write : stmt.isRead = false) :
    ¬ NeedsRead db stmt := by
  cases stmt with
  | selectForDelete id | fetchExpiring left => simp [Stmt.isRead] at write
  | _ => exact id

inductive Endured {α : Type} (body : Tx α) (db : Db) (failed : Stmt) :
    Except String α × Db → Prop
  | stopped {reason after} : ¬ NeedsRead db failed → Endured body db failed (.error reason, after)
  | unharmed {value other after} : ¬ NeedsRead db failed → Calm body db other after →
      Endured body db failed (.ok value, after)
  | orphaned {value after} : NeedsRead db failed → ¬ RefsExact after →
      Endured body db failed (.ok value, after)

theorem Stopped.endured {α : Type} {body : Tx α} {db : Db} {failed : Stmt}
    {ended : Except String α × Db} (stopped : Stopped failed ended) :
    Endured body db failed ended := by
  obtain ⟨write, reason, same⟩ := stopped
  obtain ⟨outcome, after⟩ := ended
  change outcome = .error reason at same
  subst same
  exact .stopped (not_needsRead_of_write write)

theorem release_unlisted {db : Db} {id : Int} (unlisted : db.manifestOf id = []) :
    db.release id = db := by
  have unnamed : ∀ hash, references db id hash = 0 := by
    intro hash
    rw [references, unlisted]
    rfl
  have kept : db.chunks.map (Chunk.release db id) = db.chunks := by
    conv_rhs => rw [← List.map_id db.chunks]
    apply List.map_congr_left
    intro chunk _
    simp [Chunk.release, unnamed]
  apply Db.ext
  · rfl
  · change (db.chunks.map (Chunk.release db id)).filter (fun chunk =>
      !(decide (chunk.refcount ≤ 0) &&
        (db.manifestOf id).any fun entry => entry.chunkHash = chunk.hash)) = db.chunks
    rw [kept, unlisted]
    simp
  · rw [Db.release_manifest, List.filter_eq_self]
    intro entry member
    have absent := List.filter_eq_nil_iff.mp unlisted entry member
    simpa using absent
  · rfl

theorem releaseRow_unlisted {db : Db} {row : Expiring}
    (unlisted : row.isChunked = true → db.manifestOf row.id = []) : db.releaseRow row = db := by
  unfold Db.releaseRow
  split
  · rename_i chunked
    exact release_unlisted (unlisted chunked)
  · rfl

theorem releaseRows_unlisted {db : Db} {rows : List Expiring}
    (unlisted : ∀ row ∈ rows, row.isChunked = true → db.manifestOf row.id = []) :
    db.releaseRows rows = db := by
  induction rows with
  | nil => rfl
  | cons row rest ih =>
      have first := releaseRow_unlisted (unlisted row (by simp))
      change (db.releaseRow row).releaseRows rest = db
      rw [first]
      exact ih fun other member => unlisted other (by simp [member])

/-- Deleting a row that still has manifest entries orphans them. -/
theorem not_refsExact_of_orphan {db : Db} {id : Int} (listed : db.manifestOf id ≠ [])
    (gone : ∀ row ∈ db.clipboard, row.id ≠ id) : ¬ RefsExact db := by
  intro refs
  exact listed (refs.manifestOf_eq_nil fun row present same => absurd same (gone row present))

section
variable {message : String} {db : Db} {failed : Stmt}

theorem deleteTx_endures {id : Int}
    {ended : Except String (Bool × Option Str) × Db}
    (fails : FailsIn message (deleteTx id) db failed ended) :
    Endured (deleteTx id) db failed ended := by
  rcases attempt_bind_fails fails with ⟨rfl, rfl⟩ | ⟨found, middle, ran, late⟩
  · have result : Program.exec Stmt.run (onlyIf (false = true) (releaseChunks id) >>= fun _ => do
        let deleted : Nat ← execute (.deleteRow id)
        pure (decide (0 < deleted), (none : Option Str))).run db =
        (.ok ((db.rowById id).isSome, none), db.deleteRow id) :=
      calm_bind.mpr ⟨(), db, rfl, calm_deleteRow.mpr ⟨rfl, rfl⟩⟩
    change Endured _ _ _ (Program.exec Stmt.run (onlyIf (false = true) (releaseChunks id) >>=
      fun _ => do
        let deleted : Nat ← execute (.deleteRow id)
        pure (decide (0 < deleted), (none : Option Str))).run db)
    rw [result]
    by_cases listed : db.manifestOf id = []
    · have same : db.dropped id = db.deleteRow id := by
        unfold Db.dropped
        split
        · rename_i row found
          obtain ⟨_, named⟩ := Db.rowById_eq_some.mp found
          rw [releaseRow_unlisted]
          intro _
          change db.manifestOf row.id = []
          rw [named]
          exact listed
        · rfl
      exact .unharmed (fun needed => needed listed) (calm_deleteTx.mpr ⟨rfl, same.symm⟩)
    · refine .orphaned listed (not_refsExact_of_orphan listed ?_)
      intro row kept same
      have stays := List.of_mem_filter kept
      simp [same] at stays
  · have loud : ∀ row : Option Str × Bool, Loud (onlyIf row.2 (releaseChunks id) >>= fun _ => do
        let deleted : Nat ← execute (.deleteRow id)
        pure (decide (0 < deleted), row.1)) := fun row =>
      Loud.bind (onlyIf_loud (releaseChunks_loud id)) fun _ =>
        Loud.bind (execute_loud rfl) fun _ => pure_loud _
    exact ((loud _).fails late).endured

theorem touchOrInsert_bind_fails {sha3 : Bytes → Bytes} {β : Type} {now : Int} {mime hash : Str}
    {body : Body} {rest : Int → Tx β} {ended : Except String β × Db}
    (fails : FailsIn message (touchOrInsert sha3 now mime body hash >>= rest) db failed ended) :
    (∃ reason after, ended = (.error reason, after) ∧ ¬ NeedsRead db failed) ∨
    (¬ NeedsRead db failed ∧ ended =
      Program.exec Stmt.run (touchOrInsert sha3 now mime body hash >>= rest).run db) ∨
    ∃ id placed, Calm (touchOrInsert sha3 now mime body hash) db id placed ∧
      FailsIn message (rest id) placed failed ended := by
  have only : ∀ {outcome}, FailsIn message (touchOrInsert sha3 now mime body hash) db failed
      outcome → ¬ NeedsRead db failed ∧ ((∃ reason, outcome.1 = .error reason) ∨
        outcome = Program.exec Stmt.run (touchOrInsert sha3 now mime body hash).run db) := by
    intro outcome early
    rcases attempt_bind_fails early with ⟨rfl, rfl⟩ | ⟨found, middle, _, late⟩
    · refine ⟨id, ?_⟩
      cases present : db.rowByHash hash with
      | none =>
          right
          have lookup : Calm (attempt (.selectByHash hash)) db none db := by
            rw [calm_attempt]
            simp only [Stmt.run, present]
            exact ⟨rfl, trivial⟩
          rw [touchOrInsert, Fallible.exec_bind_ok Stmt.run lookup]
      | some row =>
          left
          obtain ⟨member, named⟩ := Db.rowByHash_eq_some.mp present
          have taken : ¬ db.HashFree (some hash) := fun free => by
            simpa using free row member named
          have refused : Program.exec Stmt.run
              (execute (.insertClipboard (newRow now mime body hash))).run db =
              (.error "UNIQUE constraint failed: clipboard.hash", db) := by
            change Stmt.run (.insertClipboard (newRow now mime body hash)) db = _
            exact dif_neg taken
          refine ⟨"UNIQUE constraint failed: clipboard.hash", ?_⟩
          change (Program.exec Stmt.run (insertRow sha3 now mime body hash).run db).1 = _
          rw [insertRow, Fallible.exec_bind_error Stmt.run refused]
    · have stopped : Stopped failed outcome := by
        cases found with
        | some id => exact (Loud.bind (execute_loud rfl) fun _ => pure_loud id).fails late
        | none => exact (insertRow_loud sha3 now mime body hash).fails late
      exact ⟨not_needsRead_of_write stopped.1, .inl stopped.2⟩
  rcases Fallible.failsOnce_of_bind fails with ⟨reason, middle, rfl, early⟩ |
    ⟨value, middle, early, same⟩ | ⟨value, middle, ran, late⟩
  · exact .inl ⟨reason, middle, rfl, (only early).1⟩
  · obtain ⟨harmless, ⟨reason, stopped⟩ | calm⟩ := only early
    · simp at stopped
    · refine .inr (.inl ⟨harmless, ?_⟩)
      rw [same, Fallible.exec_bind_ok Stmt.run calm.symm]
  · exact .inr (.inr ⟨value, middle, ran, late⟩)

-- Rotation that saw only `taken` of the expiring rows, but deletes them all.
def Db.rotatedAfter (db : Db) (taken : List Expiring) (tie : TieOrder) (maxHistory : UInt64) : Db :=
  (db.releaseRows taken).deleteExpired tie (quota maxHistory)

theorem rotatedAfter_unharmed {placed : Db} {taken left : List Expiring} {tie : TieOrder}
    {maxHistory : UInt64} (shape : expiring tie maxHistory placed = taken ++ left)
    (unlisted : ∀ row ∈ left, row.isChunked = true → placed.manifestOf row.id = []) :
    placed.rotatedAfter taken tie maxHistory = placed.rotated tie tie maxHistory := by
  have same : (placed.releaseRows taken).releaseRows left = placed.releaseRows taken := by
    apply releaseRows_unlisted
    intro row member chunked
    rw [releaseRows_manifestOf]
    split
    · rfl
    · exact unlisted row member chunked
  have whole : placed.releaseRows (taken ++ left) =
      (placed.releaseRows taken).releaseRows left := List.foldl_append
  rw [Db.rotated, shape, whole, same]
  rfl

theorem rotatedAfter_orphans {placed : Db} {taken left : List Expiring} {tie : TieOrder}
    {maxHistory : UInt64} (shape : expiring tie maxHistory placed = taken ++ left)
    {row : Expiring} (member : row ∈ left) (listed : placed.manifestOf row.id ≠ []) :
    ¬ RefsExact (placed.rotatedAfter taken tie maxHistory) := by
  have expires : row ∈ expiring tie maxHistory placed := by
    rw [shape]
    exact List.mem_append_right _ member
  obtain ⟨doomed, present, rfl⟩ := List.mem_map.mp expires
  have distinct : ((taken ++ left).map Expiring.id).Nodup := by
    rw [← shape, expiring, List.map_map]
    change ((expired tie (quota maxHistory) placed).map Row.id).Nodup
    apply List.Nodup.map_on
    · intro a inA b inB same
      exact Db.eq_of_id (mem_expired inA).1 (mem_expired inB).1 same
    · exact Ranking.nodup_dropped (MruLe tie)
        ((List.Nodup.of_map _ placed.idsUnique).filter _)
  have kept : (placed.rotatedAfter taken tie maxHistory).manifestOf doomed.id ≠ [] := by
    change (placed.releaseRows taken).manifestOf doomed.id ≠ []
    rw [releaseRows_manifestOf, if_neg]
    · exact listed
    · rintro ⟨other, seen, _, same⟩
      rw [List.map_append] at distinct
      exact (List.nodup_append.mp distinct).2.2 other.id (List.mem_map_of_mem seen) doomed.id
        (List.mem_map_of_mem member) same.symm
  refine not_refsExact_of_orphan kept fun other stays same => ?_
  have spared := List.of_mem_filter stays
  rw [expired_congr (Db.releaseRows_clipboard placed taken)] at spared
  have named : other.id ∈ (expired tie (quota maxHistory) placed).map Row.id :=
    List.mem_map.mpr ⟨doomed, present, same.symm⟩
  simp [named] at spared

theorem rotate_fails {placed : Db} {tie : TieOrder} {maxHistory : UInt64}
    {ended : Except String (List Str) × Db}
    (fails : FailsIn message (rotate tie tie maxHistory) placed failed ended) :
    Stopped failed ended ∨
      ∃ taken left, expiring tie maxHistory placed = taken ++ left ∧
        failed = .fetchExpiring left ∧
        ended = (.ok (taken.filterMap Expiring.hash), placed.rotatedAfter taken tie maxHistory) := by
  have loud : ∀ rows : List Expiring, Loud (releaseAll rows >>= fun _ => do
      execute (.deleteExpired tie (quota maxHistory))
      pure (rows.filterMap Expiring.hash)) := fun rows =>
    Loud.bind (releaseAll_loud rows) fun _ => Loud.bind (execute_loud rfl) fun _ => pure_loud _
  rcases Loud.bind_fails (execute_loud rfl) fails with stopped | ⟨rows, middle, ran, fetching⟩
  · exact .inl stopped
  · obtain ⟨rfl, rfl⟩ := (calm_execute_total rfl).mp ran
    rcases fetchAll_bind_fails fetching with ⟨taken, left, shape, named, rfl⟩ | later
    · refine .inr ⟨taken, left, shape, named, ?_⟩
      exact calm_bind.mpr ⟨(), _, calm_releaseAll.mpr rfl, calm_bind.mpr ⟨(), _, rfl, rfl⟩⟩
    · exact .inl ((loud _).fails later)

theorem upsertTx_endures {sha3 : Bytes → Bytes} (refs : RefsExact db) {now : Int} {tie : TieOrder}
    {mime hash : Str} {body : Body} {maxHistory : UInt64}
    {ended : Except String UpsertOutcome × Db}
    (fails : FailsIn message (upsertTx sha3 now tie tie mime body hash maxHistory) db failed
      ended) :
    Endured (upsertTx sha3 now tie tie mime body hash maxHistory) db failed ended := by
  rcases touchOrInsert_bind_fails fails with ⟨reason, after, rfl, harmless⟩ |
    ⟨harmless, rfl⟩ | ⟨id, placed, placing, late⟩
  · exact .stopped harmless
  · change Endured _ _ _ (Program.exec Stmt.run
      (upsertTx sha3 now tie tie mime body hash maxHistory).run db)
    rcases ran : Program.exec Stmt.run (upsertTx sha3 now tie tie mime body hash maxHistory).run db
      with ⟨outcome, after⟩
    cases outcome with
    | error reason => exact .stopped harmless
    | ok value => exact .unharmed harmless ran
  · have places := calm_touchOrInsert sha3 placing
    rcases Fallible.failsOnce_of_bind late with ⟨reason, middle, rfl, early⟩ |
      ⟨hashes, middle, early, rfl⟩ | ⟨_, _, _, later⟩
    · rcases rotate_fails early with stopped | ⟨_, _, _, _, swallowed⟩
      · exact .stopped (not_needsRead_of_write stopped.1)
      · simp at swallowed
    · rcases rotate_fails early with ⟨_, _, stopped⟩ | ⟨taken, left, shape, rfl, swallowed⟩
      · simp at stopped
      · simp only [Prod.mk.injEq, Except.ok.injEq] at swallowed
        obtain ⟨rfl, rfl⟩ := swallowed
        by_cases needed : NeedsRead db (.fetchExpiring left)
        · refine .orphaned needed ?_
          obtain ⟨row, member, chunked, listed⟩ := needed
          apply rotatedAfter_orphans shape member
          have expires : row ∈ expiring tie maxHistory placed := by
            rw [shape]
            exact List.mem_append_right _ member
          obtain ⟨doomed, present, rfl⟩ := List.mem_map.mp expires
          by_cases new : doomed.id = db.sequence + 1
          · exact places.new_listed refs (mem_expired present).1 new chunked
          · rw [Row.expiring, places.manifestOf_old new]
            exact listed.resolve_right new
        · refine .unharmed needed (calm_bind.mpr ⟨id, placed, placing, calm_bind.mpr ⟨_, _,
            calm_rotate.mpr ⟨rfl, rotatedAfter_unharmed shape ?_⟩, rfl⟩⟩)
          intro row member chunked
          by_contra listed
          refine needed ⟨row, member, chunked, ?_⟩
          by_cases new : row.id = db.sequence + 1
          · exact .inr new
          · rw [← places.manifestOf_old new]
            exact .inl listed
    · exact (pure_fails later).elim

end

section
variable {α : Type} {message : String} {index : Nat}

theorem failOnly_late (program : Program Stmt Stmt.Answer α) (db : Db) {issued : Nat}
    (late : index < issued) :
    Program.exec (Stmt.step (failOnly index message)) program ⟨db, issued⟩ =
      ((Program.exec Stmt.run program db).1, ⟨(Program.exec Stmt.run program db).2,
        issued + (Program.calls Stmt.run program db).length⟩) := by
  induction program generalizing db issued with
  | ret value => rfl
  | call request next ih =>
      have spared : Stmt.step (failOnly index message) request ⟨db, issued⟩ =
          ((request.run db).1, ⟨(request.run db).2, issued + 1⟩) := by
        have differs : ¬ issued = index := by omega
        simp [Stmt.step, failOnly, differs]
      simp only [Program.exec, Program.calls, spared, List.length_cons]
      rw [ih _ _ (by omega), Nat.add_right_comm, Nat.add_assoc]

/-- The command with number `index` falls in the body, and fails there; or the body is calm. -/
theorem failOnly_cases (program : Program Stmt Stmt.Answer α) (db : Db) {issued : Nat}
    (early : issued ≤ index) :
    (∃ failed ended count,
      (Program.calls Stmt.run program db)[index - issued]? = some failed ∧
      Program.FailsOnce Stmt.run (fun _ => .error message) program db failed ended ∧
      index < count ∧
      Program.exec (Stmt.step (failOnly index message)) program ⟨db, issued⟩ =
        (ended.1, ⟨ended.2, count⟩)) ∨
    ((Program.calls Stmt.run program db).length ≤ index - issued ∧
      Program.exec (Stmt.step (failOnly index message)) program ⟨db, issued⟩ =
        ((Program.exec Stmt.run program db).1, ⟨(Program.exec Stmt.run program db).2,
          issued + (Program.calls Stmt.run program db).length⟩)) := by
  induction program generalizing db issued with
  | ret value => exact .inr ⟨Nat.zero_le _, rfl⟩
  | call request next ih =>
      by_cases now : issued = index
      · left
        subst now
        have hit : Stmt.step (failOnly issued message) request ⟨db, issued⟩ =
            (.error message, ⟨db, issued + 1⟩) := by simp [Stmt.step, failOnly]
        refine ⟨request, _, issued + 1 + (Program.calls Stmt.run (next (.error message)) db).length,
          by simp [Program.calls], .here, by omega, ?_⟩
        simp only [Program.exec, hit]
        exact failOnly_late _ _ (Nat.lt_succ_self issued)
      · have spared : Stmt.step (failOnly index message) request ⟨db, issued⟩ =
            ((request.run db).1, ⟨(request.run db).2, issued + 1⟩) := by
          simp [Stmt.step, failOnly, now]
        have shift : index - issued = index - (issued + 1) + 1 := by omega
        simp only [Program.exec, Program.calls, spared, List.length_cons, shift,
          List.getElem?_cons_succ]
        rcases @ih (request.run db).1 (request.run db).2 (issued + 1) (by omega) with
          ⟨failed, ended, count, issuedThere, fails, after, ran⟩ | ⟨beyond, ran⟩
        · exact .inl ⟨failed, ended, count, issuedThere, .later fails, after, ran⟩
        · refine .inr ⟨by omega, ?_⟩
          rw [ran, Nat.add_right_comm, Nat.add_assoc]

theorem step_noFaults (stmt : Stmt) (draft : Draft) :
    (stmt.step noFaults draft).1 = (stmt.run draft.db).1 ∧
      (stmt.step noFaults draft).2.db = (stmt.run draft.db).2 := ⟨rfl, rfl⟩

theorem transaction_calls (body : Tx α) (db : Db) :
    ∃ last, (∀ stmt, last ≠ .stmt stmt) ∧
      Program.calls (Cmd.step noFaults) (transaction body).run (Session.at db 0) =
        .begin :: ((Program.calls Stmt.run body.run db).map Cmd.stmt ++ [last]) := by
  have opened : Cmd.step noFaults .begin (Session.at db 0) = (.ok (), Draft.inside db ⟨db, 1⟩) := rfl
  have same := Program.calls_view Draft.db step_noFaults body.run ⟨db, 1⟩
  simp only [transaction, ExceptT.run_mk, Program.calls_bind, Program.calls_ask, Program.exec_ask,
    opened, lift_calls, lift_exec, same, List.cons_append, List.nil_append]
  rcases Program.exec (Stmt.step noFaults) body.run ⟨db, 1⟩ with ⟨outcome, draft⟩
  cases outcome with
  | error reason =>
      refine ⟨.rollback, fun _ same => ?_, rfl⟩
      cases same
  | ok value =>
      refine ⟨.commit, fun _ same => ?_, rfl⟩
      cases same

theorem transaction_failOnly (body : Tx α) (db : Db) :
    ∃ result after count,
      Program.exec (Cmd.step (failOnly index message)) (transaction body).run (Session.at db 0) =
        (result, Session.at after count) ∧
      ((∃ failed ended,
          (Program.calls (Cmd.step noFaults) (transaction body).run (Session.at db 0))[index]? =
            some (.stmt failed) ∧
          FailsIn message body db failed ended ∧
          (((∃ reason, ended.1 = .error reason) ∧ (∃ reason, result = .error reason) ∧ after = db) ∨
            ∃ value, ended = (.ok value, after) ∧ result = .ok value)) ∨
        ((∀ failed,
            (Program.calls (Cmd.step noFaults) (transaction body).run (Session.at db 0))[index]? ≠
              some (.stmt failed)) ∧
          (((∃ reason, result = .error reason) ∧ after = db) ∨
            ∃ value, result = .ok value ∧ Calm body db value after))) := by
  obtain ⟨last, closing, issued⟩ := transaction_calls body db
  rw [transaction_exec, issued]
  cases index with
  | zero => exact ⟨.error message, db, 1, rfl, .inr ⟨by simp, .inl ⟨⟨message, rfl⟩, rfl⟩⟩⟩
  | succ index =>
      have opens : failOnly (index + 1) message 0 .begin = none := by simp [failOnly]
      simp only [opens, List.getElem?_cons_succ]
      rcases @failOnly_cases _ message _ body.run db 1 (Nat.le_add_left 1 index) with
        ⟨failed, ended, count, issuedThere, fails, after, ran⟩ | ⟨beyond, ran⟩
      · rw [Nat.add_sub_cancel] at issuedThere
        have within : (List.map Cmd.stmt (Program.calls Stmt.run body.run db) ++ [last])[index]? =
            some (.stmt failed) := by
          rw [List.getElem?_append_left, List.getElem?_map, issuedThere]
          · rfl
          · rw [List.length_map]
            exact (List.getElem?_eq_some_iff.mp issuedThere).1
        simp only [Nat.zero_add, ran]
        obtain ⟨outcome, changed⟩ := ended
        cases outcome with
        | error reason =>
            exact ⟨.error reason, db, count + 1, rfl, .inl ⟨failed, _, within, fails,
              .inl ⟨⟨reason, rfl⟩, ⟨reason, rfl⟩, rfl⟩⟩⟩
        | ok value =>
            have commits : failOnly (index + 1) message count .commit = none := by
              have differs : ¬ count = index + 1 := by omega
              simp [failOnly, differs]
            exact ⟨.ok value, changed, count + 1, by simp only [commits], .inl ⟨failed, _, within,
              fails, .inr ⟨value, rfl, rfl⟩⟩⟩
      · rw [Nat.add_sub_cancel] at beyond
        have outside : ∀ failed,
            (List.map Cmd.stmt (Program.calls Stmt.run body.run db) ++ [last])[index]? ≠
              some (.stmt failed) := by
          intro failed
          rw [List.getElem?_append_right (by simpa using beyond), List.getElem?_singleton]
          split
          · simpa using closing failed
          · simp
        simp only [Nat.zero_add, ran]
        rcases calm : Program.exec Stmt.run body.run db with ⟨outcome, changed⟩
        cases outcome with
        | error reason => exact ⟨.error reason, db, _, rfl, .inr ⟨outside, .inl ⟨⟨reason, rfl⟩, rfl⟩⟩⟩
        | ok value =>
            cases commits : failOnly (index + 1) message
                (1 + (Program.calls Stmt.run body.run db).length) .commit with
            | some reason =>
                exact ⟨.error reason, db, _, by simp only [commits]; rfl,
                  .inr ⟨outside, .inl ⟨⟨reason, rfl⟩, rfl⟩⟩⟩
            | none =>
                exact ⟨.ok value, changed, _, by simp only [commits]; rfl,
                  .inr ⟨outside, .inr ⟨value, rfl, calm⟩⟩⟩

theorem transaction_calm {body : Tx α} {db after : Db} {value : α}
    (calm : Calm body db value after) :
    ∃ count, Program.exec (Cmd.step noFaults) (transaction body).run (Session.at db 0) =
      (.ok value, Session.at after count) := by
  have seen := Program.exec_view Draft.db step_noFaults body.run ⟨db, 1⟩
  rw [show Program.exec Stmt.run body.run db = (.ok value, after) from calm] at seen
  rw [transaction_exec]
  rcases ran : Program.exec (Stmt.step noFaults) body.run ⟨db, 1⟩ with ⟨outcome, draft⟩
  rw [ran, Prod.mk.injEq] at seen
  obtain ⟨rfl, rfl⟩ := seen
  exact ⟨draft.issued + 1, rfl⟩

def Harmless (db : Db) (commands : List Cmd) (index : Nat) : Prop :=
  ∀ failed, commands[index]? = some (.stmt failed) → ¬ NeedsRead db failed

def Contains {R : Type} (failed : R → Bool) (program : Program Cmd Cmd.Answer R) (db : Db)
    (index : Nat) (message : String) : Prop :=
  ∃ result after count,
    Program.exec (Cmd.step (failOnly index message)) program (Session.at db 0) =
      (result, Session.at after count) ∧
    ((Harmless db (Program.calls (Cmd.step noFaults) program (Session.at db 0)) index ∧
        RefsExact after ∧
        ((failed result = true ∧ after = db) ∨
          (failed result = false ∧ ∃ other last, failed other = false ∧
            Program.exec (Cmd.step noFaults) program (Session.at db 0) =
              (other, Session.at after last)))) ∨
      (¬ Harmless db (Program.calls (Cmd.step noFaults) program (Session.at db 0)) index ∧
        ¬ RefsExact after))

theorem transaction_contains {failed : Except String α → Bool}
    (onError : ∀ reason, failed (.error reason) = true)
    (onOk : ∀ value, failed (.ok value) = false) {body : Tx α} {db : Db} (refs : RefsExact db)
    (calmRefs : ∀ value after, Calm body db value after → RefsExact after)
    (endures : ∀ failed ended, FailsIn message body db failed ended →
      Endured body db failed ended) :
    Contains failed (transaction body).run db index message := by
  obtain ⟨result, after, count, ran, cases⟩ := transaction_failOnly body db
  refine ⟨result, after, count, ran, ?_⟩
  rcases cases with ⟨stmt, ended, issued, fails, ends⟩ | ⟨outside, ends⟩
  · have only : ¬ NeedsRead db stmt → Harmless db
        (Program.calls (Cmd.step noFaults) (transaction body).run (Session.at db 0)) index := by
      intro harmless other named
      rw [issued] at named
      simp only [Option.some.injEq, Cmd.stmt.injEq] at named
      rw [← named]
      exact harmless
    have endured := endures stmt ended fails
    rcases ends with ⟨⟨reason, stopped⟩, ⟨said, rfl⟩, rfl⟩ | ⟨value, rfl, rfl⟩
    · obtain ⟨outcome, drafted⟩ := ended
      change outcome = .error reason at stopped
      subst stopped
      cases endured with
      | stopped harmless => exact .inl ⟨only harmless, refs, .inl ⟨onError said, rfl⟩⟩
    · cases endured with
      | unharmed harmless calm =>
          obtain ⟨last, whole⟩ := transaction_calm calm
          exact .inl ⟨only harmless, calmRefs _ _ calm,
            .inr ⟨onOk value, _, last, onOk _, whole⟩⟩
      | orphaned needed broken => exact .inr ⟨fun harmless => harmless stmt issued needed, broken⟩
  · have harmless : Harmless db
        (Program.calls (Cmd.step noFaults) (transaction body).run (Session.at db 0)) index :=
      fun stmt issued => absurd issued (outside stmt)
    rcases ends with ⟨⟨said, rfl⟩, rfl⟩ | ⟨value, rfl, calm⟩
    · exact .inl ⟨harmless, refs, .inl ⟨onError said, rfl⟩⟩
    · obtain ⟨last, whole⟩ := transaction_calm calm
      exact .inl ⟨harmless, calmRefs _ _ calm, .inr ⟨onOk value, _, last, onOk _, whole⟩⟩

end

def StoreOp.failed : (op : StoreOp) → op.Result → Bool
  | .upsert .., .error _ | .updateTimestamp .., .error _ | .setPinned .., .error _
  | .deleteById _, .error _ | .wipe, .error _ => true
  | _, _ => false

section
variable (sha3 : Bytes → Bytes)

def StoreOp.commands (op : StoreOp) (db : Db) : List Cmd :=
  Program.calls (Cmd.step noFaults) (op.program sha3) (Session.at db 0)

-- With one command failing: an error and the tables as they were, or success and the whole effect.
def StoreOp.Atomic (op : StoreOp) (index : Nat) (message : String) (db : Db) : Prop :=
  (op.failed (op.run sha3 (failOnly index message) db).1 = true ∧
    (op.run sha3 (failOnly index message) db).2 = db) ∨
  (op.failed (op.run sha3 (failOnly index message) db).1 = false ∧
    op.failed (op.run sha3 noFaults db).1 = false ∧
    (op.run sha3 (failOnly index message) db).2 = (op.run sha3 noFaults db).2)

theorem StoreOp.run_eq (op : StoreOp) {faults : Faults} {db after : Db} {result : op.Result}
    {count : Nat} (ran : Program.exec (Cmd.step faults) (op.program sha3) (Session.at db 0) =
      (result, Session.at after count)) : op.run sha3 faults db = (result, after) := by
  rw [StoreOp.run, ran]
  rfl

def StoreOp.IsTransaction : StoreOp → Prop
  | .upsert .. | .deleteById _ | .wipe => True
  | _ => False

theorem StoreOp.atomic_of_contains {op : StoreOp} {index : Nat} {message : String} {db : Db}
    (contains : Contains op.failed (op.program sha3) db index message) :
    op.Atomic sha3 index message db ∧ RefsExact (op.run sha3 (failOnly index message) db).2 ↔
      Harmless db (op.commands sha3 db) index := by
  obtain ⟨result, after, count, ran, cases⟩ := contains
  rw [StoreOp.Atomic, op.run_eq sha3 ran]
  rcases cases with ⟨harmless, refs, same | ⟨succeeded, other, last, calm, whole⟩⟩ |
    ⟨harmful, broken⟩
  · exact ⟨fun _ => harmless, fun _ => ⟨.inl same, refs⟩⟩
  · rw [op.run_eq sha3 whole]
    exact ⟨fun _ => harmless, fun _ => ⟨.inr ⟨succeeded, calm, rfl⟩, refs⟩⟩
  · exact ⟨fun claimed => absurd claimed.2 broken, fun harmless => absurd harmless harmful⟩

theorem harmless_of_issues {R : Type} {program : Program Cmd Cmd.Answer R}
    (issues : Program.Issues (fun cmd => cmd.isRead = false) program) (db : Db) (index : Nat)
    (session : Session) : Harmless db (Program.calls (Cmd.step noFaults) program session) index := by
  intro stmt issued
  have write := Program.mem_calls issues (List.mem_of_getElem? issued)
  exact not_needsRead_of_write write

theorem transaction_issues {α : Type} {body : Tx α} (loud : Loud body) :
    Program.Issues (fun cmd => cmd.isRead = false) (transaction body).run := by
  refine Program.Issues.bind ⟨rfl, fun _ => trivial⟩ fun opened => ?_
  cases opened with
  | error message => trivial
  | ok _ =>
      have write : ∀ stmt, ¬ Swallowed stmt → (Cmd.stmt stmt).isRead = false := by
        intro stmt loud
        exact Bool.eq_false_iff.mpr loud
      refine Program.Issues.bind (Program.Issues.lift write loud.issues) fun outcome => ?_
      cases outcome with
      | error message => exact ⟨rfl, fun _ => trivial⟩
      | ok value =>
          refine Program.Issues.bind ⟨rfl, fun _ => trivial⟩ fun closed => ?_
          cases closed with
          | error message => exact ⟨rfl, fun _ => trivial⟩
          | ok _ => trivial

theorem maintenance_issues (count : Nat) :
    Program.Issues (fun cmd => cmd.isRead = false) (maintenance count) := by
  induction count with
  | zero => trivial
  | succ count ih =>
      refine ⟨rfl, fun answer => ?_⟩
      cases answer with
      | error message => trivial
      | ok _ => exact ih

theorem wipe_issues : Program.Issues (fun cmd => cmd.isRead = false) wipe.run := by
  refine Fallible.issues_bind (transaction_issues wipeTx_loud) fun _ => ?_
  refine Fallible.issues_bind ?_ fun _ => ?_
  · exact Program.Issues.bind (maintenance_issues 3) fun _ => trivial
  · exact Program.Issues.bind (maintenance_issues 1) fun _ => trivial

theorem StoreOp.contains {op : StoreOp} (transactional : op.IsTransaction) (index : Nat)
    (message : String) {db : Db} (refs : RefsExact db) :
    Contains op.failed (op.program sha3) db index message := by
  cases op with
  | updateTimestamp _ _ | setPinned _ _ | getRowContent _ | getRowLocation _ =>
      exact transactional.elim
  | upsert now tie mime offer hash maxHistory =>
      have skipped : Contains (StoreOp.upsert now tie mime offer hash maxHistory).failed
          (pure (.ok .skipped)) db index message :=
        ⟨.ok .skipped, db, 0, rfl, .inl ⟨nofun, refs, .inr ⟨rfl, .ok .skipped, 0, rfl, rfl⟩⟩⟩
      have stored : Contains (StoreOp.upsert now tie mime offer hash maxHistory).failed
          (Y4p.upsert sha3 now tie tie mime offer.body hash maxHistory).run db index message := by
        refine transaction_contains (fun _ => rfl) (fun _ => rfl) refs ?_ fun _ _ =>
          upsertTx_endures refs
        intro outcome after calm
        obtain ⟨placed, places, _, _, rfl⟩ := calm_upsertTx calm
        exact (refs.places places).rotated tie maxHistory
      cases offer with
      | record data =>
          cases skips : isSkipped mime data.bytes.length with
          | true =>
              simp only [StoreOp.program, upsertRecord, skips, if_true]
              exact skipped
          | false =>
              simp only [StoreOp.program, upsertRecord, skips, Bool.false_eq_true, if_false]
              exact stored
      | detached len =>
          cases skips : isSkipped mime len.toNat with
          | true =>
              simp only [StoreOp.program, upsertDetached, skips, if_true]
              exact skipped
          | false =>
              simp only [StoreOp.program, upsertDetached, skips, Bool.false_eq_true, if_false]
              exact stored
  | deleteById id =>
      refine transaction_contains (fun _ => rfl) (fun _ => rfl) refs ?_ fun _ _ =>
        deleteTx_endures
      intro result after calm
      rw [(calm_deleteTx.mp calm).2]
      exact refs.dropped id
  | wipe =>
      have body : Contains StoreOp.wipe.failed (transaction wipeTx).run db index message := by
        refine transaction_contains (fun _ => rfl) (fun _ => rfl) refs ?_ fun _ _ fails =>
          (wipeTx_loud.fails fails).endured
        intro value after calm
        rw [calm_wipeTx.mp calm]
        exact .wiped
      obtain ⟨result, after, count, ran, cases⟩ := body
      have harmless := harmless_of_issues (transaction_issues wipeTx_loud) db index
        (Session.at db 0)
      obtain ⟨_, kept, ends⟩ := cases.resolve_right fun harmful => harmful.1 harmless
      obtain ⟨last, wiped⟩ := wipe_exec ran
      refine ⟨result, after, last, wiped, .inl ⟨harmless_of_issues wipe_issues db index _, kept, ?_⟩⟩
      rcases ends with same | ⟨succeeded, other, closed, calm, whole⟩
      · exact .inl same
      · obtain ⟨shrunk, effect⟩ := wipe_exec whole
        exact .inr ⟨succeeded, other, shrunk, calm, effect⟩

/-- An operation in which one command fails is all or nothing and keeps counts and references
exact, if and only if that command is no read that the operation needs. -/
theorem StoreOp.atomic_iff (op : StoreOp) (transactional : op.IsTransaction) (index : Nat)
    (message : String) (db : Db) (store : ChunkStore db) :
    op.Atomic sha3 index message db ∧ RefsExact (op.run sha3 (failOnly index message) db).2 ↔
      Harmless db (op.commands sha3 db) index :=
  StoreOp.atomic_of_contains sha3 (op.contains sha3 transactional index message store.toRefsExact)

end

def chunkedRow : Row where
  id := 1
  timestamp := 1000
  mime := "application/octet-stream".toList
  size := 4097
  preview := none
  content := .null
  hash := some (toHex (sampleSha3 sampleLong))
  isChunked := true

def chunkedDb : Db where
  clipboard := [chunkedRow]
  chunks := [{ hash := sampleSha3 sampleLong, data := sampleLong, refcount := 1 }]
  manifest := [{ clipboardId := 1, seq := 0, chunkHash := sampleSha3 sampleLong }]
  sequence := 1
  idsUnique := by simp
  idsIssued := by simp [chunkedRow]
  sequenceNonneg := by decide
  hashesUnique := by simp [chunkedRow]
  chunkKeysUnique := by simp
  manifestKeysUnique := by simp

theorem chunkedDb_manifestOf : chunkedDb.manifestOf 1 =
    [{ clipboardId := 1, seq := 0, chunkHash := sampleSha3 sampleLong }] := by
  simp [Db.manifestOf, chunkedDb]

theorem chunkedDb_store : ChunkStore chunkedDb where
  counted := by simp [chunkedDb, uses]
  chunkExists := by simp [chunkedDb]
  rowExists := by simp [chunkedDb, chunkedRow]
  numbered := by
    intro row member _
    rw [List.mem_singleton.mp member]
    refine ⟨rfl, 1, ?_⟩
    change ((chunkedDb.manifestOf 1).map ManifestEntry.seq).Perm (List.range 1)
    rw [chunkedDb_manifestOf]
    exact List.Perm.refl _
  inline := by
    intro row member inline
    rw [List.mem_singleton.mp member] at inline
    simp [chunkedRow] at inline
  measured := by
    intro row member _
    rw [List.mem_singleton.mp member]
    change ((((chunkData chunkedDb 1).map List.length).sum : Nat) : Int) = 4097
    have pieces : chunkData chunkedDb 1 = [sampleLong] := by
      rw [chunkData, chunkedDb_manifestOf]
      simp [chunkedDb]
    rw [pieces]
    simp only [List.map_cons, List.map_nil, List.sum_cons, List.sum_nil, sampleLong,
      List.length_replicate]
    rfl

theorem StoreOp.atomic_iff_sample :
    (StoreOp.deleteById 1).Atomic sampleSha3 2 "disk I/O error" chunkedDb ∧
        RefsExact ((StoreOp.deleteById 1).run sampleSha3 (failOnly 2 "disk I/O error") chunkedDb).2 ↔
      Harmless chunkedDb ((StoreOp.deleteById 1).commands sampleSha3 chunkedDb) 2 :=
  StoreOp.atomic_iff sampleSha3 (.deleteById 1) trivial 2 "disk I/O error" chunkedDb chunkedDb_store

/-- The lookup of `delete_by_id` fails: the row goes and its chunks stay. -/
theorem StoreOp.deleteById_orphans :
    ChunkStore chunkedDb ∧
      ¬ ((StoreOp.deleteById 1).Atomic sampleSha3 1 "disk I/O error" chunkedDb ∧
        RefsExact ((StoreOp.deleteById 1).run sampleSha3 (failOnly 1 "disk I/O error")
          chunkedDb).2) := by
  refine ⟨chunkedDb_store, ?_⟩
  have contains := (StoreOp.deleteById 1).contains sampleSha3 trivial 1 "disk I/O error"
    chunkedDb_store.toRefsExact
  rw [StoreOp.atomic_of_contains sampleSha3 contains]
  intro harmless
  refine harmless (.selectForDelete 1) rfl ?_
  change chunkedDb.manifestOf 1 ≠ []
  rw [chunkedDb_manifestOf]
  simp

end Y4p
