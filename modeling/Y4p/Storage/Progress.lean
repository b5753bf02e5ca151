import Y4p.Storage.Atomicity

/-!
An operation fails only where one of its own commands did: the tables never make a statement fail.
-/

namespace Y4p

open Programs

section
variable (sha3 : Bytes → Bytes)

theorem storeChunk_total {id : Int} {seq : Nat} (piece : Bytes) {db : Db}
    (free : (id, seq) ∉ db.manifest.map ManifestEntry.key) :
    ∃ after, Calm (storeChunk sha3 id seq piece) db () after ∧
      after.manifest.map ManifestEntry.key = db.manifest.map ManifestEntry.key ++ [(id, seq)] := by
  have counted : ∃ middle, Calm (onlyIf
      ((db.chunks.filter fun chunk => chunk.hash = sha3 piece).length = 0)
      (execute (.addChunk (sha3 piece) piece))) (db.reuseChunk (sha3 piece)) () middle ∧
        middle.manifest = db.manifest := by
    by_cases fresh : (db.chunks.filter fun chunk => chunk.hash = sha3 piece).length = 0
    · have absent : sha3 piece ∉ (db.reuseChunk (sha3 piece)).chunks.map Chunk.hash := by
        have known := (reuseChunk_affected db (sha3 piece)).mp fresh
        change sha3 piece ∉ (db.chunks.map (Chunk.reuse (sha3 piece))).map Chunk.hash
        rw [reuse_absent known]
        exact known
      have added : Calm (execute (.addChunk (sha3 piece) piece)) (db.reuseChunk (sha3 piece)) ()
          ((db.reuseChunk (sha3 piece)).insertChunk
            { hash := sha3 piece, data := piece, refcount := 1 } absent) := by
        refine calm_execute.mpr ?_
        simp only [Stmt.run, dif_pos absent]
      exact ⟨_, calm_onlyIf.mpr (.inl ⟨fresh, added⟩), rfl⟩
    · exact ⟨_, calm_onlyIf.mpr (.inr ⟨fresh, rfl⟩), rfl⟩
  obtain ⟨middle, counts, same⟩ := counted
  have unlinked : (id, seq) ∉ middle.manifest.map ManifestEntry.key := by
    rw [same]
    exact free
  refine ⟨middle.insertEntry { clipboardId := id, seq := seq, chunkHash := sha3 piece } unlinked,
    calm_bind.mpr ⟨_, _, rfl, calm_bind.mpr ⟨(), middle, counts, calm_execute.mpr ?_⟩⟩, ?_⟩
  · simp only [Stmt.run, dif_pos unlinked]
  · change (middle.manifest ++ [_]).map ManifestEntry.key = _
    rw [List.map_append, same]
    rfl

theorem storeChunksFrom_total {id : Int} {seq : Nat} (pieces : List Bytes) {db : Db}
    (free : ∀ later, seq ≤ later → (id, later) ∉ db.manifest.map ManifestEntry.key) :
    ∃ after, Calm (storeChunksFrom sha3 id seq pieces) db () after := by
  induction pieces generalizing seq db with
  | nil => exact ⟨db, rfl⟩
  | cons piece rest ih =>
      obtain ⟨middle, stored, keys⟩ :=
        storeChunk_total sha3 piece (free seq (Nat.le_refl seq))
      have freeLater : ∀ later, seq + 1 ≤ later →
          (id, later) ∉ middle.manifest.map ManifestEntry.key := by
        intro later beyond
        rw [keys, List.mem_append, not_or]
        refine ⟨free later (by omega), ?_⟩
        simp only [List.mem_singleton, Prod.mk.injEq, true_and]
        omega
      obtain ⟨after, others⟩ := ih freeLater
      exact ⟨after, calm_bind.mpr ⟨(), middle, stored, others⟩⟩

theorem insertRow_total {now : Int} {mime hash : Str} {body : Body} {db : Db}
    (refs : RefsExact db) (absent : db.rowByHash hash = none) :
    ∃ id after, Calm (insertRow sha3 now mime body hash) db id after := by
  have free : db.HashFree (newRow now mime body hash).hash := Db.hashFree_of_rowByHash absent
  have inserted : Calm (execute (.insertClipboard (newRow now mime body hash))) db
      (db.sequence + 1) (db.insertRow _ free) := by
    refine calm_execute.mpr ?_
    simp only [Stmt.run, dif_pos free]
  cases content : (body.parts mime).2 with
  | chunked data =>
      have unlinked : ∀ later, 0 ≤ later → (db.sequence + 1, later) ∉
          (db.insertRow _ free).manifest.map ManifestEntry.key := by
        intro later _ linked
        obtain ⟨entry, member, key⟩ := List.mem_map.mp linked
        have named : entry.clipboardId = db.sequence + 1 := congrArg Prod.fst key
        have empty := refs.manifestOf_unissued (show db.sequence < db.sequence + 1 by omega)
        have listed : entry ∈ db.manifestOf (db.sequence + 1) := by
          simp only [Db.manifestOf, List.mem_filter, decide_eq_true_eq]
          exact ⟨member, named⟩
        rw [empty] at listed
        cases listed
      obtain ⟨after, stored⟩ := storeChunksFrom_total sha3 (fastCdc data) unlinked
      refine ⟨db.sequence + 1, after, calm_bind.mpr ⟨_, _, inserted, ?_⟩⟩
      rw [content]
      exact calm_bind.mpr ⟨(), after, (calm_storeChunks sha3).mpr stored, rfl⟩
  | text bytes | blob bytes | none =>
      refine ⟨db.sequence + 1, db.insertRow _ free, calm_bind.mpr ⟨_, _, inserted, ?_⟩⟩
      rw [content]
      rfl

theorem upsertTx_total {now : Int} {tie : TieOrder} {mime hash : Str} {body : Body}
    {maxHistory : UInt64} {db : Db} (refs : RefsExact db) :
    ∃ outcome after,
      Calm (upsertTx sha3 now tie tie mime body hash maxHistory) db outcome after := by
  have placed : ∃ id after, Calm (touchOrInsert sha3 now mime body hash) db id after := by
    cases present : db.rowByHash hash with
    | some row =>
        refine ⟨row.id, db.touch now row.id, calm_bind.mpr ⟨some row.id, db, ?_, ?_⟩⟩
        · refine calm_attempt.mpr ?_
          simp only [Stmt.run, present]
          exact ⟨rfl, trivial⟩
        · exact calm_bind.mpr ⟨_, _, rfl, rfl⟩
    | none =>
        obtain ⟨id, after, inserted⟩ := insertRow_total sha3 refs present
        refine ⟨id, after, calm_bind.mpr ⟨none, db, ?_, inserted⟩⟩
        refine calm_attempt.mpr ?_
        simp only [Stmt.run, present]
        exact ⟨rfl, trivial⟩
  obtain ⟨id, middle, placed⟩ := placed
  have ran : Calm (upsertTx sha3 now tie tie mime body hash maxHistory) db
      { realId := id, isImage := isCacheClass mime,
        expiredHashes := (expiring tie maxHistory middle).filterMap Expiring.hash }
      (middle.rotated tie tie maxHistory) :=
    calm_bind.mpr ⟨id, middle, placed, calm_bind.mpr ⟨_, _, calm_rotate.mpr ⟨rfl, rfl⟩, rfl⟩⟩
  exact ⟨_, _, ran⟩

/-- No statement of an operation meets a row, a chunk or an entry that it would duplicate. -/
theorem StoreOp.succeeds (op : StoreOp) {db : Db} (refs : RefsExact db) :
    op.failed (op.run sha3 noFaults db).1 = false := by
  cases op with
  | upsert now tie mime offer hash maxHistory =>
      have ended : ∃ outcome after count, Program.exec (Cmd.step noFaults)
          (if isSkipped mime offer.body.len then pure .skipped
            else Y4p.upsert sha3 now tie tie mime offer.body hash maxHistory :
            Query UpsertOutcome).run (Session.at db 0) = (.ok outcome, Session.at after count) := by
        split
        · exact ⟨.skipped, db, 0, rfl⟩
        · obtain ⟨outcome, after, calm⟩ := @upsertTx_total sha3 now tie mime hash offer.body
            maxHistory db refs
          obtain ⟨count, ran⟩ := transaction_calm calm
          exact ⟨outcome, after, count, ran⟩
      obtain ⟨outcome, after, count, ran⟩ := ended
      rw [StoreOp.run_eq sha3 (.upsert now tie mime offer hash maxHistory)
        (by cases offer <;> exact ran)]
      rfl
  | updateTimestamp now id => rfl
  | setPinned id isPinned => rfl
  | deleteById id =>
      have calm : Calm (deleteTx id) db _ _ := calm_deleteTx.mpr ⟨rfl, rfl⟩
      obtain ⟨count, ran⟩ := transaction_calm calm
      rw [StoreOp.run_eq sha3 (.deleteById id) ran]
      rfl
  | wipe =>
      have calm : Calm wipeTx db () _ := calm_wipeTx.mpr rfl
      obtain ⟨count, ran⟩ := transaction_calm calm
      obtain ⟨last, ended⟩ := wipe_exec ran
      rw [StoreOp.run_eq sha3 .wipe ended]
      rfl
  | getRowContent id => rfl
  | getRowLocation id => rfl

end

/-- A run in which no command fails is the run in which none could. -/
theorem exec_uninterrupted {α : Type} {faults : Faults} {program : Program Cmd Cmd.Answer α}
    {session : Session} (calm : ¬ Interrupted faults program session) :
    Program.exec (Cmd.step faults) program session =
      Program.exec (Cmd.step noFaults) program session := by
  induction program generalizing session with
  | ret value => rfl
  | call cmd next ih =>
      have passed : faults.hit session.issued cmd = none := by
        by_contra hit
        exact calm ⟨(cmd, session), List.mem_cons_self, Option.isSome_iff_ne_none.mpr hit⟩
      have same : Cmd.step faults cmd session = Cmd.step noFaults cmd session := by
        have spared : Faults.hit noFaults session.issued cmd = none := by cases cmd <;> rfl
        simp only [Cmd.step, passed, spared]
      have later : ¬ Interrupted faults (next (Cmd.step faults cmd session).1)
          (Cmd.step faults cmd session).2 := by
        rintro ⟨issued, member, failed⟩
        exact calm ⟨issued, List.mem_cons_of_mem _ member, failed⟩
      rw [Program.exec_call, Program.exec_call, ih _ later, same]

/-- An operation returns an error only where one of its own commands failed. -/
theorem StoreOp.interrupted_of_failed {sha3 : Bytes → Bytes} {op : StoreOp} {faults : Faults}
    {db : Db} (refs : RefsExact db) (failed : op.failed (op.run sha3 faults db).1 = true) :
    Interrupted faults (op.program sha3) (Session.at db 0) := by
  by_contra calm
  have same : op.run sha3 faults db = op.run sha3 noFaults db := by
    rw [StoreOp.run, exec_uninterrupted calm]
    rfl
  rw [same, op.succeeds sha3 refs] at failed
  cases failed

end Y4p
