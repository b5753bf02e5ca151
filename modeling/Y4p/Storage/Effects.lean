import Y4p.Storage.Transaction

/-!
What each transaction body of the store makes of the three tables when nothing
fails.
-/

namespace Y4p

open Programs

theorem calm_pure {α : Type} {value result : α} {db after : Db} :
    Calm (pure value) db result after ↔ value = result ∧ db = after := by
  change ((Except.ok value, db) = (Except.ok result, after)) ↔ _
  simp

theorem calm_bind {α β : Type} {body : Tx α} {rest : α → Tx β} {db after : Db} {result : β} :
    Calm (body >>= rest) db result after ↔
      ∃ value middle, Calm body db value middle ∧ Calm (rest value) middle result after := by
  constructor
  · exact Fallible.Runs.of_bind Stmt.run
  · rintro ⟨value, middle, first, second⟩
    exact Fallible.Runs.bind Stmt.run first second

/-- A statement that cannot fail runs in exactly one way. -/
theorem calm_execute_total {stmt : Stmt} {db next after : Db} {answer result : stmt.Result}
    (ran : stmt.run db = (.ok answer, next)) :
    Calm (execute stmt) db result after ↔ result = answer ∧ after = next := by
  rw [calm_execute, ran]
  simp [eq_comm]

namespace Db

def release (db : Db) (id : Int) : Db :=
  ((db.dropReferences id).deleteUnreferenced id).deleteManifestOf id

def releaseRow (db : Db) (row : Expiring) : Db :=
  if row.isChunked then db.release row.id else db

def releaseRows (db : Db) (rows : List Expiring) : Db :=
  rows.foldl releaseRow db

@[simp] theorem release_clipboard (db : Db) (id : Int) :
    (db.release id).clipboard = db.clipboard := rfl

@[simp] theorem release_sequence (db : Db) (id : Int) :
    (db.release id).sequence = db.sequence := rfl

theorem release_manifest (db : Db) (id : Int) :
    (db.release id).manifest =
      db.manifest.filter fun entry => !decide (entry.clipboardId = id) := rfl

@[simp] theorem releaseRow_clipboard (db : Db) (row : Expiring) :
    (db.releaseRow row).clipboard = db.clipboard := by
  unfold releaseRow
  split <;> rfl

@[simp] theorem releaseRow_sequence (db : Db) (row : Expiring) :
    (db.releaseRow row).sequence = db.sequence := by
  unfold releaseRow
  split <;> rfl

@[simp] theorem releaseRows_clipboard (db : Db) (rows : List Expiring) :
    (db.releaseRows rows).clipboard = db.clipboard := by
  induction rows generalizing db with
  | nil => rfl
  | cons row rest ih => exact (ih _).trans (releaseRow_clipboard db row)

@[simp] theorem releaseRows_sequence (db : Db) (rows : List Expiring) :
    (db.releaseRows rows).sequence = db.sequence := by
  induction rows generalizing db with
  | nil => rfl
  | cons row rest ih => exact (ih _).trans (releaseRow_sequence db row)

end Db

theorem calm_releaseChunks {id : Int} {db after : Db} :
    Calm (releaseChunks id) db () after ↔ after = db.release id := by
  have runs : Calm (releaseChunks id) db () (db.release id) :=
    calm_bind.mpr ⟨(), _, rfl, calm_bind.mpr ⟨(), _, rfl, rfl⟩⟩
  exact (calm_iff runs).trans (and_iff_right rfl)

theorem calm_releaseAll {rows : List Expiring} {db after : Db} :
    Calm (releaseAll rows) db () after ↔ after = db.releaseRows rows := by
  induction rows generalizing db with
  | nil =>
      change Calm (pure ()) db () after ↔ after = db
      simp [calm_pure, eq_comm]
  | cons row rest ih =>
      change Calm (onlyIf row.isChunked (releaseChunks row.id) >>= fun _ => releaseAll rest)
        db () after ↔ after = (db.releaseRow row).releaseRows rest
      have first : ∀ middle, Calm (onlyIf row.isChunked (releaseChunks row.id)) db () middle ↔
          middle = db.releaseRow row := by
        intro middle
        rw [calm_onlyIf, calm_releaseChunks, Db.releaseRow]
        split
        · rename_i chunked
          simp [chunked]
        · rename_i inline
          simp [inline]
      rw [calm_bind]
      constructor
      · rintro ⟨_, middle, released, remaining⟩
        rw [(first middle).mp released] at remaining
        exact ih.mp remaining
      · intro shape
        exact ⟨(), _, (first _).mpr rfl, ih.mpr shape⟩

theorem calm_fetchAll {rows fetched : List Expiring} {db after : Db} :
    Calm (fetchAll rows) db fetched after ↔ fetched = rows ∧ after = db := by
  have runs : ∀ rows, Calm (fetchAll rows) db rows db := by
    intro rows
    induction rows with
    | nil => exact rfl
    | cons row rest ih =>
        exact calm_bind.mpr ⟨some (), db, rfl, calm_bind.mpr ⟨rest, db, ih, rfl⟩⟩
  exact calm_iff (runs rows)

-- `max_history as i64`, read by SQLite as an OFFSET.
def quota (maxHistory : UInt64) : Int :=
  asI64 maxHistory.toNat

theorem quota_toNat (maxHistory : UInt64) :
    (quota maxHistory).toNat = if maxHistory.toNat < 2 ^ 63 then maxHistory.toNat else 0 := by
  have bound : maxHistory.toNat < 2 ^ 64 := maxHistory.toNat_lt
  rw [quota, asI64, Nat.mod_eq_of_lt bound]
  split
  · rfl
  · omega

theorem expired_congr {tie : TieOrder} {offset : Int} {db other : Db}
    (same : db.clipboard = other.clipboard) : expired tie offset db = expired tie offset other := by
  rw [expired, unpinned, same]
  rfl

def expiring (tie : TieOrder) (maxHistory : UInt64) (db : Db) : List Expiring :=
  (expired tie (quota maxHistory) db).map Row.expiring

def Db.rotated (db : Db) (fetchTie deleteTie : TieOrder) (maxHistory : UInt64) : Db :=
  (db.releaseRows (expiring fetchTie maxHistory db)).deleteExpired deleteTie (quota maxHistory)

theorem calm_rotate {fetchTie deleteTie : TieOrder} {maxHistory : UInt64} {db after : Db}
    {hashes : List Str} :
    Calm (rotate fetchTie deleteTie maxHistory) db hashes after ↔
      hashes = (expiring fetchTie maxHistory db).filterMap Expiring.hash ∧
        after = db.rotated fetchTie deleteTie maxHistory := by
  have runs : Calm (rotate fetchTie deleteTie maxHistory) db
      ((expiring fetchTie maxHistory db).filterMap Expiring.hash)
      (db.rotated fetchTie deleteTie maxHistory) :=
    calm_bind.mpr ⟨_, _, rfl, calm_bind.mpr ⟨_, _, calm_fetchAll.mpr ⟨rfl, rfl⟩,
      calm_bind.mpr ⟨_, _, calm_releaseAll.mpr rfl, calm_bind.mpr ⟨(), _, rfl, rfl⟩⟩⟩⟩
  exact calm_iff runs

theorem rotated_clipboard (db : Db) (fetchTie deleteTie : TieOrder) (maxHistory : UInt64) :
    (db.rotated fetchTie deleteTie maxHistory).clipboard =
      db.clipboard.filter fun row =>
        !decide (row.id ∈ (expired deleteTie (quota maxHistory) db).map Row.id) := by
  have same : expired deleteTie (quota maxHistory)
      (db.releaseRows (expiring fetchTie maxHistory db)) =
      expired deleteTie (quota maxHistory) db := expired_congr (Db.releaseRows_clipboard db _)
  change ((db.releaseRows (expiring fetchTie maxHistory db)).clipboard.filter fun row =>
    !decide (row.id ∈ (expired deleteTie (quota maxHistory)
      (db.releaseRows (expiring fetchTie maxHistory db))).map Row.id)) = _
  rw [same, Db.releaseRows_clipboard]

@[simp] theorem rotated_sequence (db : Db) (fetchTie deleteTie : TieOrder)
    (maxHistory : UInt64) :
    (db.rotated fetchTie deleteTie maxHistory).sequence = db.sequence :=
  Db.releaseRows_sequence db _

def countChunk (digest data : Bytes) (chunks : List Chunk) : List Chunk :=
  if digest ∈ chunks.map Chunk.hash then chunks.map (Chunk.reuse digest)
  else chunks ++ [{ hash := digest, data := data, refcount := 1 }]

section
variable (sha3 : Bytes → Bytes)

structure StoresChunk (db : Db) (id : Int) (seq : Nat) (piece : Bytes) (after : Db) : Prop where
  clipboard : after.clipboard = db.clipboard
  sequence : after.sequence = db.sequence
  chunks : after.chunks = countChunk (sha3 piece) piece db.chunks
  manifest : after.manifest =
    db.manifest ++ [{ clipboardId := id, seq := seq, chunkHash := sha3 piece }]

inductive StoresFrom (id : Int) : Db → Nat → List Bytes → Db → Prop
  | nil {db seq} : StoresFrom id db seq [] db
  | cons {db seq piece rest middle after} : StoresChunk sha3 db id seq piece middle →
      StoresFrom id middle (seq + 1) rest after → StoresFrom id db seq (piece :: rest) after

theorem reuseChunk_affected (db : Db) (digest : Bytes) :
    (db.chunks.filter fun chunk => chunk.hash = digest).length = 0 ↔
      digest ∉ db.chunks.map Chunk.hash := by
  simp [List.filter_eq_nil_iff]

theorem reuse_absent {chunks : List Chunk} {digest : Bytes}
    (absent : digest ∉ chunks.map Chunk.hash) : chunks.map (Chunk.reuse digest) = chunks := by
  conv_rhs => rw [← List.map_id chunks]
  apply List.map_congr_left
  intro chunk member
  have differs : chunk.hash ≠ digest := fun same =>
    absent (List.mem_map.mpr ⟨chunk, member, same⟩)
  simp [Chunk.reuse, differs]

theorem calm_storeChunk {id : Int} {seq : Nat} {piece : Bytes} {db after : Db}
    (ran : Calm (storeChunk sha3 id seq piece) db () after) :
    StoresChunk sha3 db id seq piece after := by
  obtain ⟨reused, counted, first, remaining⟩ := calm_bind.mp ran
  obtain ⟨rfl, rfl⟩ := (calm_execute_total rfl).mp first
  obtain ⟨_, added, second, third⟩ := calm_bind.mp remaining
  have linked := calm_execute.mp third
  simp only [Stmt.run] at linked
  split at linked
  · simp only [Prod.mk.injEq, true_and] at linked
    subst linked
    rcases calm_onlyIf.mp second with ⟨fresh, ran⟩ | ⟨known, rfl⟩
    · have absent := (reuseChunk_affected db (sha3 piece)).mp fresh
      have inserted := calm_execute.mp ran
      simp only [Stmt.run] at inserted
      split at inserted
      · simp only [Prod.mk.injEq, true_and] at inserted
        subst inserted
        refine ⟨rfl, rfl, ?_, rfl⟩
        change db.chunks.map (Chunk.reuse (sha3 piece)) ++ _ = _
        rw [reuse_absent absent, countChunk, if_neg absent]
      · simp at inserted
    · have present : sha3 piece ∈ db.chunks.map Chunk.hash := by
        by_contra absent
        exact known ((reuseChunk_affected db (sha3 piece)).mpr absent)
      refine ⟨rfl, rfl, ?_, rfl⟩
      change db.chunks.map (Chunk.reuse (sha3 piece)) = _
      rw [countChunk, if_pos present]
  · simp at linked

theorem calm_storeChunksFrom {id : Int} {seq : Nat} {pieces : List Bytes} {db after : Db}
    (ran : Calm (storeChunksFrom sha3 id seq pieces) db () after) :
    StoresFrom sha3 id db seq pieces after := by
  induction pieces generalizing db seq with
  | nil =>
      obtain ⟨_, rfl⟩ := calm_pure.mp ran
      exact .nil
  | cons piece rest ih =>
      obtain ⟨_, middle, first, second⟩ := calm_bind.mp ran
      exact .cons (calm_storeChunk sha3 first) (ih second)

theorem calm_storeChunks {id : Int} {data : Bytes} {db after : Db} :
    Calm (storeChunks sha3 id data) db () after ↔
      Calm (storeChunksFrom sha3 id 0 (fastCdc data)) db () after := by
  constructor
  · intro ran
    obtain ⟨_, _, first, ran⟩ := calm_bind.mp ran
    obtain ⟨_, _, second, ran⟩ := calm_bind.mp ran
    obtain ⟨_, _, third, ran⟩ := calm_bind.mp ran
    obtain ⟨_, rfl⟩ := (calm_execute_total rfl).mp first
    obtain ⟨_, rfl⟩ := (calm_execute_total rfl).mp second
    obtain ⟨_, rfl⟩ := (calm_execute_total rfl).mp third
    exact ran
  · intro ran
    exact calm_bind.mpr ⟨(), db, rfl, calm_bind.mpr ⟨(), db, rfl,
      calm_bind.mpr ⟨(), db, rfl, ran⟩⟩⟩

def insertedRow (db : Db) (now : Int) (mime : Str) (body : Body) (hash : Str) : Row :=
  { newRow now mime body hash with id := db.sequence + 1 }

def Db.insertNew (db : Db) (now : Int) (mime : Str) (body : Body) (hash : Str)
    (absent : db.rowByHash hash = none) : Db :=
  db.insertRow (newRow now mime body hash) (Db.hashFree_of_rowByHash absent)

-- The two ways a payload gets its row: a touch of the row that has its hash, or a new row.
inductive Places (db : Db) (now : Int) (mime : Str) (body : Body) (hash : Str) :
    Int → Db → Prop
  | touched {row} : db.rowByHash hash = some row →
      Places db now mime body hash row.id (db.touch now row.id)
  | inserted (absent : db.rowByHash hash = none) :
      (body.parts mime).2.isChunked = false →
      Places db now mime body hash (db.sequence + 1) (db.insertNew now mime body hash absent)
  | chunked {data after} (absent : db.rowByHash hash = none) :
      (body.parts mime).2 = .chunked data →
      StoresFrom sha3 (db.sequence + 1) (db.insertNew now mime body hash absent) 0
        (fastCdc data) after →
      Places db now mime body hash (db.sequence + 1) after

theorem calm_insertRow {now id : Int} {mime hash : Str} {body : Body} {db after : Db}
    (absent : db.rowByHash hash = none)
    (ran : Calm (insertRow sha3 now mime body hash) db id after) :
    Places sha3 db now mime body hash id after := by
  obtain ⟨issued, middle, first, second⟩ := calm_bind.mp ran
  have inserted := calm_execute.mp first
  simp only [Stmt.run] at inserted
  split at inserted
  · simp only [Prod.mk.injEq, Except.ok.injEq] at inserted
    obtain ⟨rfl, rfl⟩ := inserted
    cases content : (body.parts mime).2 with
    | chunked data =>
        rw [content] at second
        obtain ⟨_, stored, third, fourth⟩ := calm_bind.mp second
        obtain ⟨rfl, rfl⟩ := calm_pure.mp fourth
        exact .chunked absent content
          (calm_storeChunksFrom sha3 ((calm_storeChunks sha3).mp third))
    | text bytes | blob bytes | none =>
        rw [content] at second
        obtain ⟨rfl, rfl⟩ := calm_pure.mp second
        exact .inserted absent (by rw [content]; rfl)
  · simp at inserted

theorem calm_touchOrInsert {now id : Int} {mime hash : Str} {body : Body} {db after : Db}
    (ran : Calm (touchOrInsert sha3 now mime body hash) db id after) :
    Places sha3 db now mime body hash id after := by
  obtain ⟨answer, middle, first, second⟩ := calm_bind.mp ran
  obtain ⟨found, rfl⟩ := calm_attempt.mp first
  cases present : db.rowByHash hash with
  | some row =>
      have answered : answer = some row.id := by
        rw [← found]
        simp only [Stmt.run, present]
        rfl
      have same : (Stmt.run (.selectByHash hash) db).2 = db := by simp only [Stmt.run, present]
      rw [answered, same] at second
      obtain ⟨_, _, touched, named⟩ := calm_bind.mp second
      obtain ⟨_, rfl⟩ := (calm_execute_total rfl).mp touched
      obtain ⟨rfl, rfl⟩ := calm_pure.mp named
      exact .touched present
  | none =>
      have answered : answer = none := by
        rw [← found]
        simp only [Stmt.run, present]
        rfl
      have same : (Stmt.run (.selectByHash hash) db).2 = db := by simp only [Stmt.run, present]
      rw [answered, same] at second
      exact calm_insertRow sha3 present second

theorem StoresFrom.rows {id : Int} {seq : Nat} {pieces : List Bytes} {db after : Db}
    (stores : StoresFrom sha3 id db seq pieces after) :
    after.clipboard = db.clipboard ∧ after.sequence = db.sequence := by
  induction stores with
  | nil => exact ⟨rfl, rfl⟩
  | cons first _ ih => exact ⟨ih.1.trans first.clipboard, ih.2.trans first.sequence⟩

end

def placedRows (db : Db) (now : Int) (mime : Str) (body : Body) (hash : Str) : List Row :=
  match db.rowByHash hash with
  | some row => db.clipboard.map (Row.touch now row.id)
  | none => db.clipboard ++ [insertedRow db now mime body hash]

def placedId (db : Db) (hash : Str) : Int :=
  match db.rowByHash hash with
  | some row => row.id
  | none => db.sequence + 1

section
variable {sha3 : Bytes → Bytes} {db placed after : Db} {now id : Int} {mime hash : Str}
  {body : Body}

theorem Places.clipboard (places : Places sha3 db now mime body hash id placed) :
    placed.clipboard = placedRows db now mime body hash := by
  cases places with
  | touched found =>
      rw [placedRows, found]
      rfl
  | inserted absent _ =>
      rw [placedRows, absent]
      rfl
  | chunked absent _ stores =>
      rw [stores.rows.1, placedRows, absent]
      rfl

theorem Places.id_eq (places : Places sha3 db now mime body hash id placed) :
    id = placedId db hash := by
  cases places with
  | touched found => rw [placedId, found]
  | inserted absent _ => rw [placedId, absent]
  | chunked absent _ _ => rw [placedId, absent]

theorem calm_upsertTx {fetchTie deleteTie : TieOrder} {maxHistory : UInt64}
    {outcome : UpsertOutcome}
    (ran : Calm (upsertTx sha3 now fetchTie deleteTie mime body hash maxHistory) db
      outcome after) :
    ∃ placed, Places sha3 db now mime body hash outcome.realId placed ∧
      outcome.isImage = isCacheClass mime ∧
      outcome.expiredHashes = (expiring fetchTie maxHistory placed).filterMap Expiring.hash ∧
      after = placed.rotated fetchTie deleteTie maxHistory := by
  obtain ⟨realId, placed, first, second⟩ := calm_bind.mp ran
  obtain ⟨hashes, rotated, third, fourth⟩ := calm_bind.mp second
  obtain ⟨rfl, rfl⟩ := calm_rotate.mp third
  obtain ⟨rfl, rfl⟩ := calm_pure.mp fourth
  exact ⟨placed, calm_touchOrInsert sha3 first, rfl, rfl, rfl⟩

end

def Db.dropped (db : Db) (id : Int) : Db :=
  match db.rowById id with
  | some row => (db.releaseRow row.expiring).deleteRow id
  | none => db.deleteRow id

theorem rows_affected {db : Db} {id : Int} :
    decide (0 < (db.clipboard.filter fun row => row.id = id).length) = (db.rowById id).isSome := by
  cases found : db.rowById id with
  | none =>
      have absent := Db.rowById_eq_none.mp found
      simpa [List.filter_eq_nil_iff] using absent
  | some row =>
      obtain ⟨present, named⟩ := Db.rowById_eq_some.mp found
      have member : row ∈ db.clipboard.filter fun row => row.id = id := by
        simp [present, named]
      simpa using List.length_pos_of_mem member

theorem calm_deleteRow {id : Int} {hash : Option Str} {db after : Db} {result : Bool × Option Str} :
    Calm (do
        let deleted : Nat ← execute (.deleteRow id)
        pure (decide (0 < deleted), hash)) db result after ↔
      result = ((db.rowById id).isSome, hash) ∧ after = db.deleteRow id := by
  have runs : Calm (do
      let deleted : Nat ← execute (.deleteRow id)
      pure (decide (0 < deleted), hash)) db ((db.rowById id).isSome, hash) (db.deleteRow id) := by
    rw [← rows_affected]
    exact calm_bind.mpr ⟨_, _, rfl, rfl⟩
  exact calm_iff runs

theorem calm_deleteTx {id : Int} {db after : Db} {result : Bool × Option Str} :
    Calm (deleteTx id) db result after ↔
      result = ((db.rowById id).isSome, (db.rowById id).bind fun row => row.hash) ∧
        after = db.dropped id := by
  have runs : Calm (deleteTx id) db
      ((db.rowById id).isSome, (db.rowById id).bind fun row => row.hash) (db.dropped id) := by
    cases found : db.rowById id with
    | none =>
        have lookup : Calm (attempt (.selectForDelete id)) db none db := by
          rw [calm_attempt]
          simp only [Stmt.run, found]
          exact ⟨rfl, trivial⟩
        refine calm_bind.mpr ⟨none, db, lookup, calm_bind.mpr ⟨(), db, rfl, ?_⟩⟩
        refine calm_deleteRow.mpr ⟨by rw [found]; rfl, ?_⟩
        rw [Db.dropped, found]
    | some row =>
        have lookup : Calm (attempt (.selectForDelete id)) db
            (some (row.hash, row.isChunked)) db := by
          rw [calm_attempt]
          simp only [Stmt.run, found]
          exact ⟨rfl, trivial⟩
        have released : Calm (onlyIf row.isChunked (releaseChunks id)) db ()
            (db.releaseRow row.expiring) := by
          obtain ⟨_, named⟩ := Db.rowById_eq_some.mp found
          rw [calm_onlyIf, calm_releaseChunks, Db.releaseRow]
          simp only [Row.expiring, named]
          split
          · rename_i chunked
            simp [chunked]
          · rename_i inline
            simp [inline]
        refine calm_bind.mpr ⟨_, db, lookup, calm_bind.mpr ⟨(), _, released, ?_⟩⟩
        refine calm_deleteRow.mpr ⟨?_, by rw [Db.dropped, found]⟩
        rw [Db.rowById, Db.releaseRow_clipboard]
        change _ = ((db.rowById id).isSome, _)
        rw [found]
        rfl
  exact calm_iff runs

def Db.wiped (db : Db) : Db :=
  ((db.deleteEntries fun _ => true).deleteChunks fun _ => true).deleteRows fun _ => true

theorem calm_wipeTx {db after : Db} : Calm wipeTx db () after ↔ after = db.wiped := by
  have runs : Calm wipeTx db () db.wiped :=
    calm_bind.mpr ⟨(), _, rfl, calm_bind.mpr ⟨(), _, rfl, rfl⟩⟩
  exact (calm_iff runs).trans (and_iff_right rfl)

end Y4p
