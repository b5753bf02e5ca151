import Y4p.Storage.Session

/-!
Sessions in which no file-system call fails: every row returns the payload it was
inserted with, and the cache directory holds exactly the files of the rows.
-/

namespace Y4p

open Programs

-- Transactions may still fail.
def Environment.reliable (sql : Nat → WriteFaults) : Environment where
  sql := sql
  io _ _ := none

section
variable {sha3 : Bytes → Bytes}

theorem tolerable_none : Tolerable fun _ _ _ => False where
  places := fun _ _ _ => False.elim
  whole := fun _ _ _ _ => False.elim

theorem reliable_settled {sql : Nat → WriteFaults} {pool : Set Bytes}
    (noCollision : Set.InjOn sha3 pool) {ops : List FacadeOp}
    {payload : Int → Bytes} {state : World × Nat}
    (settled : Settled sha3 pool payload True state.1)
    (kept : ∀ op ∈ ops, ∀ data, op.payload = some data → Pooled pool data) :
    ∃ payload',
      Settled sha3 pool payload' True
        (Program.exec (Call.step sha3 (.reliable sql)) (session sha3 ops) state).2.1 ∧
      state.1.db.sequence ≤
        (Program.exec (Call.step sha3 (.reliable sql)) (session sha3 ops) state).2.1.db.sequence ∧
      ∀ id ≤ state.1.db.sequence, payload' id = payload id := by
  refine session_settled tolerable_none (fun _ _ _ _ failed => failed) noCollision settled kept ?_
  intro issued _ failure hit
  cases hit

theorem rowContent_run (db : Db) (id : Int) :
    (StoreOp.getRowContent id).run sha3 noFaults db = (db.rowContent id, db) := by
  obtain ⟨answer, after, ran, cases⟩ := getRowContent_reads noFaults db id 0
  have same := cases.resolve_right fun failed => not_interrupted failed.2
  change Program.exec (Cmd.step noFaults) ((StoreOp.getRowContent id).program sha3)
    (Session.at db 0) = _ at ran
  rw [StoreOp.run, ran, same]
  rfl

theorem getContentById_calm {pool : Set Bytes} {payload : Int → Bytes} {state : World × Nat}
    (noCollision : Set.InjOn sha3 pool) (settled : Settled sha3 pool payload True state.1)
    {row : Row} (member : row ∈ state.1.db.clipboard) :
    (Program.exec (Call.step sha3 .calm) (getContentById row.id) state).1 =
      some (row.mime, payload row.id) := by
  have asked : Call.step sha3 .calm (.store (.getRowContent row.id)) state =
      (state.1.db.rowContent row.id, state.1, state.2 + 1) := by
    change (((StoreOp.getRowContent row.id).run sha3 noFaults state.1.db).1,
      state.1.withDb ((StoreOp.getRowContent row.id).run sha3 noFaults state.1.db).2,
      state.2 + 1) = _
    rw [rowContent_run]
    rfl
  change (Program.exec (Call.step sha3 .calm)
    (contentOrFile (Call.step sha3 .calm (.store (.getRowContent row.id)) state).1)
    (Call.step sha3 .calm (.store (.getRowContent row.id)) state).2).1 = _
  rw [asked]
  rcases rowContent_eq settled.recorded noCollision member with inline | ⟨detached, outside⟩
  · rw [inline]
    rfl
  · have keyed := settled.recorded.keyed row member
    have found := settled.present trivial row member detached _ keyed (Set.notMem_empty _)
    obtain ⟨file, entry⟩ := Option.isSome_iff_exists.mp found
    have same := settled.served row member detached _ file keyed entry
    rw [outside]
    change Option.map (fun data => (row.mime, data))
      (state.1.cache (toHex (sha3 (payload row.id)))) = _
    rw [entry, same]
    rfl

-- The operation at which the row `id` appears.
def Creates (sha3 : Bytes → Bytes) (sql : Nat → WriteFaults) (before : List FacadeOp)
    (op : FacadeOp) (id : Int) : Prop :=
  (∀ row ∈ (reached sha3 (.reliable sql) before).1.db.clipboard, row.id ≠ id) ∧
    ∃ row ∈ (reached sha3 (.reliable sql) (before ++ [op])).1.db.clipboard, row.id = id

theorem exists_creates {sql : Nat → WriteFaults} {ops : List FacadeOp} {id : Int}
    (present : ∃ row ∈ (reached sha3 (.reliable sql) ops).1.db.clipboard, row.id = id) :
    ∃ before op after, ops = before ++ op :: after ∧ Creates sha3 sql before op id := by
  induction ops using List.reverseRecOn with
  | nil =>
      obtain ⟨row, member, _⟩ := present
      exact absurd member List.not_mem_nil
  | append_singleton earlier op ih =>
      by_cases already : ∃ row ∈ (reached sha3 (.reliable sql) earlier).1.db.clipboard, row.id = id
      · obtain ⟨before, creator, after, shape, creates⟩ := ih already
        exact ⟨before, creator, after ++ [op], by simp [shape], creates⟩
      · refine ⟨earlier, op, [], rfl, fun row member same => ?_, present⟩
        exact already ⟨row, member, same⟩

theorem reached_settled {sql : Nat → WriteFaults} {pool : Set Bytes}
    (noCollision : Set.InjOn sha3 pool) {ops : List FacadeOp}
    (kept : ∀ op ∈ ops, ∀ data, op.payload = some data → Pooled pool data) :
    ∃ payload, Settled sha3 pool payload True (reached sha3 (.reliable sql) ops).1 := by
  have start : Settled sha3 pool (fun _ => []) True ((World.empty, 0) : World × Nat).1 := .empty
  obtain ⟨payload, settled, _⟩ := reliable_settled noCollision start kept
  exact ⟨payload, settled⟩

theorem creates_payload {sql : Nat → WriteFaults} {before after : List FacadeOp} {op : FacadeOp}
    (noCollision : Set.InjOn sha3 (sessionPool (before ++ op :: after))) {id : Int}
    (creates : Creates sha3 sql before op id) :
    ∃ payload, Settled sha3 (sessionPool (before ++ op :: after)) payload True
        (reached sha3 (.reliable sql) (before ++ op :: after)).1 ∧
      op.payload.map Slice.bytes = some (payload id) := by
  have kept : ∀ other ∈ before ++ op :: after, ∀ data, other.payload = some data →
      Pooled (sessionPool (before ++ op :: after)) data :=
    fun other member data => sessionPool_pooled member
  obtain ⟨first, settledFirst⟩ := @reached_settled sha3 sql _ noCollision before
    fun other member => kept other (List.mem_append_left _ member)
  obtain ⟨_, middle, settledMiddle, descends⟩ := @FacadeOp.run sha3 _ _ True _
    (Environment.reliable sql) op tolerable_none (fun _ _ _ _ failed => failed) noCollision _
    settledFirst (kept op (by simp)) fun issued _ failure hit => by cases hit
  obtain ⟨last, settledLast, _, same⟩ := @reliable_settled sha3 sql _ noCollision after _ _
    settledMiddle fun other member => kept other (by simp [member])
  have created : reached sha3 (.reliable sql) (before ++ [op]) =
      (Program.exec (Call.step sha3 (.reliable sql)) (op.program sha3)
        (reached sha3 (.reliable sql) before)).2 := by
    rw [reached_append]
    simp [session]
  have ended : reached sha3 (.reliable sql) (before ++ op :: after) =
      (Program.exec (Call.step sha3 (.reliable sql)) (session sha3 after)
        (reached sha3 (.reliable sql) (before ++ [op]))).2 := by
    rw [created, reached_append, session, Program.exec_bind]
  rw [← created] at descends settledLast same
  rw [← ended] at settledLast
  obtain ⟨absent, row, member, rfl⟩ := creates
  have fresh : (reached sha3 (.reliable sql) before).1.db.sequence < row.id := by
    by_contra early
    obtain ⟨old, present, named⟩ := descends.old row member (not_lt.mp early)
    exact absent old present named
  refine ⟨last, settledLast, ?_⟩
  rw [same row.id (Db.idsIssued _ row member).2]
  exact descends.new row member fresh

end

/-- Every row still there at the end of a session was created by one of its insertions, and
reading it returns exactly the bytes of that insertion. -/
theorem session_roundTrip (sha3 : Bytes → Bytes) (ops : List FacadeOp) (sql : Nat → WriteFaults)
    (noCollision : Set.InjOn sha3 (sessionPool ops)) (id : Int)
    (present : ∃ row ∈ (reached sha3 (.reliable sql) ops).1.db.clipboard, row.id = id) :
    (∃ before op after, ops = before ++ op :: after ∧ Creates sha3 sql before op id) ∧
    ∀ before op after, ops = before ++ op :: after → Creates sha3 sql before op id →
      ∃ data mime, op.payload = some data ∧
        (Program.exec (Call.step sha3 .calm) (getContentById id)
          (reached sha3 (.reliable sql) ops)).1 = some (mime, data.bytes) := by
  refine ⟨exists_creates present, ?_⟩
  rintro before op after rfl creates
  obtain ⟨payload, settled, brought⟩ := creates_payload noCollision creates
  obtain ⟨data, isPayload, same⟩ := Option.map_eq_some_iff.mp brought
  obtain ⟨row, member, rfl⟩ := present
  refine ⟨data, row.mime, isPayload, ?_⟩
  rw [getContentById_calm noCollision settled member, same]

def sampleImageOp (now : Int) : FacadeOp :=
  .insertWithHash now .byRowid "image/png".toList ⟨sampleImage, sampleImage_fits⟩ 256

def sampleChunksOp (now : Int) : FacadeOp :=
  .insertWithHash now .byRowid "text/plain".toList sampleChunks 256

def sampleSharingOp (now : Int) : FacadeOp :=
  .insertWithHash now .byRowid "text/plain".toList sampleSharing 256

-- Two rows that share chunks; the first is touched, the second deleted.
def sharingOps : List FacadeOp :=
  [sampleChunksOp 1000, sampleSharingOp 1001, sampleChunksOp 1002, .deleteById 2]

theorem sharingSha3_injOn : Set.InjOn sharingSha3 (sessionPool sharingOps) := by
  refine sharingPool_injOn.mono ?_
  rintro _ ⟨op, member, data, payload, isPiece⟩
  have isPayload : data = sampleChunks ∨ data = sampleSharing := by
    simp only [sharingOps, List.mem_cons, List.not_mem_nil, or_false] at member
    rcases member with rfl | rfl | rfl | rfl
    · exact .inl (Option.some.inj payload).symm
    · exact .inr (Option.some.inj payload).symm
    · exact .inl (Option.some.inj payload).symm
    · cases payload
  rcases isPiece with rfl | isPiece
  · rcases isPayload with rfl | rfl
    · exact .inl rfl
    · exact .inr (.inl rfl)
  · exact sharingPool_pieces isPayload isPiece

def sharingStore (count : Nat) : Db :=
  (reached sharingSha3 (.reliable fun _ => .none) (sharingOps.take count)).1.db

theorem sharingStore_run :
    (sharingStore 2).clipboard.map (fun row => row.timestamp) = [1000, 1001] ∧
    (sharingStore 2).chunks.map Chunk.refcount = [3, 1, 2] ∧
    (sharingStore 4).clipboard.map (fun row => (row.id, row.timestamp)) = [(1, 1002)] ∧
    (sharingStore 4).chunks.map Chunk.refcount = [1, 1, 1] := by
  decide +kernel

theorem session_roundTrip_sample :
    ((sharingStore 2).chunks.map Chunk.refcount = [3, 1, 2] ∧
      (sharingStore 4).chunks.map Chunk.refcount = [1, 1, 1]) ∧
    ((∃ before op after, sharingOps = before ++ op :: after ∧
        Creates sharingSha3 (fun _ => .none) before op 1) ∧
      ∀ before op after, sharingOps = before ++ op :: after →
        Creates sharingSha3 (fun _ => .none) before op 1 →
        ∃ data mime, op.payload = some data ∧
          (Program.exec (Call.step sharingSha3 .calm) (getContentById 1)
            (reached sharingSha3 (.reliable fun _ => .none) sharingOps)).1 =
            some (mime, data.bytes)) := by
  obtain ⟨_, shared, left, counts⟩ := sharingStore_run
  have listed : (1, 1002) ∈ (sharingStore 4).clipboard.map fun row => (row.id, row.timestamp) := by
    rw [left]
    exact List.mem_singleton.mpr rfl
  obtain ⟨row, member, same⟩ := List.mem_map.mp listed
  exact ⟨⟨shared, counts⟩, session_roundTrip sharingSha3 sharingOps (fun _ => .none)
    sharingSha3_injOn 1 ⟨row, member, congrArg Prod.fst same⟩⟩

/-- Between operations, every cache file belongs to a row with its hash, and every row whose
content is in the cache has exactly its file. -/
theorem session_cacheExact (sha3 : Bytes → Bytes) (ops : List FacadeOp) (sql : Nat → WriteFaults)
    (noCollision : Set.InjOn sha3 (sessionPool ops)) :
    (∀ hash file, (reached sha3 (.reliable sql) ops).1.cache hash = some file →
      ∃ row ∈ (reached sha3 (.reliable sql) ops).1.db.clipboard, row.hash = some hash) ∧
    FilesComplete sha3 (reached sha3 (.reliable sql) ops).1 := by
  obtain ⟨payload, settled⟩ := @reached_settled sha3 sql _ noCollision ops
    fun op member data => sessionPool_pooled member
  refine ⟨fun hash file found => ?_, settled.toTracks.filesComplete trivial rfl⟩
  exact (settled.owned hash file found).resolve_left (Set.notMem_empty _)

theorem session_cacheExact_sample :
    (∀ hash file, (reached sampleSha3 (.reliable fun _ => .none)
        [sampleImageOp 1000, .deleteById 1]).1.cache hash = some file →
      ∃ row ∈ (reached sampleSha3 (.reliable fun _ => .none)
        [sampleImageOp 1000, .deleteById 1]).1.db.clipboard, row.hash = some hash) ∧
    FilesComplete sampleSha3 (reached sampleSha3 (.reliable fun _ => .none)
      [sampleImageOp 1000, .deleteById 1]).1 :=
  session_cacheExact sampleSha3 _ (fun _ => .none) sampleSha3_injective.injOn

end Y4p
