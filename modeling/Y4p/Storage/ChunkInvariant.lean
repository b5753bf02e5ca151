import Y4p.Core.FastCdc
import Y4p.Core.Payload
import Y4p.Storage.Store

/-!
The chunk store over whole runs: whatever operations run, and whichever of their
writes fail, `chunks`, `manifest` and `clipboard` agree.
-/

namespace Y4p

section
variable (sha3 : Bytes → Bytes)

theorem entriesFrom_seqs (id : Int) (seq : Nat) (pieces : List Bytes) :
    (entriesFrom sha3 id seq pieces).map ManifestEntry.seq = List.range' seq pieces.length := by
  induction pieces generalizing seq with
  | nil => rfl
  | cons piece rest ih => simp [entriesFrom, ih, List.range'_succ]

theorem entriesFrom_sorted (id : Int) (seq : Nat) (pieces : List Bytes) :
    (entriesFrom sha3 id seq pieces).Pairwise fun a b => a.seq ≤ b.seq := by
  have ordered : ((entriesFrom sha3 id seq pieces).map ManifestEntry.seq).Pairwise (· ≤ ·) := by
    rw [entriesFrom_seqs]
    exact List.pairwise_le_range'
  exact List.pairwise_map.mp ordered

end

section
variable {sha3 : Bytes → Bytes} {pool : Set Bytes} {payload : Int → Bytes} {db : Db}

/-- Without a collision, the chunk found under a piece's digest holds that piece. -/
theorem chunk_of_piece (assembled : Assembled sha3 pool payload db)
    (noCollision : Set.InjOn sha3 pool) {piece : Bytes} (pooled : piece ∈ pool)
    (stored : ∃ chunk ∈ db.chunks, chunk.hash = sha3 piece) :
    (db.chunks.find? fun chunk => chunk.hash = sha3 piece).map Chunk.data = some piece := by
  cases found : db.chunks.find? fun chunk => chunk.hash = sha3 piece with
  | none =>
      obtain ⟨chunk, present, same⟩ := stored
      have absent := List.find?_eq_none.mp found chunk present
      simp [same] at absent
  | some chunk =>
      have present := List.mem_of_find?_eq_some found
      have same : chunk.hash = sha3 piece := by simpa using List.find?_some found
      obtain ⟨digest, known⟩ := assembled.digests chunk present
      have equal := noCollision known pooled (digest.symm.trans same)
      simp [equal]

theorem entriesFrom_data (assembled : Assembled sha3 pool payload db)
    (noCollision : Set.InjOn sha3 pool) {id : Int} {seq : Nat} {pieces : List Bytes}
    (pooled : ∀ piece ∈ pieces, piece ∈ pool)
    (stored : ∀ entry ∈ entriesFrom sha3 id seq pieces,
      ∃ chunk ∈ db.chunks, chunk.hash = entry.chunkHash) :
    (entriesFrom sha3 id seq pieces).filterMap (fun entry =>
      (db.chunks.find? fun chunk => chunk.hash = entry.chunkHash).map Chunk.data) = pieces := by
  induction pieces generalizing seq with
  | nil => rfl
  | cons piece rest ih =>
      have first := chunk_of_piece assembled noCollision (pooled piece (by simp))
        (stored _ List.mem_cons_self)
      have others := ih (fun piece member => pooled piece (by simp [member]))
        fun entry member => stored entry (List.mem_cons_of_mem _ member)
      simp only [entriesFrom, List.filterMap_cons, first, others]

theorem chunkData_eq (assembled : Assembled sha3 pool payload db) (refs : RefsExact db)
    (noCollision : Set.InjOn sha3 pool) {row : Row} (present : row ∈ db.clipboard)
    (chunked : row.isChunked = true) : chunkData db row.id = fastCdc (payload row.id) := by
  obtain ⟨_, _, listed, pooled⟩ := (assembled.holds row present).chunked chunked
  have sorted := entriesFrom_sorted sha3 row.id 0 (fastCdc (payload row.id))
  rw [chunkData, listed, sorted.insertionSort_eq]
  apply entriesFrom_data assembled noCollision pooled
  intro entry member
  rw [← listed, Db.manifestOf] at member
  exact refs.chunkExists entry (List.mem_of_mem_filter member)

theorem reassembled_eq (assembled : Assembled sha3 pool payload db) (refs : RefsExact db)
    (noCollision : Set.InjOn sha3 pool) {row : Row} (present : row ∈ db.clipboard)
    (chunked : row.isChunked = true) : db.reassembled row = some (payload row.id) := by
  obtain ⟨_, size, _⟩ := (assembled.holds row present).chunked chunked
  rw [Db.reassembled, chunkData_eq assembled refs noCollision present chunked, fastCdc_flatten,
    size]
  simp

end

structure ChunkStore (db : Db) : Prop extends RefsExact db where
  numbered : ∀ row ∈ db.clipboard, row.isChunked = true →
    row.content = .null ∧ ∃ n, ((db.manifestOf row.id).map ManifestEntry.seq).Perm (List.range n)
  inline : ∀ row ∈ db.clipboard, row.isChunked = false → db.manifestOf row.id = []
  measured : ∀ row ∈ db.clipboard, row.isChunked = true →
    (((chunkData db row.id).map List.length).sum : Int) = row.size

theorem ChunkStore.of_assembled {sha3 : Bytes → Bytes} {pool : Set Bytes} {payload : Int → Bytes}
    {db : Db} (assembled : Assembled sha3 pool payload db) (refs : RefsExact db)
    (noCollision : Set.InjOn sha3 pool) : ChunkStore db where
  toRefsExact := refs
  numbered := by
    intro row present chunked
    obtain ⟨content, _, listed, _⟩ := (assembled.holds row present).chunked chunked
    refine ⟨content, (fastCdc (payload row.id)).length, ?_⟩
    rw [listed, entriesFrom_seqs, List.range_eq_range']
  inline := fun _ => refs.manifestOf_inline
  measured := by
    intro row present chunked
    obtain ⟨_, size, _⟩ := (assembled.holds row present).chunked chunked
    rw [chunkData_eq assembled refs noCollision present chunked, ← List.length_flatten,
      fastCdc_flatten, size]

structure Attempt where
  op : StoreOp
  faults : WriteFaults

section
variable (sha3 : Bytes → Bytes)

def runStore : List Attempt → Db → Db
  | [], db => db
  | attempt :: rest, db => runStore rest (attempt.op.run sha3 attempt.faults.hits db).2

end

def Offer.pieces : Offer → List Bytes
  | .record data => fastCdc data.bytes
  | .detached _ => []

def StoreOp.pieces : StoreOp → List Bytes
  | .upsert _ _ _ offer _ _ => offer.pieces
  | _ => []

def runPieces (attempts : List Attempt) : Set Bytes :=
  {piece | ∃ attempt ∈ attempts, piece ∈ attempt.op.pieces}

def Offer.bytes : Offer → Bytes
  | .record data => data.bytes
  | .detached _ => []

theorem Offer.body_bytes {offer : Offer} {bytes : Bytes} (same : offer.body = .bytes bytes) :
    bytes = offer.bytes := by
  cases offer with
  | record data =>
      injection same with same
      exact same.symm
  | detached len => simp [Offer.body] at same

def StoreOp.bytes : StoreOp → Bytes
  | .upsert _ _ _ offer _ _ => offer.bytes
  | _ => []

def brought (db after : Db) (data : Bytes) (payload : Int → Bytes) : Int → Bytes :=
  if db.sequence < after.sequence then Function.update payload after.sequence data else payload

section
variable (sha3 : Bytes → Bytes)

def runPayloads : List Attempt → Db → (Int → Bytes) → Int → Bytes
  | [], _, payload => payload
  | attempt :: rest, db, payload =>
      runPayloads rest (attempt.op.run sha3 attempt.faults.hits db).2
        (brought db (attempt.op.run sha3 attempt.faults.hits db).2 attempt.op.bytes payload)

-- The bytes that the upsert which created a row was given.
def payloads (attempts : List Attempt) : Int → Bytes :=
  runPayloads sha3 attempts Db.empty fun _ => []

end

section
variable {sha3 : Bytes → Bytes} {pool : Set Bytes} {payload : Int → Bytes} {db after : Db}

theorem Places.sequence_eq {now id : Int} {mime hash : Str} {body : Body}
    (places : Places sha3 db now mime body hash id after) :
    after.sequence = max db.sequence (placedId db hash) := by
  cases places with
  | @touched row found =>
      have issued := (db.idsIssued row (Db.rowByHash_eq_some.mp found).1).2
      rw [placedId, found]
      exact (max_eq_left issued).symm
  | inserted absent _ =>
      rw [placedId, absent]
      exact (max_eq_right (Int.le_add_one (Int.le_refl _))).symm
  | chunked absent _ stores =>
      rw [placedId, absent, stores.rows.2]
      exact (max_eq_right (Int.le_add_one (Int.le_refl _))).symm

theorem Places.sequence_new {now id : Int} {mime hash : Str} {body : Body}
    (places : Places sha3 db now mime body hash id after) (absent : db.rowByHash hash = none) :
    after.sequence = db.sequence + 1 := by
  rw [places.sequence_eq, placedId, absent]
  exact max_eq_right (Int.le_add_one (Int.le_refl _))

theorem dropped_sequence (id : Int) : (db.dropped id).sequence = db.sequence := by
  unfold Db.dropped
  split
  · exact Db.releaseRow_sequence db _
  · rfl

theorem brought_same (data : Bytes) (same : after.sequence = db.sequence) :
    brought db after data payload = payload := by
  rw [brought, same, if_neg (lt_irrefl _)]

theorem brought_old {id : Int} (data : Bytes) (issued : id ≤ db.sequence) :
    brought db after data payload id = payload id := by
  rw [brought]
  split
  · rename_i grown
    exact Function.update_of_ne (by omega) _ _
  · rfl

theorem Places.brought_eq {now id : Int} {mime hash : Str} {body : Body}
    (places : Places sha3 db now mime body hash id after) (data : Bytes) :
    brought db after data payload =
      if db.rowByHash hash = none then Function.update payload (db.sequence + 1) data
      else payload := by
  cases found : db.rowByHash hash with
  | some row =>
      have sequence := places.sequence_eq
      simp only [placedId, found] at sequence
      have issued := (db.idsIssued row (Db.rowByHash_eq_some.mp found).1).2
      rw [if_neg (by simp)]
      exact brought_same data (sequence.trans (max_eq_left issued))
  | none => rw [if_pos rfl, brought, places.sequence_new found, if_pos (by omega)]

def ChunksAgree (sha3 : Bytes → Bytes) (pool : Set Bytes) (db : Db) : Prop :=
  RefsExact db ∧ ∃ payload, Assembled sha3 pool payload db

theorem upserted_assembled {now : Int} {tie : TieOrder} {mime hash : Str} {offer : Offer}
    {maxHistory : UInt64} {outcome : UpsertOutcome} (refs : RefsExact db)
    (assembled : Assembled sha3 pool payload db)
    (upserted : Upserted sha3 db now tie mime offer.body hash maxHistory outcome after)
    (pooled : ∀ piece ∈ offer.pieces, piece ∈ pool) :
    RefsExact after ∧ Assembled sha3 pool (brought db after offer.bytes payload) after := by
  obtain ⟨placed, places, _, _, rfl⟩ := upserted
  have same : brought db (placed.rotated tie tie maxHistory) offer.bytes payload =
      brought db placed offer.bytes payload := by
    rw [brought, brought, rotated_sequence]
  rw [same, places.brought_eq]
  refine ⟨(refs.places places).rotated tie maxHistory, ?_⟩
  have fits : offer.bytes.length < 2 ^ 63 := by
    cases offer with
    | record data => exact data.fits
    | detached len => simp [Offer.bytes]
  have cut : ∀ piece ∈ fastCdc offer.bytes, piece ∈ pool := by
    cases offer with
    | record data => exact pooled
    | detached len => simp [Offer.bytes, fastCdc_nil]
  exact (assembled.places refs places (fun _ => Offer.body_bytes) fits cut).rotated tie maxHistory

theorem attempts_assembled {α : Type} {value : α} {changed : Db} {result : Except String α}
    (refs : RefsExact db) (assembled : Assembled sha3 pool payload db) (data : Bytes)
    (attempts : Attempts db value changed result after) (sequence : changed.sequence = db.sequence)
    (done : RefsExact changed ∧ Assembled sha3 pool payload changed) :
    RefsExact after ∧ Assembled sha3 pool (brought db after data payload) after := by
  rcases attempts with ⟨_, _, rfl⟩ | ⟨_, rfl⟩
  · rw [brought_same data rfl]
    exact ⟨refs, assembled⟩
  · rw [brought_same data sequence]
    exact done

theorem effect_assembled {op : StoreOp} {result : op.Result} (refs : RefsExact db)
    (assembled : Assembled sha3 pool payload db) (effect : op.Effect sha3 db result after)
    (pooled : ∀ piece ∈ op.pieces, piece ∈ pool) :
    RefsExact after ∧ Assembled sha3 pool (brought db after op.bytes payload) after := by
  have unchanged : after = db →
      RefsExact after ∧ Assembled sha3 pool (brought db after op.bytes payload) after := by
    rintro rfl
    rw [brought_same op.bytes rfl]
    exact ⟨refs, assembled⟩
  cases op with
  | upsert now tie mime offer hash maxHistory =>
      simp only [StoreOp.Effect, UpsertEffect] at effect
      split at effect
      · exact unchanged effect.2
      · rcases effect with ⟨_, _, same⟩ | ⟨_, _, upserted⟩
        · exact unchanged same
        · exact upserted_assembled refs assembled upserted pooled
  | updateTimestamp now id =>
      exact attempts_assembled refs assembled _ effect rfl
        ⟨refs.touch now id, assembled.touch now id⟩
  | setPinned id isPinned =>
      exact attempts_assembled refs assembled _ effect rfl
        ⟨refs.pin isPinned id, assembled.pin isPinned id⟩
  | deleteById id =>
      exact attempts_assembled refs assembled _ effect (dropped_sequence id)
        ⟨refs.dropped id, assembled.dropped id⟩
  | wipe => exact attempts_assembled refs assembled _ effect rfl ⟨.wiped, .wiped⟩
  | getRowContent id => exact unchanged effect.2
  | getRowLocation id => exact unchanged effect

theorem effect_agree {op : StoreOp} {result : op.Result} (agree : ChunksAgree sha3 pool db)
    (effect : op.Effect sha3 db result after) (pooled : ∀ piece ∈ op.pieces, piece ∈ pool) :
    ChunksAgree sha3 pool after := by
  obtain ⟨refs, payload, assembled⟩ := agree
  obtain ⟨refsAfter, assembledAfter⟩ := effect_assembled refs assembled effect pooled
  exact ⟨refsAfter, _, assembledAfter⟩

theorem runStore_assembled {attempts : List Attempt} (refs : RefsExact db)
    (assembled : Assembled sha3 pool payload db)
    (pooled : ∀ attempt ∈ attempts, ∀ piece ∈ attempt.op.pieces, piece ∈ pool) :
    RefsExact (runStore sha3 attempts db) ∧
      Assembled sha3 pool (runPayloads sha3 attempts db payload) (runStore sha3 attempts db) := by
  induction attempts generalizing db payload with
  | nil => exact ⟨refs, assembled⟩
  | cons attempt rest ih =>
      obtain ⟨refsNext, assembledNext⟩ := effect_assembled refs assembled
        (attempt.op.run_effect sha3 attempt.faults db) (pooled attempt List.mem_cons_self)
      exact ih refsNext assembledNext fun other member =>
        pooled other (List.mem_cons_of_mem _ member)

theorem runStore_agree {attempts : List Attempt} (agree : ChunksAgree sha3 pool db)
    (pooled : ∀ attempt ∈ attempts, ∀ piece ∈ attempt.op.pieces, piece ∈ pool) :
    ChunksAgree sha3 pool (runStore sha3 attempts db) := by
  obtain ⟨refs, payload, assembled⟩ := agree
  obtain ⟨refsAfter, assembledAfter⟩ := runStore_assembled refs assembled pooled
  exact ⟨refsAfter, _, assembledAfter⟩

theorem reached_assembled (sha3 : Bytes → Bytes) (attempts : List Attempt) :
    RefsExact (runStore sha3 attempts Db.empty) ∧
      Assembled sha3 (runPieces attempts) (payloads sha3 attempts)
        (runStore sha3 attempts Db.empty) :=
  runStore_assembled .empty .empty
    fun attempt member piece listed => (⟨attempt, member, listed⟩ : piece ∈ runPieces attempts)

end

/-- In every state that operations reach from the empty store, with any of their writes
failing, counts equal references, chunked rows are complete and nothing is orphaned. -/
theorem runStore_chunkStore (sha3 : Bytes → Bytes) (attempts : List Attempt)
    (noCollision : Set.InjOn sha3 (runPieces attempts)) :
    ChunkStore (runStore sha3 attempts Db.empty) := by
  obtain ⟨refs, assembled⟩ := reached_assembled sha3 attempts
  exact .of_assembled assembled refs noCollision

def commitFails : WriteFaults where
  hits _ cmd :=
    match cmd with
    | .commit => some "disk I/O error"
    | _ => none
  spares := by
    intro issued cmd read
    cases cmd with
    | commit => simp [Cmd.isRead] at read
    | begin | rollback | stmt query => rfl

theorem sampleBlock_fits (before after : Bytes) (short : before.length + after.length < 5000) :
    (sampleBlock ++ before ++ sampleBlock ++ after).length < 2 ^ 63 := by
  simp only [sampleBlock, List.length_append, List.length_replicate, List.length_cons,
    List.length_nil]
  omega

def sampleChunks : Slice where
  bytes := sampleBlock ++ [7] ++ sampleBlock ++ [1, 2, 3]
  fits := sampleBlock_fits [7] [1, 2, 3] (by decide)

-- Its first and last chunks are those of `sampleChunks`.
def sampleSharing : Slice where
  bytes := sampleBlock ++ [] ++ sampleBlock ++ [1, 2, 3]
  fits := sampleBlock_fits [] [1, 2, 3] (by decide)

-- SHA3-256 on the two payloads and their chunks, told apart by their lengths.
def sharingSha3 (data : Bytes) : Bytes :=
  if data.length = 8326 then
    [135, 79, 225, 79, 222, 42, 20, 226, 16, 55, 116, 146, 217, 139, 130, 34,
      20, 42, 76, 114, 55, 213, 126, 144, 214, 181, 48, 97, 123, 156, 32, 213]
  else if data.length = 8325 then
    [229, 187, 16, 16, 7, 152, 111, 227, 251, 130, 116, 72, 127, 155, 153, 181,
      7, 143, 102, 245, 104, 28, 70, 185, 1, 249, 180, 100, 48, 211, 243, 203]
  else if data.length = 4161 then
    [229, 149, 92, 219, 136, 192, 137, 14, 188, 96, 247, 110, 84, 135, 126, 1,
      49, 24, 109, 23, 136, 15, 110, 74, 174, 77, 187, 56, 39, 141, 25, 64]
  else if data.length = 4162 then
    [63, 195, 22, 24, 252, 86, 70, 75, 219, 11, 116, 196, 31, 246, 121, 89,
      62, 250, 208, 8, 36, 137, 183, 15, 217, 240, 166, 236, 78, 192, 48, 124]
  else
    [253, 23, 128, 166, 252, 158, 224, 218, 178, 108, 235, 75, 57, 65, 171, 3,
      230, 108, 205, 151, 13, 29, 185, 22, 18, 198, 109, 244, 81, 91, 10, 10]

-- The two payloads and the chunks they are cut into.
def sharingPool : Set Bytes :=
  {sampleChunks.bytes, sampleSharing.bytes, sampleBlock, 7 :: sampleBlock, [1, 2, 3]}

theorem sharingPool_pieces {data : Slice} (sample : data = sampleChunks ∨ data = sampleSharing)
    {piece : Bytes} (listed : piece ∈ fastCdc data.bytes) : piece ∈ sharingPool := by
  rcases sample with rfl | rfl
  · rw [sampleChunks, fastCdc_blocks.2] at listed
    simp only [List.mem_cons, List.not_mem_nil, or_false] at listed
    rcases listed with rfl | rfl | rfl <;> simp [sharingPool]
  · rw [sampleSharing, fastCdc_blocks.1] at listed
    simp only [List.mem_cons, List.not_mem_nil, or_false] at listed
    rcases listed with rfl | rfl | rfl <;> simp [sharingPool]

theorem sharingPool_injOn : Set.InjOn sharingSha3 sharingPool := by
  have block : sampleBlock.length = 4161 := by
    rw [sampleBlock, List.length_append, List.length_replicate, List.length_singleton]
  have chunks : sampleChunks.bytes.length = 8326 := by
    simp only [sampleChunks, List.length_append, block, List.length_cons, List.length_nil]
  have sharing : sampleSharing.bytes.length = 8325 := by
    simp only [sampleSharing, List.length_append, block, List.length_cons, List.length_nil]
  rintro first (rfl | rfl | rfl | rfl | rfl) second (rfl | rfl | rfl | rfl | rfl) same
  all_goals
    first
    | rfl
    | simp [sharingSha3, chunks, sharing, block] at same

def sampleInsert : StoreOp :=
  .upsert 1000 .byRowid "application/octet-stream".toList
    (.record ⟨sampleLong, sampleLong_fits⟩) (toHex (sampleSha3 sampleLong)) 256

theorem runStore_chunkStore_sample :
    ChunkStore (runStore sampleSha3
      [⟨sampleInsert, .none⟩, ⟨.deleteById 1, commitFails⟩, ⟨sampleInsert, .none⟩] Db.empty) :=
  runStore_chunkStore sampleSha3 _ sampleSha3_injective.injOn

end Y4p
