import Y4p.Lib.Data
import Y4p.Storage.ChunkInvariant

/-!
Deduplication: the chunk table is what the payloads that were brought to the chunked rows amount to,
each distinct chunk once, whatever runs led there.
-/

namespace Y4p

section
variable {sha3 : Bytes → Bytes} {pool : Set Bytes} {payload : Int → Bytes} {db : Db}

def chunkedRows (db : Db) : List Row :=
  db.clipboard.filter fun row => row.isChunked

def cuts (payload : Int → Bytes) (db : Db) : List Bytes :=
  (chunkedRows db).flatMap fun row => fastCdc (payload row.id)

theorem mem_chunkedRows {row : Row} :
    row ∈ chunkedRows db ↔ row ∈ db.clipboard ∧ row.isChunked = true :=
  List.mem_filter

theorem chunkedRows_distinct : ((chunkedRows db).map Row.id).Nodup :=
  db.idsUnique.sublist (List.filter_sublist.map _)

theorem entriesFrom_count (noCollision : Set.InjOn sha3 pool) {piece : Bytes}
    (pooled : piece ∈ pool) {id : Int} {seq : Nat} {pieces : List Bytes}
    (all : ∀ other ∈ pieces, other ∈ pool) :
    (entriesFrom sha3 id seq pieces).countP (fun entry => entry.chunkHash = sha3 piece) =
      pieces.count piece := by
  induction pieces generalizing seq with
  | nil => rfl
  | cons first rest ih =>
      obtain ⟨firstPooled, others⟩ := List.forall_mem_cons.mp all
      rw [entriesFrom, List.countP_cons, List.count_cons, ih others]
      by_cases same : first = piece
      · simp [same]
      · have differs : sha3 first ≠ sha3 piece := fun equal =>
          same (noCollision firstPooled pooled equal)
        simp [same, differs]

/-- A chunk's entries are the places where it is cut from the chunked rows' payloads. -/
theorem uses_eq_cuts (assembled : Assembled sha3 pool payload db) (refs : RefsExact db)
    (noCollision : Set.InjOn sha3 pool) {piece : Bytes} (pooled : piece ∈ pool) :
    uses db (sha3 piece) = (cuts payload db).count piece := by
  have owned : ∀ entry ∈ db.manifest, entry.clipboardId ∈ (chunkedRows db).map Row.id := by
    intro entry member
    obtain ⟨row, present, named, chunked⟩ := refs.rowExists entry member
    exact List.mem_map.mpr ⟨row, mem_chunkedRows.mpr ⟨present, chunked⟩, named⟩
  rw [uses, Lists.countP_by_owner chunkedRows_distinct owned, cuts, List.count_flatMap, List.map_map]
  congr 1
  apply List.map_congr_left
  intro row listed
  obtain ⟨present, chunked⟩ := mem_chunkedRows.mp listed
  obtain ⟨_, _, manifest, all⟩ := (assembled.holds row present).chunked chunked
  rw [Function.comp_apply, Function.comp_apply, ← entriesFrom_count noCollision pooled all]
  exact congrArg _ manifest

-- The chunked rows read back as their payloads, and each distinct chunk of these is there once,
-- counted as often as it is cut.
structure Deduplicated (payload : Int → Bytes) (db : Db) : Prop where
  readable : ∀ row ∈ chunkedRows db, db.reassembled row = some (payload row.id)
  distinct : (db.chunks.map Chunk.data).Nodup
  stored : ∀ piece, piece ∈ db.chunks.map Chunk.data ↔ piece ∈ cuts payload db
  counted : ∀ chunk ∈ db.chunks, chunk.refcount = ((cuts payload db).count chunk.data : Int)

theorem Deduplicated.of_assembled (assembled : Assembled sha3 pool payload db)
    (refs : RefsExact db) (noCollision : Set.InjOn sha3 pool) : Deduplicated payload db where
  readable := by
    intro row listed
    obtain ⟨present, chunked⟩ := mem_chunkedRows.mp listed
    exact reassembled_eq assembled refs noCollision present chunked
  distinct := by
    have keys : db.chunks.map Chunk.hash = (db.chunks.map Chunk.data).map sha3 := by
      rw [List.map_map]
      exact List.map_congr_left fun chunk member => (assembled.digests chunk member).1
    exact List.Nodup.of_map sha3 (keys ▸ db.chunkKeysUnique)
  stored := by
    intro piece
    constructor
    · intro member
      obtain ⟨chunk, present, rfl⟩ := List.mem_map.mp member
      obtain ⟨digest, pooled⟩ := assembled.digests chunk present
      have used := (refs.counted chunk present).2
      rw [digest, uses_eq_cuts assembled refs noCollision pooled] at used
      exact List.count_pos_iff.mp used
    · intro cut
      obtain ⟨row, listed, member⟩ := List.mem_flatMap.mp cut
      obtain ⟨present, chunked⟩ := mem_chunkedRows.mp listed
      obtain ⟨_, _, manifest, all⟩ := (assembled.holds row present).chunked chunked
      have pooled := all piece member
      have used : 0 < uses db (sha3 piece) := by
        rw [uses_eq_cuts assembled refs noCollision pooled]
        exact List.count_pos_iff.mpr cut
      obtain ⟨entry, inManifest, named⟩ := List.countP_pos_iff.mp used
      obtain ⟨chunk, stored, same⟩ := refs.chunkExists entry inManifest
      have named : entry.chunkHash = sha3 piece := of_decide_eq_true named
      obtain ⟨digest, known⟩ := assembled.digests chunk stored
      have equal := noCollision known pooled (digest.symm.trans (same.trans named))
      exact List.mem_map.mpr ⟨chunk, stored, equal⟩
  counted := by
    intro chunk present
    obtain ⟨digest, pooled⟩ := assembled.digests chunk present
    rw [(refs.counted chunk present).1, digest, uses_eq_cuts assembled refs noCollision pooled]

theorem cuts_length (rows : List Row) :
    ((rows.flatMap fun row => fastCdc (payload row.id)).map List.length).sum =
      (rows.map fun row => (payload row.id).length).sum := by
  induction rows with
  | nil => rfl
  | cons row rest ih =>
      rw [List.flatMap_cons, List.map_append, List.sum_append, ih, List.map_cons, List.sum_cons,
        ← List.length_flatten, fastCdc_flatten]

def WithinPayloads (payload : Int → Bytes) (db : Db) : Prop :=
  (db.chunks.map fun chunk => chunk.data.length).sum ≤
    ((chunkedRows db).map fun row => (payload row.id).length).sum

theorem Deduplicated.within (deduplicated : Deduplicated payload db) :
    WithinPayloads payload db := by
  have listed : (db.chunks.map Chunk.data).Subperm (cuts payload db) :=
    List.Nodup.subperm deduplicated.distinct fun piece member =>
      (deduplicated.stored piece).mp member
  have room := Lists.sum_lengths_le listed
  rw [cuts, cuts_length, List.map_map] at room
  exact room

end

/-- Whatever runs on the store, with any writes failing: every chunked row reads back as the bytes
given to the upsert that created it, and the chunk table holds each distinct chunk of these bytes
once, counted as often as it is cut, and nothing else. -/
theorem runStore_deduplicated (sha3 : Bytes → Bytes) (attempts : List Attempt)
    (noCollision : Set.InjOn sha3 (runPieces attempts)) :
    Deduplicated (payloads sha3 attempts) (runStore sha3 attempts Db.empty) ∧
      WithinPayloads (payloads sha3 attempts) (runStore sha3 attempts Db.empty) := by
  obtain ⟨refs, assembled⟩ := reached_assembled sha3 attempts
  have deduplicated := Deduplicated.of_assembled assembled refs noCollision
  exact ⟨deduplicated, deduplicated.within⟩

def sharingInsert (now : Int) (data : Slice) : StoreOp :=
  .upsert now .byRowid "text/plain".toList (.record data) (toHex (sharingSha3 data.bytes)) 256

-- Two rows share chunks, the first is stored again, and the second fails to be deleted.
def sharingAttempts : List Attempt :=
  [⟨sharingInsert 1000 sampleChunks, .none⟩, ⟨sharingInsert 1001 sampleSharing, .none⟩,
    ⟨sharingInsert 1002 sampleChunks, .none⟩, ⟨.deleteById 2, commitFails⟩]

theorem sharingAttempts_pool : runPieces sharingAttempts ⊆ sharingPool := by
  rintro piece ⟨attempt, member, listed⟩
  simp only [sharingAttempts, List.mem_cons, List.not_mem_nil, or_false] at member
  rcases member with rfl | rfl | rfl | rfl
  · exact sharingPool_pieces (.inl rfl) listed
  · exact sharingPool_pieces (.inr rfl) listed
  · exact sharingPool_pieces (.inl rfl) listed
  · cases listed

theorem runStore_deduplicated_sample :
    (runStore sharingSha3 sharingAttempts Db.empty).chunks.map Chunk.refcount = [3, 1, 2] ∧
      Deduplicated (payloads sharingSha3 sharingAttempts)
        (runStore sharingSha3 sharingAttempts Db.empty) ∧
      WithinPayloads (payloads sharingSha3 sharingAttempts)
        (runStore sharingSha3 sharingAttempts Db.empty) :=
  ⟨by decide +kernel, runStore_deduplicated sharingSha3 sharingAttempts
    (sharingPool_injOn.mono sharingAttempts_pool)⟩

end Y4p
