import Y4p.Storage.Records

/-!
Ids over whole runs: an id is given to one record, keeps naming it, and is never given again.
-/

namespace Y4p

theorem SameRecord.trans {first second third : Row} (before : SameRecord first second)
    (after : SameRecord second third) : SameRecord first third where
  id := after.id.trans before.id
  mime := after.mime.trans before.mime
  size := after.size.trans before.size
  preview := after.preview.trans before.preview
  content := after.content.trans before.content
  hash := after.hash.trans before.hash
  isChunked := after.isChunked.trans before.isChunked

def KeepsChunks (db after : Db) : Prop :=
  ∀ chunk ∈ after.chunks, (∃ old ∈ db.chunks, old.hash = chunk.hash ∧ old.data = chunk.data) ∨
    chunk.hash ∉ db.chunks.map Chunk.hash

section
variable {sha3 : Bytes → Bytes} {db after : Db}

theorem KeepsChunks.of_old
    (old : ∀ chunk ∈ after.chunks, ∃ old ∈ db.chunks,
      old.hash = chunk.hash ∧ old.data = chunk.data) :
    KeepsChunks db after :=
  fun chunk member => .inl (old chunk member)

theorem KeepsChunks.of_eq (same : after.chunks = db.chunks) : KeepsChunks db after :=
  .of_old fun chunk member => ⟨chunk, same ▸ member, rfl, rfl⟩

theorem countChunk_keeps (digest data : Bytes) (chunks : List Chunk) :
    (∀ chunk ∈ countChunk digest data chunks,
      (∃ old ∈ chunks, old.hash = chunk.hash ∧ old.data = chunk.data) ∨
        chunk.hash ∉ chunks.map Chunk.hash) ∧
      chunks.map Chunk.hash ⊆ (countChunk digest data chunks).map Chunk.hash := by
  have reused : ∀ chunk, (Chunk.reuse digest chunk).hash = chunk.hash ∧
      (Chunk.reuse digest chunk).data = chunk.data := by
    intro chunk
    unfold Chunk.reuse
    split <;> exact ⟨rfl, rfl⟩
  unfold countChunk
  split
  · refine ⟨?_, fun hash listed => ?_⟩
    · intro chunk member
      obtain ⟨old, present, rfl⟩ := List.mem_map.mp member
      exact .inl ⟨old, present, (reused old).1.symm, (reused old).2.symm⟩
    · obtain ⟨old, present, rfl⟩ := List.mem_map.mp listed
      exact List.mem_map.mpr ⟨_, List.mem_map_of_mem present, (reused old).1⟩
  · rename_i absent
    refine ⟨?_, fun hash listed => by simp [listed]⟩
    intro chunk member
    rcases List.mem_append.mp member with old | new
    · exact .inl ⟨chunk, old, rfl, rfl⟩
    · rw [List.mem_singleton.mp new]
      exact .inr absent

theorem StoresFrom.keepsChunks {id : Int} {seq : Nat} {pieces : List Bytes}
    (stores : StoresFrom sha3 id db seq pieces after) :
    KeepsChunks db after ∧ db.chunks.map Chunk.hash ⊆ after.chunks.map Chunk.hash := by
  induction stores with
  | nil => exact ⟨.of_eq rfl, fun _ listed => listed⟩
  | @cons db _ piece _ middle _ first _ ih =>
      obtain ⟨kept, grown⟩ := ih
      have counted := countChunk_keeps (sha3 piece) piece db.chunks
      rw [← first.chunks] at counted
      refine ⟨fun chunk member => ?_, fun hash listed => grown (counted.2 listed)⟩
      rcases kept chunk member with ⟨between, present, hash, data⟩ | new
      · rcases counted.1 between present with ⟨old, before, hash', data'⟩ | new
        · exact .inl ⟨old, before, hash'.trans hash, data'.trans data⟩
        · exact .inr (hash ▸ new)
      · exact .inr fun listed => new (counted.2 listed)

theorem Places.keepsChunks {now id : Int} {mime hash : Str} {body : Body}
    (places : Places sha3 db now mime body hash id after) : KeepsChunks db after := by
  cases places with
  | touched _ => exact .of_eq rfl
  | inserted absent _ => exact .of_eq rfl
  | chunked absent _ stores => exact stores.keepsChunks.1

theorem Upserted.keepsChunks {now : Int} {tie : TieOrder} {mime hash : Str} {body : Body}
    {maxHistory : UInt64} {outcome : UpsertOutcome}
    (upserted : Upserted sha3 db now tie mime body hash maxHistory outcome after) :
    KeepsChunks db after := by
  obtain ⟨placed, places, _, _, rfl⟩ := upserted
  have kept := places.keepsChunks
  intro chunk member
  obtain ⟨left, present, hash, data⟩ := releaseRows_chunks_data chunk member
  rcases kept left present with ⟨old, before, hash', data'⟩ | new
  · exact .inl ⟨old, before, hash'.trans hash, data'.trans data⟩
  · exact .inr (hash ▸ new)

theorem Attempts.keepsChunks {α : Type} {value : α} {changed : Db} {result : Except String α}
    (attempts : Attempts db value changed result after) (done : KeepsChunks db changed) :
    KeepsChunks db after := by
  rcases attempts with ⟨_, _, rfl⟩ | ⟨_, rfl⟩
  · exact .of_eq rfl
  · exact done

theorem StoreOp.Effect.keepsChunks {op : StoreOp} {result : op.Result}
    (effect : op.Effect sha3 db result after) : KeepsChunks db after := by
  cases op with
  | upsert now tie mime offer hash maxHistory =>
      change UpsertEffect sha3 db now tie mime offer.body hash maxHistory result after at effect
      unfold UpsertEffect at effect
      split at effect
      · rw [effect.2]
        exact .of_eq rfl
      · rcases effect with ⟨_, _, rfl⟩ | ⟨outcome, _, upserted⟩
        · exact .of_eq rfl
        · exact upserted.keepsChunks
  | updateTimestamp now id => exact Attempts.keepsChunks effect (.of_eq rfl)
  | setPinned id isPinned => exact Attempts.keepsChunks effect (.of_eq rfl)
  | deleteById id =>
      refine Attempts.keepsChunks effect (.of_old ?_)
      unfold Db.dropped
      split
      · exact releaseRow_chunks_data
      · exact fun chunk member => ⟨chunk, member, rfl, rfl⟩
  | wipe =>
      refine Attempts.keepsChunks effect (.of_old ?_)
      simp [Db.wiped, Db.deleteRows, Db.deleteChunks]
  | getRowContent id => exact .of_eq (congrArg Db.chunks effect.2)
  | getRowLocation id => exact .of_eq (congrArg Db.chunks effect)

/-- What is linked alike reads back alike. -/
theorem KeepsChunks.chunkData (keeps : KeepsChunks db after) (refs : RefsExact db)
    (refsAfter : RefsExact after) {id : Int} (listed : after.manifestOf id = db.manifestOf id) :
    chunkData after id = chunkData db id := by
  rw [Y4p.chunkData, Y4p.chunkData, listed]
  apply List.filterMap_congr
  intro entry member
  have inDb : entry ∈ db.manifestOf id := (List.mem_insertionSort _).mp member
  have inAfter : entry ∈ after.manifestOf id := by
    rw [listed]
    exact inDb
  obtain ⟨before, present, same⟩ := refs.chunkExists entry (List.mem_of_mem_filter inDb)
  have found : ∀ {base : Db}, (∃ chunk ∈ base.chunks, chunk.hash = entry.chunkHash) →
      ∃ chunk ∈ base.chunks, chunk.hash = entry.chunkHash ∧
        (base.chunks.find? fun chunk => chunk.hash = entry.chunkHash) = some chunk := by
    rintro base ⟨chunk, listed, named⟩
    cases search : base.chunks.find? fun chunk => chunk.hash = entry.chunkHash with
    | none => simpa [named] using List.find?_eq_none.mp search chunk listed
    | some chunk =>
        exact ⟨chunk, List.mem_of_find?_eq_some search, by simpa using List.find?_some search, rfl⟩
  obtain ⟨old, was, wasNamed, wasFound⟩ := found ⟨before, present, same⟩
  obtain ⟨chunk, is, isNamed, isFound⟩ :=
    found (refsAfter.chunkExists entry (List.mem_of_mem_filter inAfter))
  rw [wasFound, isFound]
  rcases keeps chunk is with ⟨source, there, hash, data⟩ | new
  · have one : source = old :=
      List.inj_on_of_nodup_map db.chunkKeysUnique there was
        (hash.trans (isNamed.trans wasNamed.symm))
    rw [Option.map_some, Option.map_some, ← data, one]
  · exact absurd (List.mem_map.mpr ⟨old, was, wasNamed.trans isNamed.symm⟩) new

end

-- The rows of before, reading back as they did, and new ones under ids that no row had.
structure Continues (db after : Db) : Prop where
  sequence : db.sequence ≤ after.sequence
  rows : ∀ row ∈ after.clipboard, (∃ old ∈ db.clipboard, SameRecord old row ∧
    chunkData after row.id = chunkData db row.id) ∨ db.sequence < row.id

section
variable {sha3 : Bytes → Bytes} {db after : Db}

theorem Continues.refl (db : Db) : Continues db db where
  sequence := le_refl _
  rows row member := .inl ⟨row, member, .refl row, rfl⟩

theorem Continues.trans {last : Db} (first : Continues db after) (second : Continues after last) :
    Continues db last where
  sequence := first.sequence.trans second.sequence
  rows := by
    intro row member
    rcases second.rows row member with ⟨middle, present, same, reads⟩ | new
    · rcases first.rows middle present with ⟨old, before, same', reads'⟩ | new
      · refine .inl ⟨old, before, same'.trans same, ?_⟩
        rw [reads, same.id, reads']
      · refine .inr ?_
        rw [same.id]
        exact new
    · exact .inr (lt_of_le_of_lt first.sequence new)

theorem Upserted.inherits {now : Int} {tie : TieOrder} {mime hash : Str} {body : Body}
    {maxHistory : UInt64} {outcome : UpsertOutcome} (refs : RefsExact db)
    (upserted : Upserted sha3 db now tie mime body hash maxHistory outcome after) :
    db.sequence ≤ after.sequence ∧
      ∀ row ∈ after.clipboard, Inherits db after row ∨ db.sequence < row.id := by
  obtain ⟨placed, places, _, _, rfl⟩ := upserted
  refine ⟨?_, fun row member => ?_⟩
  · rw [rotated_sequence, places.sequence_eq]
    exact le_max_left _ _
  · obtain ⟨left, present, same, listed⟩ := rotated_inherits member
    rcases places.rows refs present with ⟨old, before, same', listed'⟩ | ⟨_, rfl, _⟩
    · refine .inl ⟨old, before, same'.trans same, ?_⟩
      rw [listed, same.id, listed']
    · refine .inr ?_
      rw [same.id]
      exact Int.lt_succ db.sequence

theorem Attempts.inherits {α : Type} {value : α} {changed : Db} {result : Except String α}
    (attempts : Attempts db value changed result after)
    (done : db.sequence ≤ changed.sequence ∧
      ∀ row ∈ changed.clipboard, Inherits db changed row ∨ db.sequence < row.id) :
    db.sequence ≤ after.sequence ∧
      ∀ row ∈ after.clipboard, Inherits db after row ∨ db.sequence < row.id := by
  rcases attempts with ⟨_, _, rfl⟩ | ⟨_, rfl⟩
  · exact ⟨le_refl _, fun row member => .inl ⟨row, member, .refl row, rfl⟩⟩
  · exact done

theorem StoreOp.Effect.inherits {op : StoreOp} {result : op.Result} (refs : RefsExact db)
    (effect : op.Effect sha3 db result after) :
    db.sequence ≤ after.sequence ∧
      ∀ row ∈ after.clipboard, Inherits db after row ∨ db.sequence < row.id := by
  have same : after = db → db.sequence ≤ after.sequence ∧
      ∀ row ∈ after.clipboard, Inherits db after row ∨ db.sequence < row.id := by
    rintro rfl
    exact ⟨le_refl _, fun row member => .inl ⟨row, member, .refl row, rfl⟩⟩
  cases op with
  | upsert now tie mime offer hash maxHistory =>
      change UpsertEffect sha3 db now tie mime offer.body hash maxHistory result after at effect
      unfold UpsertEffect at effect
      split at effect
      · exact same effect.2
      · rcases effect with ⟨_, _, kept⟩ | ⟨outcome, _, upserted⟩
        · exact same kept
        · exact upserted.inherits refs
  | updateTimestamp now id =>
      exact Attempts.inherits effect ⟨le_refl _, fun _ member => .inl (touch_inherits member)⟩
  | setPinned id isPinned =>
      exact Attempts.inherits effect ⟨le_refl _, fun _ member => .inl (pin_inherits member)⟩
  | deleteById id =>
      exact Attempts.inherits effect
        ⟨(dropped_sequence id).ge, fun _ member => .inl (dropped_inherits member)⟩
  | wipe => exact Attempts.inherits effect ⟨le_refl _, by simp [wiped_clipboard]⟩
  | getRowContent id => exact same effect.2
  | getRowLocation id => exact same effect

theorem StoreOp.Effect.continues {op : StoreOp} {result : op.Result} (refs : RefsExact db)
    (refsAfter : RefsExact after) (effect : op.Effect sha3 db result after) :
    Continues db after := by
  obtain ⟨sequence, rows⟩ := effect.inherits refs
  refine ⟨sequence, fun row member => (rows row member).imp_left ?_⟩
  rintro ⟨old, present, same, listed⟩
  exact ⟨old, present, same, effect.keepsChunks.chunkData refs refsAfter listed⟩

theorem runStore_append (first second : List Attempt) :
    runStore sha3 (first ++ second) db = runStore sha3 second (runStore sha3 first db) := by
  induction first generalizing db with
  | nil => rfl
  | cons attempt rest ih => exact ih

abbrev Sound (sha3 : Bytes → Bytes) (db : Db) : Prop :=
  ChunksAgree sha3 Set.univ db

theorem StoreOp.Effect.sound {op : StoreOp} {result : op.Result} (sound : Sound sha3 db)
    (effect : op.Effect sha3 db result after) : Sound sha3 after :=
  effect_agree sound effect fun piece _ => Set.mem_univ piece

theorem runStore_sound (attempts : List Attempt) (sound : Sound sha3 db) :
    Sound sha3 (runStore sha3 attempts db) :=
  runStore_agree sound fun _ _ piece _ => Set.mem_univ piece

theorem runStore_continues (attempts : List Attempt) (sound : Sound sha3 db) :
    Continues db (runStore sha3 attempts db) := by
  induction attempts generalizing db with
  | nil => exact .refl db
  | cons attempt rest ih =>
      have effect := attempt.op.run_effect sha3 attempt.faults db
      have soundNext := effect.sound sound
      exact (effect.continues sound.1 soundNext.1).trans (ih soundNext)

theorem reached_sound (sha3 : Bytes → Bytes) (attempts : List Attempt) :
    Sound sha3 (runStore sha3 attempts Db.empty) :=
  runStore_sound attempts ⟨.empty, fun _ => [], .empty⟩

theorem runStore_extends (sha3 : Bytes → Bytes) (before since : List Attempt) :
    Continues (runStore sha3 before Db.empty)
      (runStore sha3 since (runStore sha3 before Db.empty)) :=
  runStore_continues since (reached_sound sha3 before)

/-- An id that names a row at two moments of a run reads back alike at both. -/
theorem Continues.rowContent (continues : Continues db after) {id : Int}
    (issued : id ≤ db.sequence) (present : (after.rowById id).isSome) :
    after.rowContent id = db.rowContent id := by
  obtain ⟨row, found⟩ := Option.isSome_iff_exists.mp present
  obtain ⟨member, named⟩ := Db.rowById_eq_some.mp found
  rcases continues.rows row member with ⟨old, before, same, reads⟩ | new
  · have oldNamed : old.id = id := same.id.symm.trans named
    have foundOld : db.rowById id = some old := Db.rowById_eq_some.mpr ⟨before, oldNamed⟩
    rw [same.id] at reads
    simp only [Db.rowContent, found, foundOld, same.hash, same.isChunked, same.mime, same.content,
      Db.reassembled, same.size, same.id, reads]
  · omega

end

/-- Whatever runs on the store, with any writes failing: an id that was given once names nothing,
or the record it was given to, whose content reads back as it did. -/
theorem runStore_ids (sha3 : Bytes → Bytes) (before since : List Attempt) (id : Int)
    (issued : id ≤ (runStore sha3 before Db.empty).sequence) :
    ((runStore sha3 (before ++ since) Db.empty).rowById id = none ∨
      ∃ old row, (runStore sha3 before Db.empty).rowById id = some old ∧
        (runStore sha3 (before ++ since) Db.empty).rowById id = some row ∧ SameRecord old row ∧
        (runStore sha3 (before ++ since) Db.empty).rowContent id =
          (runStore sha3 before Db.empty).rowContent id) := by
  have continues := runStore_extends sha3 before since
  rw [runStore_append]
  cases found : (runStore sha3 since (runStore sha3 before Db.empty)).rowById id with
  | none => exact .inl rfl
  | some row =>
      have reads := continues.rowContent issued (by rw [found]; rfl)
      obtain ⟨member, named⟩ := Db.rowById_eq_some.mp found
      rcases continues.rows row member with ⟨old, present, same, _⟩ | new
      · have oldFound := Db.rowById_eq_some.mpr ⟨present, same.id.symm.trans named⟩
        exact .inr ⟨old, row, oldFound, rfl, same, reads⟩
      · omega

def textInsert (now : Int) (maxHistory : UInt64) : StoreOp :=
  .upsert now .byRowid "text/plain".toList (.record ⟨sampleText, sampleText_fits⟩)
    (toHex (sampleSha3 sampleText)) maxHistory

def imageInsert (now : Int) (maxHistory : UInt64) : StoreOp :=
  .upsert now .byRowid "image/png".toList (.detached 4) (toHex (sampleSha3 sampleImage)) maxHistory

-- The record is touched and pinned, another one comes, and a wipe fails.
def sinceText : List Attempt :=
  [⟨.updateTimestamp 2000 1, .none⟩, ⟨.setPinned 1 true, .none⟩, ⟨imageInsert 2001 256, .none⟩,
    ⟨.wipe, commitFails⟩]

theorem runStore_ids_sample :
    let before : List Attempt := [⟨textInsert 1000 256, .none⟩]
    ((runStore sampleSha3 (before ++ sinceText) Db.empty).rowById 1).isSome = true ∧
    ((runStore sampleSha3 (before ++ sinceText) Db.empty).rowById 1 = none ∨
      ∃ old row, (runStore sampleSha3 before Db.empty).rowById 1 = some old ∧
        (runStore sampleSha3 (before ++ sinceText) Db.empty).rowById 1 = some row ∧
        SameRecord old row ∧
        (runStore sampleSha3 (before ++ sinceText) Db.empty).rowContent 1 =
          (runStore sampleSha3 before Db.empty).rowContent 1) :=
  ⟨by decide, runStore_ids sampleSha3 _ _ 1 (Int.le_of_eq rfl)⟩

end Y4p
