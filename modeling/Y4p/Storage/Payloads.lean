import Y4p.Storage.Chunks

/-!
Which bytes a row stands for, and that every transaction body leaves the rows it
keeps standing for the same bytes.
-/

namespace Y4p

-- A row may be touched or pinned; everything else about it is fixed at insertion.
structure SameRecord (old row : Row) : Prop where
  id : row.id = old.id
  mime : row.mime = old.mime
  size : row.size = old.size
  preview : row.preview = old.preview
  content : row.content = old.content
  hash : row.hash = old.hash
  isChunked : row.isChunked = old.isChunked

theorem SameRecord.refl (row : Row) : SameRecord row row :=
  ⟨rfl, rfl, rfl, rfl, rfl, rfl, rfl⟩

theorem SameRecord.touch (timestamp id : Int) (row : Row) :
    SameRecord row (row.touch timestamp id) := by
  unfold Row.touch
  split
  · exact ⟨rfl, rfl, rfl, rfl, rfl, rfl, rfl⟩
  · exact .refl row

theorem SameRecord.pin (isPinned : Bool) (id : Int) (row : Row) :
    SameRecord row (row.pin isPinned id) := by
  unfold Row.pin
  split
  · exact ⟨rfl, rfl, rfl, rfl, rfl, rfl, rfl⟩
  · exact .refl row

def Inherits (db after : Db) (row : Row) : Prop :=
  ∃ old ∈ db.clipboard, SameRecord old row ∧ after.manifestOf row.id = db.manifestOf row.id

theorem touch_inherits {db : Db} {timestamp id : Int} {row : Row}
    (member : row ∈ (db.touch timestamp id).clipboard) :
    Inherits db (db.touch timestamp id) row := by
  obtain ⟨old, present, rfl⟩ := List.mem_map.mp member
  exact ⟨old, present, SameRecord.touch timestamp id old, rfl⟩

theorem pin_inherits {db : Db} {isPinned : Bool} {id : Int} {row : Row}
    (member : row ∈ (db.pin isPinned id).clipboard) : Inherits db (db.pin isPinned id) row := by
  obtain ⟨old, present, rfl⟩ := List.mem_map.mp member
  exact ⟨old, present, SameRecord.pin isPinned id old, rfl⟩

theorem rotated_inherits {db : Db} {tie : TieOrder} {maxHistory : UInt64} {row : Row}
    (member : row ∈ (db.rotated tie tie maxHistory).clipboard) :
    Inherits db (db.rotated tie tie maxHistory) row := by
  have same := rotated_manifestOf member
  rw [rotated_clipboard] at member
  exact ⟨row, List.mem_of_mem_filter member, .refl row, same⟩

theorem dropped_clipboard (db : Db) (id : Int) :
    (db.dropped id).clipboard = db.clipboard.filter fun row => !decide (row.id = id) := by
  unfold Db.dropped
  split
  · rename_i row _
    change ((db.releaseRow row.expiring).clipboard.filter fun row => !decide (row.id = id)) = _
    rw [Db.releaseRow_clipboard]
  · rfl

theorem dropped_inherits {db : Db} {id : Int} {row : Row}
    (member : row ∈ (db.dropped id).clipboard) : Inherits db (db.dropped id) row := by
  have kept := member
  rw [dropped_clipboard, List.mem_filter] at kept
  have differs : row.id ≠ id := by simpa using kept.2
  refine ⟨row, kept.1, .refl row, ?_⟩
  unfold Db.dropped
  split
  · rename_i other found
    obtain ⟨_, named⟩ := Db.rowById_eq_some.mp found
    change (db.releaseRow other.expiring).manifestOf row.id = _
    rw [releaseRow_manifestOf, if_neg]
    rintro ⟨_, same⟩
    exact differs (same.trans named)
  · rfl

theorem wiped_clipboard (db : Db) : db.wiped.clipboard = [] := by
  simp [Db.wiped, Db.deleteRows, Db.deleteChunks, Db.deleteEntries]

section
variable (sha3 : Bytes → Bytes)

def entriesFrom (id : Int) : Nat → List Bytes → List ManifestEntry
  | _, [] => []
  | seq, piece :: rest =>
      { clipboardId := id, seq := seq, chunkHash := sha3 piece } :: entriesFrom id (seq + 1) rest

theorem entriesFrom_named (id other : Int) (seq : Nat) (pieces : List Bytes) :
    (entriesFrom sha3 id seq pieces).filter (fun entry => entry.clipboardId = other) =
      if id = other then entriesFrom sha3 id seq pieces else [] := by
  induction pieces generalizing seq with
  | nil => simp [entriesFrom]
  | cons piece rest ih =>
      simp only [entriesFrom, List.filter_cons, ih]
      by_cases same : id = other <;> simp [same]

theorem StoresFrom.manifest {id : Int} {seq : Nat} {pieces : List Bytes} {db after : Db}
    (stores : StoresFrom sha3 id db seq pieces after) :
    after.manifest = db.manifest ++ entriesFrom sha3 id seq pieces := by
  induction stores with
  | nil => simp [entriesFrom]
  | cons first _ ih =>
      rw [ih, first.manifest, entriesFrom, List.append_assoc]
      rfl

end

theorem Body.chunked_bytes {mime : Str} {body : Body} {data : Bytes}
    (content : (body.parts mime).2 = .chunked data) : body = .bytes data := by
  cases body with
  | detached len => simp [Body.parts] at content
  | bytes bytes =>
      simp only [Body.parts, rowParts, contentOf] at content
      split at content
      · simpa using content
      · split at content
        · simp at content
        · split at content <;> simp at content

theorem Body.inline_bytes {mime : Str} {body : Body} {bytes : Bytes}
    (content : (body.parts mime).2.value.bytes? = some bytes) : body = .bytes bytes := by
  cases body with
  | detached len => simp [Body.parts, Content.value, Value.bytes?] at content
  | bytes data =>
      simp only [Body.parts, rowParts, contentOf] at content
      split at content
      · simp [Content.value, Value.bytes?] at content
      · split at content
        · simpa [Content.value, Value.bytes?] using content
        · split at content
          · simp [Content.value, Value.bytes?] at content
          · simpa [Content.value, Value.bytes?] using content

section
variable {sha3 : Bytes → Bytes} {db placed : Db} {now id : Int} {mime hash : Str} {body : Body}

/-- After an insertion: the rows of before, and one new row with the manifest of its payload. -/
theorem Places.rows (refs : RefsExact db) (places : Places sha3 db now mime body hash id placed)
    {row : Row} (member : row ∈ placed.clipboard) :
    Inherits db placed row ∨
      (db.rowByHash hash = none ∧ row = insertedRow db now mime body hash ∧
        ∀ data, (body.parts mime).2 = .chunked data →
          placed.manifestOf row.id = entriesFrom sha3 row.id 0 (fastCdc data)) := by
  cases places with
  | touched found => exact .inl (touch_inherits member)
  | inserted absent inline =>
      rcases List.mem_append.mp member with present | new
      · exact .inl ⟨row, present, .refl row, rfl⟩
      · refine .inr ⟨absent, List.mem_singleton.mp new, ?_⟩
        intro data content
        simp [content, Content.isChunked] at inline
  | @chunked cut _ absent content stores =>
      have manifest : placed.manifest = db.manifest ++
          entriesFrom sha3 (db.sequence + 1) 0 (fastCdc cut) := stores.manifest
      have listed : ∀ other : Int, placed.manifestOf other = db.manifestOf other ++
          if db.sequence + 1 = other then entriesFrom sha3 (db.sequence + 1) 0 (fastCdc cut)
          else [] := by
        intro other
        rw [Db.manifestOf, manifest, List.filter_append, entriesFrom_named]
        rfl
      rw [stores.rows.1] at member
      rcases List.mem_append.mp member with present | new
      · have issued := (db.idsIssued row present).2
        refine .inl ⟨row, present, .refl row, ?_⟩
        rw [listed, if_neg (by omega), List.append_nil]
      · have named : row = insertedRow db now mime body hash := List.mem_singleton.mp new
        have issued : row.id = db.sequence + 1 := by
          rw [named]
          rfl
        refine .inr ⟨absent, named, ?_⟩
        intro data same
        rw [content] at same
        injection same with same
        rw [listed, issued, if_pos rfl, refs.manifestOf_unissued (by omega), List.nil_append, same]

end

theorem Body.chunked_long {mime : Str} {body : Body} {data : Bytes}
    (content : (body.parts mime).2 = .chunked data) : cdcMinChunkBytes < data.length := by
  have isBytes := Body.chunked_bytes content
  subst isBytes
  simp only [Body.parts, rowParts, contentOf] at content
  split at content
  · rename_i chunkable
    simp only [isChunkable, Bool.and_eq_true, decide_eq_true_eq] at chunkable
    exact chunkable.2
  · split at content
    · simp at content
    · split at content <;> simp at content

theorem fastCdc_ne_nil {data : Bytes} (nonempty : data ≠ []) : fastCdc data ≠ [] := by
  intro none
  have whole := fastCdc_flatten data
  rw [none] at whole
  exact nonempty whole.symm

section
variable {sha3 : Bytes → Bytes} {db placed : Db} {now id : Int} {mime hash : Str} {body : Body}

theorem Places.manifestOf_old (places : Places sha3 db now mime body hash id placed) {other : Int}
    (old : other ≠ db.sequence + 1) : placed.manifestOf other = db.manifestOf other := by
  cases places with
  | touched _ => rfl
  | inserted absent _ => rfl
  | chunked absent _ stores =>
      rw [Db.manifestOf, stores.manifest, List.filter_append, entriesFrom_named, if_neg old.symm,
        List.append_nil]
      rfl

/-- A new chunked row has at least one chunk. -/
theorem Places.new_listed (refs : RefsExact db)
    (places : Places sha3 db now mime body hash id placed) {row : Row}
    (member : row ∈ placed.clipboard) (new : row.id = db.sequence + 1)
    (chunked : row.isChunked = true) : placed.manifestOf row.id ≠ [] := by
  rcases places.rows refs member with ⟨old, present, same, _⟩ | ⟨_, rfl, manifest⟩
  · have issued := (db.idsIssued old present).2
    have sameId := same.id
    omega
  · cases content : (body.parts mime).2 with
    | text bytes | blob bytes | none =>
        change (body.parts mime).2.isChunked = true at chunked
        simp [content, Content.isChunked] at chunked
    | chunked data =>
        rw [manifest data content]
        have long := Body.chunked_long content
        have nonempty : data ≠ [] := by
          rintro rfl
          simp at long
        obtain ⟨piece, rest, shape⟩ := List.exists_cons_of_ne_nil (fastCdc_ne_nil nonempty)
        simp [shape, entriesFrom]

end

section
variable (sha3 : Bytes → Bytes) (pool : Set Bytes) (payload : Int → Bytes)

structure Holds (db : Db) (row : Row) (data : Bytes) : Prop where
  chunked : row.isChunked = true → row.content = .null ∧ row.size = (data.length : Int) ∧
    db.manifestOf row.id = entriesFrom sha3 row.id 0 (fastCdc data) ∧
    ∀ piece ∈ fastCdc data, piece ∈ pool
  inline : ∀ bytes, row.content.bytes? = some bytes → bytes = data

structure Assembled (db : Db) : Prop where
  digests : ∀ chunk ∈ db.chunks, chunk.hash = sha3 chunk.data ∧ chunk.data ∈ pool
  holds : ∀ row ∈ db.clipboard, Holds sha3 pool db row (payload row.id)

end

section
variable {sha3 : Bytes → Bytes} {pool : Set Bytes} {payload : Int → Bytes} {db after : Db}

theorem Holds.inherits {old row : Row} {data : Bytes} (holds : Holds sha3 pool db old data)
    (same : SameRecord old row) (listed : after.manifestOf row.id = db.manifestOf row.id) :
    Holds sha3 pool after row data where
  chunked := by
    intro chunked
    rw [same.content, same.size, listed, same.id]
    exact holds.chunked (same.isChunked.symm.trans chunked)
  inline := by
    rw [same.content]
    exact holds.inline

theorem Assembled.of_inherits (assembled : Assembled sha3 pool payload db)
    (rows : ∀ row ∈ after.clipboard, Inherits db after row)
    (chunks : ∀ chunk ∈ after.chunks, ∃ old ∈ db.chunks,
      old.hash = chunk.hash ∧ old.data = chunk.data) : Assembled sha3 pool payload after where
  digests := by
    intro chunk member
    obtain ⟨old, present, hash, data⟩ := chunks chunk member
    rw [← hash, ← data]
    exact assembled.digests old present
  holds := by
    intro row member
    obtain ⟨old, present, same, listed⟩ := rows row member
    rw [same.id]
    exact (assembled.holds old present).inherits same listed

theorem release_chunks_data {id : Int} : ∀ chunk ∈ (db.release id).chunks, ∃ old ∈ db.chunks,
    old.hash = chunk.hash ∧ old.data = chunk.data := by
  intro chunk member
  obtain ⟨old, present, rfl, _⟩ := RefsExact.mem_release_chunks.mp member
  exact ⟨old, present, rfl, rfl⟩

theorem releaseRow_chunks_data {row : Expiring} : ∀ chunk ∈ (db.releaseRow row).chunks,
    ∃ old ∈ db.chunks, old.hash = chunk.hash ∧ old.data = chunk.data := by
  intro chunk member
  unfold Db.releaseRow at member
  split at member
  · exact release_chunks_data chunk member
  · exact ⟨chunk, member, rfl, rfl⟩

theorem releaseRows_chunks_data {rows : List Expiring} : ∀ chunk ∈ (db.releaseRows rows).chunks,
    ∃ old ∈ db.chunks, old.hash = chunk.hash ∧ old.data = chunk.data := by
  induction rows generalizing db with
  | nil => exact fun chunk member => ⟨chunk, member, rfl, rfl⟩
  | cons row rest ih =>
      intro chunk member
      obtain ⟨middle, present, hash, data⟩ := @ih (db.releaseRow row) chunk member
      obtain ⟨old, before, hash', data'⟩ := releaseRow_chunks_data middle present
      exact ⟨old, before, hash'.trans hash, data'.trans data⟩

theorem StoresFrom.digests {id : Int} {seq : Nat} {pieces : List Bytes}
    (stores : StoresFrom sha3 id db seq pieces after)
    (digests : ∀ chunk ∈ db.chunks, chunk.hash = sha3 chunk.data ∧ chunk.data ∈ pool)
    (pooled : ∀ piece ∈ pieces, piece ∈ pool) :
    ∀ chunk ∈ after.chunks, chunk.hash = sha3 chunk.data ∧ chunk.data ∈ pool := by
  induction stores with
  | nil => exact digests
  | @cons _ _ piece rest _ _ first _ ih =>
      refine ih ?_ fun piece member => pooled piece (List.mem_cons_of_mem _ member)
      intro chunk member
      rw [first.chunks, countChunk] at member
      split at member
      · obtain ⟨old, present, rfl⟩ := List.mem_map.mp member
        unfold Chunk.reuse
        split <;> exact digests old present
      · rcases List.mem_append.mp member with present | new
        · exact digests chunk present
        · rw [List.mem_singleton.mp new]
          exact ⟨rfl, pooled piece (by simp)⟩

namespace Assembled

theorem touch (assembled : Assembled sha3 pool payload db) (timestamp id : Int) :
    Assembled sha3 pool payload (db.touch timestamp id) :=
  assembled.of_inherits (fun _ => touch_inherits) fun chunk member => ⟨chunk, member, rfl, rfl⟩

theorem pin (assembled : Assembled sha3 pool payload db) (isPinned : Bool) (id : Int) :
    Assembled sha3 pool payload (db.pin isPinned id) :=
  assembled.of_inherits (fun _ => pin_inherits) fun chunk member => ⟨chunk, member, rfl, rfl⟩

theorem rotated (assembled : Assembled sha3 pool payload db) (tie : TieOrder)
    (maxHistory : UInt64) : Assembled sha3 pool payload (db.rotated tie tie maxHistory) :=
  assembled.of_inherits (fun _ => rotated_inherits) releaseRows_chunks_data

theorem dropped (assembled : Assembled sha3 pool payload db) (id : Int) :
    Assembled sha3 pool payload (db.dropped id) := by
  refine assembled.of_inherits (fun _ => dropped_inherits) ?_
  unfold Db.dropped
  split
  · exact releaseRow_chunks_data
  · exact fun chunk member => ⟨chunk, member, rfl, rfl⟩

theorem wiped : Assembled sha3 pool payload db.wiped where
  digests := by simp [Db.wiped, Db.deleteRows, Db.deleteChunks]
  holds := by simp [wiped_clipboard]

theorem empty : Assembled sha3 pool payload Db.empty where
  digests := by simp [Db.empty]
  holds := by simp [Db.empty]

/-- The new row stands for `data`; a touched row keeps what it stood for. -/
theorem places {now id : Int} {mime hash : Str} {body : Body} {placed : Db} {data : Bytes}
    (assembled : Assembled sha3 pool payload db) (refs : RefsExact db)
    (places : Places sha3 db now mime body hash id placed)
    (stands : ∀ bytes, body = .bytes bytes → bytes = data)
    (fits : data.length < 2 ^ 63)
    (pooled : ∀ piece ∈ fastCdc data, piece ∈ pool) :
    Assembled sha3 pool
      (if db.rowByHash hash = none then Function.update payload (db.sequence + 1) data
        else payload) placed := by
  constructor
  · cases places with
    | touched _ => exact assembled.digests
    | inserted absent _ => exact assembled.digests
    | chunked absent content stores =>
        refine stores.digests assembled.digests ?_
        rw [stands _ (Body.chunked_bytes content)]
        exact pooled
  · intro row member
    rcases places.rows refs member with ⟨old, present, same, listed⟩ | ⟨absent, rfl, manifest⟩
    · have kept := (assembled.holds old present).inherits same listed
      have issued := (db.idsIssued old present).2
      have differs : row.id ≠ db.sequence + 1 := by
        rw [same.id]
        omega
      split
      · rw [Function.update_of_ne differs, same.id]
        exact kept
      · rw [same.id]
        exact kept
    · rw [if_pos absent, show (insertedRow db now mime body hash).id = db.sequence + 1 from rfl,
        Function.update_self]
      constructor
      · intro chunked
        change (body.parts mime).2.isChunked = true at chunked
        cases content : (body.parts mime).2 with
        | text bytes | blob bytes | none => simp [content, Content.isChunked] at chunked
        | chunked bytes =>
            have isBytes := Body.chunked_bytes content
            have same := stands bytes isBytes
            subst same
            refine ⟨?_, ?_, manifest bytes content, pooled⟩
            · change (body.parts mime).2.value = .null
              rw [content]
              rfl
            · change asI64 body.len = _
              rw [isBytes]
              simp only [Body.len, asI64]
              omega
      · intro bytes inline
        exact stands bytes (Body.inline_bytes inline)

end Assembled

end

end Y4p
