import Y4p.Storage.Effects

/-!
The chunk tables: the counts in `chunks` agree with the entries of `manifest`,
whatever transaction body ran.
-/

namespace Y4p

def uses (db : Db) (hash : Bytes) : Nat :=
  db.manifest.countP fun entry => entry.chunkHash = hash

-- Counts equal uses, nothing is unreferenced, and no entry names a missing chunk or row.
structure RefsExact (db : Db) : Prop where
  counted : ∀ chunk ∈ db.chunks,
    chunk.refcount = (uses db chunk.hash : Int) ∧ 0 < uses db chunk.hash
  chunkExists : ∀ entry ∈ db.manifest, ∃ chunk ∈ db.chunks, chunk.hash = entry.chunkHash
  rowExists : ∀ entry ∈ db.manifest,
    ∃ row ∈ db.clipboard, row.id = entry.clipboardId ∧ row.isChunked = true

namespace RefsExact

variable {db after : Db}

/-- An entry found under an id that has no chunked row would be an orphan. -/
theorem manifestOf_eq_nil (refs : RefsExact db) {id : Int}
    (unowned : ∀ row ∈ db.clipboard, row.id = id → row.isChunked = false) :
    db.manifestOf id = [] := by
  rw [Db.manifestOf, List.filter_eq_nil_iff]
  intro entry member named
  obtain ⟨row, present, owner, chunked⟩ := refs.rowExists entry member
  have inline := unowned row present (owner.trans (by simpa using named))
  simp [chunked] at inline

theorem manifestOf_inline (refs : RefsExact db) {row : Row} (present : row ∈ db.clipboard)
    (inline : row.isChunked = false) : db.manifestOf row.id = [] := by
  apply refs.manifestOf_eq_nil
  intro other member same
  rw [Db.eq_of_id member present same]
  exact inline

theorem manifestOf_unissued (refs : RefsExact db) {id : Int} (unissued : db.sequence < id) :
    db.manifestOf id = [] := by
  apply refs.manifestOf_eq_nil
  intro row present same
  have bound := (db.idsIssued row present).2
  omega

theorem of_rows (refs : RefsExact db) (chunks : after.chunks = db.chunks)
    (manifest : after.manifest = db.manifest)
    (rows : ∀ row ∈ db.clipboard, row.isChunked = true → db.manifestOf row.id ≠ [] →
      ∃ kept ∈ after.clipboard, kept.id = row.id ∧ kept.isChunked = true) : RefsExact after where
  counted := by
    unfold uses
    rw [chunks, manifest]
    exact refs.counted
  chunkExists := by
    rw [chunks, manifest]
    exact refs.chunkExists
  rowExists := by
    rw [manifest]
    intro entry member
    obtain ⟨row, present, owner, chunked⟩ := refs.rowExists entry member
    have listed : db.manifestOf row.id ≠ [] := by
      apply List.ne_nil_of_mem (a := entry)
      simp [Db.manifestOf, member, owner]
    obtain ⟨kept, stays, same, still⟩ := rows row present chunked listed
    exact ⟨kept, stays, same.trans owner, still⟩

theorem updateRows (refs : RefsExact db) (change : Row → Row)
    (sameId : ∀ row, (change row).id = row.id) (sameHash : ∀ row, (change row).hash = row.hash)
    (sameChunked : ∀ row, (change row).isChunked = row.isChunked) :
    RefsExact (db.updateRows change sameId sameHash) := by
  refine refs.of_rows rfl rfl ?_
  intro row present chunked _
  exact ⟨change row, List.mem_map_of_mem present, sameId row, (sameChunked row).trans chunked⟩

theorem touch (refs : RefsExact db) (timestamp id : Int) : RefsExact (db.touch timestamp id) :=
  refs.updateRows _ _ _ fun row => by unfold Row.touch; split <;> rfl

theorem pin (refs : RefsExact db) (isPinned : Bool) (id : Int) : RefsExact (db.pin isPinned id) :=
  refs.updateRows _ _ _ fun row => by unfold Row.pin; split <;> rfl

theorem insertRow (refs : RefsExact db) (new : NewRow) (free : db.HashFree new.hash) :
    RefsExact (db.insertRow new free) := by
  refine refs.of_rows rfl rfl ?_
  intro row present chunked _
  exact ⟨row, List.mem_append_left _ present, rfl, chunked⟩

theorem deleteRows (refs : RefsExact db) (doomed : Row → Bool)
    (released : ∀ row ∈ db.clipboard, doomed row = true → db.manifestOf row.id = []) :
    RefsExact (db.deleteRows doomed) := by
  refine refs.of_rows rfl rfl ?_
  intro row present chunked listed
  refine ⟨row, ?_, rfl, chunked⟩
  simp only [Db.deleteRows, List.mem_filter, present, true_and, Bool.not_eq_true']
  cases verdict : doomed row with
  | false => rfl
  | true => exact absurd (released row present verdict) listed

theorem uses_append (entry : ManifestEntry) (hash : Bytes)
    (manifest : after.manifest = db.manifest ++ [entry]) :
    uses after hash = uses db hash + if entry.chunkHash = hash then 1 else 0 := by
  rw [uses, manifest, List.countP_append, uses, List.countP_singleton]
  simp

theorem uses_absent (refs : RefsExact db) {digest : Bytes}
    (absent : digest ∉ db.chunks.map Chunk.hash) : uses db digest = 0 := by
  rw [uses, List.countP_eq_zero]
  intro entry member named
  obtain ⟨chunk, present, same⟩ := refs.chunkExists entry member
  have hash : chunk.hash = digest := same.trans (by simpa using named)
  exact absent (List.mem_map.mpr ⟨chunk, present, hash⟩)

theorem storesChunk {sha3 : Bytes → Bytes} {id : Int} {seq : Nat} {piece : Bytes}
    (refs : RefsExact db) (stores : StoresChunk sha3 db id seq piece after)
    (owner : ∃ row ∈ db.clipboard, row.id = id ∧ row.isChunked = true) : RefsExact after := by
  have counts := fun hash => uses_append _ hash stores.manifest
  have kept : ∀ chunk ∈ db.chunks, ∃ other ∈ after.chunks, other.hash = chunk.hash := by
    intro chunk present
    rw [stores.chunks, countChunk]
    split
    · refine ⟨chunk.reuse (sha3 piece), List.mem_map_of_mem present, ?_⟩
      unfold Chunk.reuse
      split <;> rfl
    · exact ⟨chunk, List.mem_append_left _ present, rfl⟩
  have added : ∃ other ∈ after.chunks, other.hash = sha3 piece := by
    by_cases known : sha3 piece ∈ db.chunks.map Chunk.hash
    · obtain ⟨chunk, present, same⟩ := List.mem_map.mp known
      obtain ⟨other, stays, still⟩ := kept chunk present
      exact ⟨other, stays, still.trans same⟩
    · rw [stores.chunks, countChunk, if_neg known]
      exact ⟨_, List.mem_append_right _ (List.mem_singleton.mpr rfl), rfl⟩
  constructor
  · intro chunk member
    rw [counts]
    rw [stores.chunks, countChunk] at member
    split at member
    · obtain ⟨old, present, rfl⟩ := List.mem_map.mp member
      have exact := refs.counted old present
      simp only [Chunk.reuse]
      by_cases same : old.hash = sha3 piece
      · simp only [same, if_true] at exact ⊢
        omega
      · have differs : ¬ sha3 piece = old.hash := fun eq => same eq.symm
        simp only [same, differs, if_false] at exact ⊢
        omega
    · rename_i unknown
      rcases List.mem_append.mp member with present | new
      · have exact := refs.counted chunk present
        have differs : ¬ sha3 piece = chunk.hash := fun same =>
          unknown (List.mem_map.mpr ⟨chunk, present, same.symm⟩)
        simp only [differs, if_false]
        omega
      · rw [List.mem_singleton] at new
        subst new
        have unused := refs.uses_absent unknown
        simp only [if_true]
        omega
  · intro entry member
    rw [stores.manifest] at member
    rcases List.mem_append.mp member with present | new
    · obtain ⟨chunk, stored, named⟩ := refs.chunkExists entry present
      obtain ⟨other, stays, same⟩ := kept chunk stored
      exact ⟨other, stays, same.trans named⟩
    · rw [List.mem_singleton] at new
      subst new
      exact added
  · intro entry member
    rw [stores.manifest] at member
    rw [stores.clipboard]
    rcases List.mem_append.mp member with present | new
    · exact refs.rowExists entry present
    · rw [List.mem_singleton] at new
      subst new
      exact owner

theorem storesFrom {sha3 : Bytes → Bytes} {id : Int} {seq : Nat} {pieces : List Bytes}
    (refs : RefsExact db) (stores : StoresFrom sha3 id db seq pieces after)
    (owner : ∃ row ∈ db.clipboard, row.id = id ∧ row.isChunked = true) : RefsExact after := by
  induction stores with
  | nil => exact refs
  | cons first _ ih =>
      refine ih (refs.storesChunk first owner) ?_
      rw [first.clipboard]
      exact owner

theorem uses_release (db : Db) (id : Int) (hash : Bytes) :
    uses db hash = references db id hash + uses (db.release id) hash :=
  List.countP_eq_countP_filter_add db.manifest _ fun entry => decide (entry.clipboardId = id)

theorem mem_release_chunks {id : Int} {chunk : Chunk} :
    chunk ∈ (db.release id).chunks ↔
      ∃ old ∈ db.chunks, chunk = old.release db id ∧
        ¬ (chunk.refcount ≤ 0 ∧ ∃ entry ∈ db.manifestOf id, entry.chunkHash = chunk.hash) := by
  simp only [Db.release, Db.deleteManifestOf, Db.deleteEntries, Db.deleteUnreferenced,
    Db.deleteChunks, Db.dropReferences, Db.updateChunks, List.mem_filter, List.mem_map]
  constructor
  · rintro ⟨⟨old, present, rfl⟩, kept⟩
    refine ⟨old, present, rfl, ?_⟩
    rintro ⟨empty, entry, listed, named⟩
    have doomed : (db.manifestOf id).any
        (fun entry => entry.chunkHash = (old.release db id).hash) = true := by
      rw [List.any_eq_true]
      exact ⟨entry, listed, by simpa using named⟩
    change (!(decide ((old.release db id).refcount ≤ 0) && (db.manifestOf id).any
      fun entry => entry.chunkHash = (old.release db id).hash)) = true at kept
    simp [empty, doomed] at kept
  · rintro ⟨old, present, rfl, kept⟩
    refine ⟨⟨old, present, rfl⟩, ?_⟩
    change (!(decide ((old.release db id).refcount ≤ 0) && (db.manifestOf id).any
      fun entry => entry.chunkHash = (old.release db id).hash)) = true
    rw [Bool.not_eq_true', Bool.and_eq_false_iff, or_iff_not_imp_left]
    intro low
    rw [List.any_eq_false]
    intro entry listed named
    exact kept ⟨by simpa using low, entry, listed, by simpa using named⟩

theorem release (refs : RefsExact db) (id : Int) : RefsExact (db.release id) := by
  have count : ∀ old ∈ db.chunks,
      (old.release db id).refcount = (uses (db.release id) old.hash : Int) := by
    intro old present
    have exact := (refs.counted old present).1
    have parts := uses_release db id old.hash
    change old.refcount - (references db id old.hash : Int) = _
    omega
  have unreferenced : ∀ hash, (¬ ∃ entry ∈ db.manifestOf id, entry.chunkHash = hash) →
      references db id hash = 0 := by
    intro hash none
    rw [references, List.countP_eq_zero]
    intro entry listed named
    exact none ⟨entry, listed, by simpa using named⟩
  constructor
  · intro chunk member
    obtain ⟨old, present, rfl, kept⟩ := mem_release_chunks.mp member
    refine ⟨count old present, ?_⟩
    change 0 < uses (db.release id) old.hash
    have parts := uses_release db id old.hash
    have before := (refs.counted old present).2
    by_cases named : ∃ entry ∈ db.manifestOf id, entry.chunkHash = old.hash
    · have positive : ¬ (old.release db id).refcount ≤ 0 := fun low => kept ⟨low, named⟩
      rw [count old present] at positive
      omega
    · have none := unreferenced old.hash named
      omega
  · intro entry member
    rw [Db.release_manifest, List.mem_filter] at member
    obtain ⟨old, present, named⟩ := refs.chunkExists entry member.1
    have used : 0 < uses (db.release id) old.hash := by
      rw [uses, List.countP_pos_iff]
      refine ⟨entry, ?_, by simpa using named.symm⟩
      rw [Db.release_manifest, List.mem_filter]
      exact member
    refine ⟨old.release db id, mem_release_chunks.mpr ⟨old, present, rfl, ?_⟩, named⟩
    rintro ⟨low, _⟩
    rw [count old present] at low
    omega
  · intro entry member
    rw [Db.release_manifest, List.mem_filter] at member
    exact refs.rowExists entry member.1

theorem releaseRow (refs : RefsExact db) (row : Expiring) : RefsExact (db.releaseRow row) := by
  unfold Db.releaseRow
  split
  · exact refs.release row.id
  · exact refs

theorem releaseRows (refs : RefsExact db) (rows : List Expiring) :
    RefsExact (db.releaseRows rows) := by
  induction rows generalizing db with
  | nil => exact refs
  | cons row rest ih => exact ih (refs.releaseRow row)

end RefsExact

theorem release_manifestOf (db : Db) (released id : Int) :
    (db.release released).manifestOf id = if id = released then [] else db.manifestOf id := by
  rw [Db.manifestOf, Db.release_manifest, List.filter_filter]
  split
  · rename_i same
    rw [List.filter_eq_nil_iff]
    intro entry _
    simp [same]
  · rename_i differs
    rw [Db.manifestOf]
    apply List.filter_congr
    intro entry _
    by_cases named : entry.clipboardId = id <;> simp [named, differs]

theorem releaseRow_manifestOf (db : Db) (row : Expiring) (id : Int) :
    (db.releaseRow row).manifestOf id =
      if row.isChunked = true ∧ id = row.id then [] else db.manifestOf id := by
  unfold Db.releaseRow
  by_cases chunked : row.isChunked = true
  · simp only [chunked, if_true, true_and]
    exact release_manifestOf db row.id id
  · simp [chunked]

theorem releaseRows_manifestOf (db : Db) (rows : List Expiring) (id : Int) :
    (db.releaseRows rows).manifestOf id =
      if ∃ row ∈ rows, row.isChunked = true ∧ id = row.id then [] else db.manifestOf id := by
  induction rows generalizing db with
  | nil => simp [Db.releaseRows]
  | cons row rest ih =>
      change ((db.releaseRow row).releaseRows rest).manifestOf id = _
      rw [ih, releaseRow_manifestOf]
      by_cases now : row.isChunked = true ∧ id = row.id
      · simp [now]
      · simp [now]

theorem mem_expired {tie : TieOrder} {offset : Int} {db : Db} {row : Row}
    (member : row ∈ expired tie offset db) : row ∈ db.clipboard ∧ row.isPinned = false := by
  have listed := Ranking.mem_of_mem_dropped _ member
  simpa [unpinned] using listed

theorem mem_expired_of_id {tie : TieOrder} {offset : Int} {db : Db} {row : Row}
    (present : row ∈ db.clipboard) (named : row.id ∈ (expired tie offset db).map Row.id) :
    row ∈ expired tie offset db := by
  obtain ⟨other, listed, same⟩ := List.mem_map.mp named
  rw [← Db.eq_of_id (mem_expired listed).1 present same]
  exact listed

/-- A row that is not rotated out keeps its manifest. -/
theorem rotated_manifestOf {db : Db} {tie : TieOrder} {maxHistory : UInt64} {row : Row}
    (kept : row ∈ (db.rotated tie tie maxHistory).clipboard) :
    (db.rotated tie tie maxHistory).manifestOf row.id = db.manifestOf row.id := by
  rw [rotated_clipboard, List.mem_filter] at kept
  have survives : row.id ∉ (expired tie (quota maxHistory) db).map Row.id := by
    simpa using kept.2
  change (db.releaseRows (expiring tie maxHistory db)).manifestOf row.id = _
  rw [releaseRows_manifestOf, if_neg]
  rintro ⟨released, listed, _, same⟩
  obtain ⟨doomed, expires, rfl⟩ := List.mem_map.mp listed
  exact survives (List.mem_map.mpr ⟨doomed, expires, same.symm⟩)

namespace RefsExact

variable {db after : Db}

theorem releaseRows_deleteExpired (refs : RefsExact db) {rows : List Expiring} {tie : TieOrder}
    {offset : Int} (released : ∀ row ∈ expired tie offset db, db.manifestOf row.id ≠ [] →
      ∃ fetched ∈ rows, fetched.isChunked = true ∧ row.id = fetched.id) :
    RefsExact ((db.releaseRows rows).deleteExpired tie offset) := by
  refine (refs.releaseRows rows).deleteRows _ ?_
  intro row present doomed
  have named : row.id ∈ (expired tie offset (db.releaseRows rows)).map Row.id := by
    simpa using doomed
  rw [expired_congr (Db.releaseRows_clipboard db rows)] at named
  rw [Db.releaseRows_clipboard] at present
  have expires := mem_expired_of_id present named
  rw [releaseRows_manifestOf]
  split
  · rfl
  · rename_i unreleased
    by_contra listed
    exact unreleased (released row expires listed)

theorem rotated (refs : RefsExact db) (tie : TieOrder) (maxHistory : UInt64) :
    RefsExact (db.rotated tie tie maxHistory) := by
  refine refs.releaseRows_deleteExpired ?_
  intro row expires listed
  refine ⟨row.expiring, List.mem_map_of_mem expires, ?_, rfl⟩
  cases chunked : row.isChunked with
  | true => exact chunked
  | false => exact absurd (refs.manifestOf_inline (mem_expired expires).1 chunked) listed

theorem dropped (refs : RefsExact db) (id : Int) : RefsExact (db.dropped id) := by
  unfold Db.dropped
  split
  · rename_i row found
    obtain ⟨present, named⟩ := Db.rowById_eq_some.mp found
    refine (refs.releaseRow row.expiring).deleteRows _ ?_
    intro other member doomed
    rw [Db.releaseRow_clipboard] at member
    have same : other.id = id := by simpa using doomed
    rw [Db.eq_of_id member present (same.trans named.symm), releaseRow_manifestOf]
    split
    · rfl
    · rename_i inline
      apply refs.manifestOf_inline present
      simpa [Row.expiring] using inline
  · rename_i absent
    refine refs.deleteRows _ ?_
    intro row present doomed
    exact absurd (by simpa using doomed) (Db.rowById_eq_none.mp absent row present)

theorem wiped : RefsExact db.wiped where
  counted := by simp [Db.wiped, Db.deleteRows, Db.deleteChunks]
  chunkExists := by simp [Db.wiped, Db.deleteRows, Db.deleteChunks, Db.deleteEntries]
  rowExists := by simp [Db.wiped, Db.deleteRows, Db.deleteChunks, Db.deleteEntries]

theorem empty : RefsExact Db.empty where
  counted := by simp [Db.empty]
  chunkExists := by simp [Db.empty]
  rowExists := by simp [Db.empty]

theorem places {sha3 : Bytes → Bytes} {now id : Int} {mime hash : Str} {body : Body}
    {placed : Db} (refs : RefsExact db) (places : Places sha3 db now mime body hash id placed) :
    RefsExact placed := by
  cases places with
  | touched _ => exact refs.touch now _
  | inserted absent _ => exact refs.insertRow _ _
  | chunked absent content stores =>
      refine (refs.insertRow _ _).storesFrom stores ?_
      refine ⟨insertedRow db now mime body hash, ?_, rfl, ?_⟩
      · exact List.mem_append_right _ (List.mem_singleton.mpr rfl)
      · change (body.parts mime).2.isChunked = true
        rw [content]
        rfl

end RefsExact

end Y4p
