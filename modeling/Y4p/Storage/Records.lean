import Y4p.Storage.ChunkInvariant
import Y4p.Storage.Rotation

/-!
Rows as records of payloads: the digest and length a row carries are those of the
payload whose insertion created it, and no operation changes that.
-/

namespace Y4p

section
variable {sha3 : Bytes → Bytes} {db after : Db} {now : Int} {tie : TieOrder} {mime hash : Str}
  {body : Body} {maxHistory : UInt64} {outcome : UpsertOutcome}

theorem Places.hashes {placed : Db} {id : Int}
    (places : Places sha3 db now mime body hash id placed) {name : Str} :
    (∃ row ∈ placed.clipboard, row.hash = some name) ↔
      (∃ row ∈ db.clipboard, row.hash = some name) ∨ name = hash := by
  rw [places.clipboard]
  unfold placedRows
  cases found : db.rowByHash hash with
  | some old =>
      obtain ⟨present, named⟩ := Db.rowByHash_eq_some.mp found
      constructor
      · rintro ⟨row, member, same⟩
        obtain ⟨before, listed, rfl⟩ := List.mem_map.mp member
        rw [(SameRecord.touch now old.id before).hash] at same
        exact .inl ⟨before, listed, same⟩
      · intro cases
        have listed : ∃ row ∈ db.clipboard, row.hash = some name := by
          rcases cases with listed | rfl
          · exact listed
          · exact ⟨old, present, named⟩
        obtain ⟨row, member, same⟩ := listed
        exact ⟨_, List.mem_map_of_mem member, (SameRecord.touch now old.id row).hash.trans same⟩
  | none =>
      constructor
      · rintro ⟨row, member, same⟩
        rcases List.mem_append.mp member with listed | new
        · exact .inl ⟨row, listed, same⟩
        · rw [List.mem_singleton.mp new] at same
          injection same with same
          exact .inr same.symm
      · rintro (⟨row, member, same⟩ | rfl)
        · exact ⟨row, List.mem_append_left _ member, same⟩
        · exact ⟨_, List.mem_append_right _ (List.mem_singleton.mpr rfl), rfl⟩

namespace Upserted

theorem rows (upserted : Upserted sha3 db now tie mime body hash maxHistory outcome after)
    {row : Row} (member : row ∈ after.clipboard) :
    (∃ old ∈ db.clipboard, SameRecord old row) ∨
      (db.rowByHash hash = none ∧ row = insertedRow db now mime body hash) := by
  obtain ⟨placed, places, _, _, rfl⟩ := upserted
  have present := (mem_rotated.mp member).1
  rw [places.clipboard] at present
  unfold placedRows at present
  cases found : db.rowByHash hash with
  | some old =>
      rw [found] at present
      obtain ⟨before, listed, rfl⟩ := List.mem_map.mp present
      exact .inl ⟨before, listed, SameRecord.touch now old.id before⟩
  | none =>
      rw [found] at present
      rcases List.mem_append.mp present with listed | new
      · exact .inl ⟨row, listed, .refl row⟩
      · exact .inr ⟨rfl, List.mem_singleton.mp new⟩

theorem realId_pos (upserted : Upserted sha3 db now tie mime body hash maxHistory outcome after) :
    1 ≤ outcome.realId := by
  obtain ⟨placed, places, _⟩ := upserted
  obtain ⟨row, present, named, _⟩ := places.row
  rw [← named]
  exact (placed.idsIssued row present).1

/-- A reported hash names no row any more. -/
theorem expired_gone (upserted : Upserted sha3 db now tie mime body hash maxHistory outcome after)
    {name : Str} (listed : name ∈ outcome.expiredHashes) :
    ∀ row ∈ after.clipboard, row.hash ≠ some name := by
  obtain ⟨placed, places, _, reported, rfl⟩ := upserted
  intro row member same
  obtain ⟨present, spared⟩ := mem_rotated.mp member
  rw [reported, expiring, List.filterMap_map] at listed
  obtain ⟨evicted, gone, named⟩ := List.mem_filterMap.mp listed
  have evictedHash : evicted.hash = some name := named
  rw [Db.eq_of_hash present (mem_expired gone).1 same evictedHash] at spared
  exact spared gone

/-- Every hash known before, and the one inserted, is reported or still names a row. -/
theorem expired_or_live (upserted : Upserted sha3 db now tie mime body hash maxHistory outcome after)
    {name : Str} (known : (∃ row ∈ db.clipboard, row.hash = some name) ∨ name = hash) :
    name ∈ outcome.expiredHashes ∨ ∃ row ∈ after.clipboard, row.hash = some name := by
  obtain ⟨placed, places, _, reported, rfl⟩ := upserted
  obtain ⟨row, present, named⟩ := places.hashes.mpr known
  by_cases gone : row ∈ expired tie (quota maxHistory) placed
  · left
    rw [reported, expiring, List.filterMap_map]
    exact List.mem_filterMap.mpr ⟨row, gone, named⟩
  · exact .inr ⟨row, mem_rotated.mpr ⟨present, gone⟩, named⟩

end Upserted

/-- Operations move rows about; only an upsert adds one, built from what it was given. -/
theorem StoreOp.Effect.origin {op : StoreOp} {result : op.Result}
    (effect : op.Effect sha3 db result after) {row : Row} (member : row ∈ after.clipboard) :
    (∃ old ∈ db.clipboard, SameRecord old row) ∨
      ∃ now tie mime offer hash maxHistory,
        op = .upsert now tie mime offer hash maxHistory ∧
          row = insertedRow db now mime offer.body hash := by
  have unchanged : after = db → (∃ old ∈ db.clipboard, SameRecord old row) := by
    rintro rfl
    exact ⟨row, member, .refl row⟩
  cases op with
  | upsert now tie mime offer hash maxHistory =>
      change UpsertEffect sha3 db now tie mime offer.body hash maxHistory result after at effect
      unfold UpsertEffect at effect
      split at effect
      · exact .inl (unchanged effect.2)
      · rcases effect with ⟨_, _, same⟩ | ⟨outcome, _, upserted⟩
        · exact .inl (unchanged same)
        · rcases upserted.rows member with old | ⟨_, new⟩
          · exact .inl old
          · exact .inr ⟨now, tie, mime, offer, hash, maxHistory, rfl, new⟩
  | updateTimestamp now id =>
      rcases effect with ⟨_, _, same⟩ | ⟨_, rfl⟩
      · exact .inl (unchanged same)
      · exact .inl ((touch_inherits member).imp fun _ => And.imp_right And.left)
  | setPinned id isPinned =>
      rcases effect with ⟨_, _, same⟩ | ⟨_, rfl⟩
      · exact .inl (unchanged same)
      · exact .inl ((pin_inherits member).imp fun _ => And.imp_right And.left)
  | deleteById id =>
      rcases effect with ⟨_, _, same⟩ | ⟨_, rfl⟩
      · exact .inl (unchanged same)
      · exact .inl ((dropped_inherits member).imp fun _ => And.imp_right And.left)
  | wipe =>
      rcases effect with ⟨_, _, same⟩ | ⟨_, rfl⟩
      · exact .inl (unchanged same)
      · rw [wiped_clipboard] at member
        cases member
  | getRowContent id => exact .inl (unchanged effect.2)
  | getRowLocation id => exact .inl (unchanged effect)

end

-- Content that lives in the cache directory.
def Row.Detached (row : Row) : Prop :=
  row.content = .null ∧ row.isChunked = false

theorem SameRecord.detached {old row : Row} (same : SameRecord old row) :
    row.Detached ↔ old.Detached := by
  unfold Row.Detached
  rw [same.content, same.isChunked]

theorem insertedRow_detached {db : Db} {now : Int} {mime hash : Str} {body : Body} :
    (insertedRow db now mime body hash).Detached ↔ (body.parts mime).2 = .none := by
  change ((body.parts mime).2.value = .null ∧ (body.parts mime).2.isChunked = false) ↔ _
  cases (body.parts mime).2 <;> simp [Content.value, Content.isChunked]

def Offer.Stands (offer : Offer) (data : Slice) : Prop :=
  match offer with
  | .record given => given = data
  | .detached len => len.toNat = data.bytes.length

theorem Offer.Stands.len {offer : Offer} {data : Slice} (stands : offer.Stands data) :
    offer.body.len = data.bytes.length := by
  cases offer with
  | record given =>
      rw [show given = data from stands]
      rfl
  | detached len => exact stands

theorem Offer.Stands.bytes {offer : Offer} {data : Slice} (stands : offer.Stands data) :
    ∀ bytes, offer.body = .bytes bytes → bytes = data.bytes := by
  intro bytes same
  cases offer with
  | record given =>
      rw [← show given = data from stands]
      injection same with same
      exact same.symm
  | detached len => cases same

def Pooled (pool : Set Bytes) (data : Slice) : Prop :=
  data.bytes ∈ pool ∧ ∀ piece ∈ fastCdc data.bytes, piece ∈ pool

section
variable (sha3 : Bytes → Bytes) (pool : Set Bytes) (payload : Int → Bytes)

structure Recorded (db : Db) : Prop where
  refs : RefsExact db
  assembled : Assembled sha3 pool payload db
  pooled : ∀ row ∈ db.clipboard, payload row.id ∈ pool
  keyed : ∀ row ∈ db.clipboard, row.hash = some (toHex (sha3 (payload row.id)))
  sized : ∀ row ∈ db.clipboard, row.size = ((payload row.id).length : Int)

end

def enrolled (payload : Int → Bytes) (db : Db) (hash : Str) (data : Bytes) : Int → Bytes :=
  if db.rowByHash hash = none then Function.update payload (db.sequence + 1) data else payload

theorem enrolled_old {payload : Int → Bytes} {db : Db} {hash : Str} {data : Bytes} {id : Int}
    (issued : id ≤ db.sequence) : enrolled payload db hash data id = payload id := by
  unfold enrolled
  split
  · exact Function.update_of_ne (by omega) _ _
  · rfl

theorem enrolled_new {payload : Int → Bytes} {db : Db} {hash : Str} {data : Bytes}
    (absent : db.rowByHash hash = none) :
    enrolled payload db hash data (db.sequence + 1) = data := by
  rw [enrolled, if_pos absent, Function.update_self]

section
variable {sha3 : Bytes → Bytes} {pool : Set Bytes} {payload : Int → Bytes} {db after : Db}

namespace Recorded

theorem empty : Recorded sha3 pool payload Db.empty where
  refs := .empty
  assembled := .empty
  pooled := by simp [Db.empty]
  keyed := by simp [Db.empty]
  sized := by simp [Db.empty]

theorem of_rows (recorded : Recorded sha3 pool payload db) (refs : RefsExact after)
    (assembled : Assembled sha3 pool payload after)
    (rows : ∀ row ∈ after.clipboard, ∃ old ∈ db.clipboard, SameRecord old row) :
    Recorded sha3 pool payload after where
  refs := refs
  assembled := assembled
  pooled := by
    intro row member
    obtain ⟨old, present, same⟩ := rows row member
    rw [same.id]
    exact recorded.pooled old present
  keyed := by
    intro row member
    obtain ⟨old, present, same⟩ := rows row member
    rw [same.id, same.hash]
    exact recorded.keyed old present
  sized := by
    intro row member
    obtain ⟨old, present, same⟩ := rows row member
    rw [same.id, same.size]
    exact recorded.sized old present

theorem touch (recorded : Recorded sha3 pool payload db) (timestamp id : Int) :
    Recorded sha3 pool payload (db.touch timestamp id) :=
  recorded.of_rows (recorded.refs.touch timestamp id) (recorded.assembled.touch timestamp id)
    fun _ member => (touch_inherits member).imp fun _ => And.imp_right And.left

theorem pin (recorded : Recorded sha3 pool payload db) (isPinned : Bool) (id : Int) :
    Recorded sha3 pool payload (db.pin isPinned id) :=
  recorded.of_rows (recorded.refs.pin isPinned id) (recorded.assembled.pin isPinned id)
    fun _ member => (pin_inherits member).imp fun _ => And.imp_right And.left

theorem dropped (recorded : Recorded sha3 pool payload db) (id : Int) :
    Recorded sha3 pool payload (db.dropped id) :=
  recorded.of_rows (recorded.refs.dropped id) (recorded.assembled.dropped id)
    fun _ member => (dropped_inherits member).imp fun _ => And.imp_right And.left

theorem wiped : Recorded sha3 pool payload db.wiped where
  refs := .wiped
  assembled := .wiped
  pooled := by simp [wiped_clipboard]
  keyed := by simp [wiped_clipboard]
  sized := by simp [wiped_clipboard]

theorem upserted (recorded : Recorded sha3 pool payload db) {now : Int} {tie : TieOrder}
    {mime hash : Str} {offer : Offer} {maxHistory : UInt64} {outcome : UpsertOutcome}
    (upserted : Upserted sha3 db now tie mime offer.body hash maxHistory outcome after)
    {data : Slice} (stands : offer.Stands data) (key : hash = toHex (sha3 data.bytes))
    (kept : Pooled pool data) :
    Recorded sha3 pool (enrolled payload db hash data.bytes) after := by
  have origin : ∀ row ∈ after.clipboard,
      (∃ old ∈ db.clipboard, SameRecord old row ∧
        enrolled payload db hash data.bytes row.id = payload old.id) ∨
      (row = insertedRow db now mime offer.body hash ∧
        enrolled payload db hash data.bytes row.id = data.bytes) := by
    intro row member
    rcases upserted.rows member with ⟨old, present, same⟩ | ⟨absent, rfl⟩
    · refine .inl ⟨old, present, same, ?_⟩
      rw [same.id]
      exact enrolled_old (db.idsIssued old present).2
    · exact .inr ⟨rfl, enrolled_new absent⟩
  constructor
  · obtain ⟨placed, places, _, _, rfl⟩ := upserted
    exact (recorded.refs.places places).rotated tie maxHistory
  · obtain ⟨placed, places, _, _, rfl⟩ := upserted
    exact (recorded.assembled.places recorded.refs places stands.bytes data.fits kept.2).rotated tie
      maxHistory
  · intro row member
    rcases origin row member with ⟨old, present, same, payload⟩ | ⟨rfl, payload⟩
    · rw [payload]
      exact recorded.pooled old present
    · rw [payload]
      exact kept.1
  · intro row member
    rcases origin row member with ⟨old, present, same, payload⟩ | ⟨rfl, payload⟩
    · rw [payload, same.hash]
      exact recorded.keyed old present
    · rw [payload, ← key]
      rfl
  · intro row member
    rcases origin row member with ⟨old, present, same, payload⟩ | ⟨rfl, payload⟩
    · rw [payload, same.size]
      exact recorded.sized old present
    · have fits := data.fits
      rw [payload]
      change asI64 offer.body.len = _
      rw [stands.len, asI64]
      omega

/-- The operations that insert nothing leave a part of the records. -/
theorem shrunk (recorded : Recorded sha3 pool payload db) {op : StoreOp} {result : op.Result}
    (effect : op.Effect sha3 db result after)
    (others : ∀ now tie mime offer hash maxHistory,
      op ≠ .upsert now tie mime offer hash maxHistory) :
    Recorded sha3 pool payload after ∧
      ∀ row ∈ after.clipboard, ∃ old ∈ db.clipboard, SameRecord old row := by
  constructor
  · have unchanged : after = db → Recorded sha3 pool payload after := fun same => same ▸ recorded
    cases op with
    | upsert now tie mime offer hash maxHistory =>
        exact absurd rfl (others now tie mime offer hash maxHistory)
    | updateTimestamp now id =>
        rcases effect with ⟨_, _, same⟩ | ⟨_, rfl⟩
        · exact unchanged same
        · exact recorded.touch now id
    | setPinned id isPinned =>
        rcases effect with ⟨_, _, same⟩ | ⟨_, rfl⟩
        · exact unchanged same
        · exact recorded.pin isPinned id
    | deleteById id =>
        rcases effect with ⟨_, _, same⟩ | ⟨_, rfl⟩
        · exact unchanged same
        · exact recorded.dropped id
    | wipe =>
        rcases effect with ⟨_, _, same⟩ | ⟨_, rfl⟩
        · exact unchanged same
        · exact .wiped
    | getRowContent id => exact unchanged effect.2
    | getRowLocation id => exact unchanged effect
  · intro row member
    rcases effect.origin member with old | ⟨now, tie, mime, offer, hash, maxHistory, same, _⟩
    · exact old
    · exact absurd same (others now tie mime offer hash maxHistory)

end Recorded

end

end Y4p
