import Y4p.Storage.FacadeCalls

/-!
The operations of the facade, one after another in one process: what each makes
of the records and of their files, and what whole runs keep.
-/

namespace Y4p

open Programs

structure Descends (brought : Option Bytes) (db : Db) (payload : Int → Bytes) (after : Db)
    (payload' : Int → Bytes) : Prop where
  sequence : db.sequence ≤ after.sequence
  kept : ∀ id ≤ db.sequence, payload' id = payload id
  old : ∀ row ∈ after.clipboard, row.id ≤ db.sequence → ∃ before ∈ db.clipboard, before.id = row.id
  new : ∀ row ∈ after.clipboard, db.sequence < row.id → brought = some (payload' row.id)

section
variable {sha3 : Bytes → Bytes} {payload : Int → Bytes} {db after : Db} {brought : Option Bytes}

theorem Descends.of_rows (sequence : after.sequence = db.sequence)
    (rows : ∀ row ∈ after.clipboard, ∃ old ∈ db.clipboard, SameRecord old row) :
    Descends brought db payload after payload where
  sequence := le_of_eq sequence.symm
  kept := fun _ _ => rfl
  old := by
    intro row member _
    obtain ⟨old, present, same⟩ := rows row member
    exact ⟨old, present, same.id.symm⟩
  new := by
    intro row member later
    obtain ⟨old, present, same⟩ := rows row member
    have issued := (db.idsIssued old present).2
    rw [same.id] at later
    omega

theorem Descends.refl : Descends brought db payload db payload :=
  .of_rows rfl fun row member => ⟨row, member, .refl row⟩

theorem Places.sequence {now id : Int} {mime hash : Str} {body : Body} {placed : Db}
    (places : Places sha3 db now mime body hash id placed) : db.sequence ≤ placed.sequence := by
  cases places with
  | touched _ => exact le_refl _
  | inserted absent _ => exact Int.le_of_lt (Int.lt_succ db.sequence)
  | chunked absent _ stores =>
      rw [stores.rows.2]
      exact Int.le_of_lt (Int.lt_succ db.sequence)

theorem Upserted.sequence {now : Int} {tie : TieOrder} {mime hash : Str} {body : Body}
    {maxHistory : UInt64} {outcome : UpsertOutcome}
    (upserted : Upserted sha3 db now tie mime body hash maxHistory outcome after) :
    db.sequence ≤ after.sequence := by
  obtain ⟨placed, places, _, _, rfl⟩ := upserted
  rw [rotated_sequence]
  exact places.sequence

theorem Descends.upserted {now : Int} {tie : TieOrder} {mime hash : Str} {body : Body}
    {maxHistory : UInt64} {outcome : UpsertOutcome}
    (upserted : Upserted sha3 db now tie mime body hash maxHistory outcome after) (data : Bytes) :
    Descends (some data) db payload after (enrolled payload db hash data) where
  sequence := upserted.sequence
  kept := fun _ issued => enrolled_old issued
  old := by
    intro row member early
    rcases upserted.rows member with ⟨old, present, same⟩ | ⟨_, rfl⟩
    · exact ⟨old, present, same.id.symm⟩
    · exact absurd early (not_le.mpr (Int.lt_succ db.sequence))
  new := by
    intro row member late
    rcases upserted.rows member with ⟨old, present, same⟩ | ⟨absent, rfl⟩
    · have issued := (db.idsIssued old present).2
      rw [same.id] at late
      omega
    · exact congrArg some (enrolled_new absent).symm

end

def Exposes (db : Db) (now : Int) (tie : TieOrder) (mime : Str) (data : Bytes) (hash : Str)
    (maxHistory : UInt64) : Prop :=
  isSkipped mime data.length = false ∧ db.rowByHash hash = none ∧
    contentOf mime data (isCacheClass mime) = .none ∧ Survives db now tie hash maxHistory

section
variable {sha3 : Bytes → Bytes} {pool : Set Bytes} {payload : Int → Bytes} {calm : Prop}
  {world : World} {fails : Call → World → IoFailure → Prop} {always : World → Prop}

-- Between two operations: files and rows agree, and the directory is there.
structure Settled (sha3 : Bytes → Bytes) (pool : Set Bytes) (payload : Int → Bytes) (calm : Prop)
    (world : World) : Prop extends Tracks sha3 pool payload calm ∅ ∅ world where
  dir : world.dir = true

theorem contentOf_none {mime : Str} {data : Bytes} {isImage : Bool}
    (content : contentOf mime data isImage = .none) : isImage = true := by
  unfold contentOf at content
  split at content
  · cases content
  · split at content
    · cases content
    · split at content
      · assumption
      · cases content

theorem insertWithHash_ensures (tolerable : Tolerable fails)
    (quiet : calm → ∀ call world failure, ¬ fails call world failure)
    (noCollision : Set.InjOn sha3 pool) (settled : Settled sha3 pool payload calm world)
    {now : Int} {tie : TieOrder} {mime hash : Str} {data : Slice} {maxHistory : UInt64}
    (key : hash = toHex (sha3 data.bytes)) (kept : Pooled pool data)
    (watch : ∀ payload exempt stale seen, Tracks sha3 pool payload calm exempt stale seen →
      (¬ Exposes world.db now tie mime data.bytes hash maxHistory → exempt = ∅) → always seen) :
    (insertWithHash now tie mime data hash maxHistory).Ensures (Call.May sha3 fails) always
      (fun _ after => ∃ payload', Settled sha3 pool payload' calm after ∧
        Descends (some data.bytes) world.db payload after.db payload') world := by
  have unchanged : ∃ payload', Settled sha3 pool payload' calm world ∧
      Descends (some data.bytes) world.db payload world.db payload' :=
    ⟨payload, settled, .refl⟩
  apply Program.Ensures.ask
  intro answer after may
  obtain ⟨db, effect, rfl⟩ := may.store
  simp only [StoreOp.Effect, UpsertEffect] at effect
  split at effect
  · obtain ⟨rfl, rfl⟩ := effect
    exact ⟨watch _ _ _ _ settled.toTracks fun _ => rfl, unchanged⟩
  rename_i storable
  rcases effect with ⟨message, rfl, rfl⟩ | ⟨outcome, rfl, upserted⟩
  · exact ⟨watch _ _ _ _ settled.toTracks fun _ => rfl, unchanged⟩
  -- The upsert committed: the row may wait for its file, evicted rows leave theirs.
  let exempt : Set Str :=
    {name | name = hash ∧ Exposes world.db now tie mime data.bytes hash maxHistory}
  let gone : Set Str := {name | name ∈ outcome.expiredHashes}
  have tracks : Tracks sha3 pool (enrolled payload world.db hash data.bytes) calm exempt
      (∅ ∪ gone) (world.withDb db) := by
    refine settled.toTracks.upserted upserted rfl key kept ?_ ?_
    · intro absent file found
      rcases settled.owned hash file found with none | ⟨row, member, named⟩
      · exact absurd none (Set.notMem_empty _)
      · exact absurd named (Db.rowByHash_eq_none.mp absent row member)
    · intro _ absent content survives
      refine .inl ⟨rfl, ?_, absent, content, upserted.survives_iff.mp survives⟩
      exact Bool.not_eq_true _ ▸ storable
  rw [Set.empty_union] at tracks
  have spared : ∀ {narrower : Set Str}, narrower ⊆ exempt →
      ¬ Exposes world.db now tie mime data.bytes hash maxHistory → narrower = ∅ := by
    intro narrower inside unexposed
    exact Set.eq_empty_of_forall_notMem fun name member => unexposed (inside member).2
  refine ⟨watch _ _ _ _ tracks (spared (Set.Subset.refl _)), ?_⟩
  have positive := upserted.realId_pos
  have isImage : outcome.isImage = isCacheClass mime := by
    obtain ⟨_, _, image, _⟩ := upserted
    exact image
  change Program.Ensures _ _ _ (if outcome.realId = -1 then _ else _) _
  rw [if_neg (by omega)]
  apply Program.Ensures.bind
  have stored : (storeIfImage outcome.isImage hash data.bytes).Ensures (Call.May sha3 fails) always
      (fun _ after => after.db = db ∧ after.dir = true ∧
        Tracks sha3 pool (enrolled payload world.db hash data.bytes) calm ∅ gone after)
      (world.withDb db) := by
    unfold storeIfImage
    cases image : outcome.isImage with
    | true =>
        have known := upserted.expired_or_live (.inr rfl)
        apply Program.Ensures.bind
        refine (store_ensures tolerable quiet noCollision tracks settled.dir key kept.1 known
          fun seen now => watch _ _ _ _ now (spared (Set.Subset.refl _))).mono ?_
        rintro _ after ⟨same, dir, tracks⟩
        refine ⟨same, dir, tracks.mono ?_ fun _ => .inl⟩
        rintro name ⟨⟨named, _⟩, differs⟩
        exact absurd named differs
    | false =>
        refine ⟨rfl, settled.dir, tracks.mono ?_ fun _ => .inl⟩
        rintro name ⟨_, _, _, content, _⟩
        rw [← isImage, image] at content
        exact absurd (contentOf_none content) Bool.false_ne_true
  refine stored.mono ?_
  rintro _ after ⟨rfl, dir, tracks⟩
  apply Program.Ensures.bind
  refine (removeMany_ensures tolerable tracks
    (fun name listed row member _ => upserted.expired_gone listed row member)
    fun seen stale now => watch _ _ _ _ now fun _ => rfl).mono ?_
  rintro _ last ⟨same, dir', tracks⟩
  refine ⟨_, ⟨tracks.mono (Set.Subset.refl _) ?_, dir'.trans dir⟩, ?_⟩
  · exact fun name both => absurd both.1 both.2
  · rw [same]
    exact .upserted upserted data.bytes

def staleFor (hash : Str) : FileCache.Adoption → Set Str
  | .placed => {hash}
  | .present => ∅

/-- The file is in the cache; the row follows. -/
theorem upsertAdopted_ensures (tolerable : Tolerable fails) {now : Int} {tie : TieOrder}
    {mime : Str} {spooled : SpooledFile} {adoption : FileCache.Adoption} {maxHistory : UInt64}
    {data : Slice}
    (tracks : Tracks sha3 pool payload calm ∅ (staleFor spooled.hexDigest adoption) world)
    (dir : world.dir = true) (digest : spooled.digest = sha3 data.bytes)
    (len : spooled.len.toNat = data.bytes.length) (kept : Pooled pool data)
    (storable : isSkipped mime spooled.len.toNat = false)
    (placed : adoption = .placed → world.cache spooled.hexDigest = some data.bytes ∧
      (calm → Unused spooled.hexDigest world))
    (present : adoption = .present → ∃ row ∈ world.db.clipboard,
      row.hash = some spooled.hexDigest)
    (watch : ∀ payload stale seen, Tracks sha3 pool payload calm ∅ stale seen → always seen) :
    (upsertAdopted now tie mime spooled adoption maxHistory).Ensures (Call.May sha3 fails) always
      (fun _ after => ∃ payload', Settled sha3 pool payload' calm after ∧
        Descends (some data.bytes) world.db payload after.db payload') world := by
  have key : spooled.hexDigest = toHex (sha3 data.bytes) := by
    rw [← digest]
    rfl
  have isPlaced : world.db.rowByHash spooled.hexDigest = none → adoption = .placed := by
    intro absent
    cases shape : adoption with
    | placed => rfl
    | present =>
        obtain ⟨row, member, named⟩ := present shape
        exact absurd named (Db.rowByHash_eq_none.mp absent row member)
  apply Program.Ensures.ask
  intro answer after may
  obtain ⟨db, effect, rfl⟩ := may.store
  simp only [StoreOp.Effect, UpsertEffect, Offer.body, Body.len, storable, Bool.false_eq_true,
    if_false] at effect
  rcases effect with ⟨message, rfl, rfl⟩ | ⟨outcome, rfl, upserted⟩
  · refine ⟨watch _ _ _ tracks, ?_⟩
    apply Program.Ensures.bind
    unfold undoAdoption
    cases adoption with
    | placed =>
        refine (remove_ensures tolerable tracks (placed rfl).2 fun _ _ => watch _ _ _).mono ?_
        rintro _ after ⟨rfl, removed⟩
        exact ⟨payload, ⟨removed.mono (Set.Subset.refl _) fun name both => absurd both.1 both.2, dir⟩,
          .refl⟩
    | present => exact ⟨payload, ⟨tracks, dir⟩, .refl⟩
  have detached : Upserted sha3 world.db now tie mime (Offer.detached spooled.len).body
      spooled.hexDigest maxHistory outcome db := upserted
  have upserts : Tracks sha3 pool (enrolled payload world.db spooled.hexDigest data.bytes) calm ∅
      (staleFor spooled.hexDigest adoption ∪ {name | name ∈ outcome.expiredHashes})
      (world.withDb db) := by
    refine tracks.upserted detached len key kept ?_ ?_
    · intro absent file found
      rw [(placed (isPlaced absent)).1] at found
      injection found with found
      exact found.symm
    · intro _ absent _ _
      right
      rw [(placed (isPlaced absent)).1]
      rfl
  refine ⟨watch _ _ _ upserts, ?_⟩
  apply Program.Ensures.bind
  refine (removeMany_ensures tolerable upserts
    (fun name listed row member _ => upserted.expired_gone listed row member)
    fun _ _ => watch _ _ _).mono ?_
  rintro _ last ⟨same, dir', removed⟩
  refine ⟨_, ⟨removed.mono (Set.Subset.refl _) ?_, dir'.trans dir⟩, ?_⟩
  · rintro name ⟨listed | listed, unlisted⟩
    · right
      rw [same]
      have named : name = spooled.hexDigest := by
        cases adoption with
        | placed => exact listed
        | present => exact absurd listed (Set.notMem_empty _)
      exact (upserted.expired_or_live (.inr named)).resolve_left unlisted
    · exact absurd listed unlisted
  · rw [same]
    exact .upserted upserted data.bytes

theorem Settled.of_sameFiles {after : World} (settled : Settled sha3 pool payload calm world)
    (same : SameFiles world after) : Settled sha3 pool payload calm after where
  toTracks := settled.toTracks.of_sameFiles same
  dir := same.dir.trans settled.dir

theorem insertRead_ensures (tolerable : Tolerable fails)
    (quiet : calm → ∀ call world failure, ¬ fails call world failure)
    (noCollision : Set.InjOn sha3 pool) (settled : Settled sha3 pool payload calm world)
    {now : Int} {tie : TieOrder} {mime : Str} {spooled : SpooledFile} {data : Slice}
    {maxHistory : UInt64} (digest : spooled.digest = sha3 data.bytes)
    (held : world.spool spooled.path = some data.bytes) (kept : Pooled pool data)
    (watch : ∀ payload exempt stale seen, Tracks sha3 pool payload calm exempt stale seen →
      (¬ Exposes world.db now tie mime data.bytes spooled.hexDigest maxHistory → exempt = ∅) →
      always seen) :
    (insertRead now tie mime spooled maxHistory).Ensures (Call.May sha3 fails) always
      (fun _ after => ∃ payload', Settled sha3 pool payload' calm after ∧
        Descends (some data.bytes) world.db payload after.db payload') world := by
  have key : spooled.hexDigest = toHex (sha3 data.bytes) := by
    rw [← digest]
    rfl
  apply Program.Ensures.bind
  refine (readSpooled_ensures held (watch _ _ _ _ settled.toTracks fun _ => rfl)).mono ?_
  rintro result after ⟨rfl, read⟩
  cases result with
  | error message => exact ⟨payload, settled, .refl⟩
  | ok got =>
      rw [read got rfl]
      exact insertWithHash_ensures tolerable quiet noCollision settled key kept watch

theorem insertAdopted_ensures (tolerable : Tolerable fails)
    (quiet : calm → ∀ call world failure, ¬ fails call world failure)
    (noCollision : Set.InjOn sha3 pool) (settled : Settled sha3 pool payload calm world)
    {now : Int} {tie : TieOrder} {mime : Str} {spooled : SpooledFile} {data : Slice}
    {maxHistory : UInt64} (digest : spooled.digest = sha3 data.bytes)
    (len : spooled.len.toNat = data.bytes.length)
    (held : world.spool spooled.path = some data.bytes) (kept : Pooled pool data)
    (storable : isSkipped mime spooled.len.toNat = false)
    (watch : ∀ payload stale seen, Tracks sha3 pool payload calm ∅ stale seen → always seen)
    (idle : ¬ calm → ∀ seen, always seen) :
    (insertAdopted now tie mime spooled maxHistory).Ensures (Call.May sha3 fails) always
      (fun _ after => ∃ payload', Settled sha3 pool payload' calm after ∧
        Descends (some data.bytes) world.db payload after.db payload') world := by
  have key : spooled.hexDigest = toHex (sha3 data.bytes) := by
    rw [← digest]
    rfl
  apply Program.Ensures.bind
  refine (adopt_ensures tolerable quiet noCollision settled.toTracks settled.dir key kept.1 held
    (fun _ _ => watch _ _ _) idle).mono ?_
  rintro result after ⟨db, dir, adopted⟩
  rw [← db]
  cases result with
  | error message =>
      apply Program.Ensures.bind
      refine (drop_ensures adopted spooled fun _ => watch _ _ _).mono ?_
      intro _ last same
      refine ⟨payload, ⟨Tracks.of_sameFiles adopted same, same.dir.trans dir⟩, ?_⟩
      rw [same.db]
      exact .refl
  | ok adoption =>
      cases adoption with
      | placed =>
          obtain ⟨absent, entry, tracks⟩ := adopted
          refine upsertAdopted_ensures tolerable tracks dir digest len kept storable ?_
            (fun impossible => by cases impossible) watch
          refine fun _ => ⟨entry, fun calmly row member detached named => ?_⟩
          rw [db] at member
          have found := settled.present calmly row member detached _ named (Set.notMem_empty _)
          rw [absent] at found
          cases found
      | present =>
          obtain ⟨found, tracks⟩ := adopted
          apply Program.Ensures.bind
          refine (drop_ensures tracks spooled fun _ => watch _ _ _).mono ?_
          intro _ last same
          rw [← same.db]
          refine upsertAdopted_ensures tolerable (tracks.of_sameFiles same) (same.dir.trans dir)
            digest len kept storable (fun impossible => by cases impossible) ?_ watch
          intro _
          obtain ⟨file, entry⟩ := Option.isSome_iff_exists.mp found
          rw [same.db]
          exact (tracks.owned _ file entry).resolve_left (Set.notMem_empty _)

theorem insertSpooled_ensures (tolerable : Tolerable fails)
    (quiet : calm → ∀ call world failure, ¬ fails call world failure)
    (noCollision : Set.InjOn sha3 pool) (settled : Settled sha3 pool payload calm world)
    {now : Int} {tie : TieOrder} {mime : Str} {spooled : SpooledFile} {data : Slice}
    {maxHistory : UInt64} (digest : spooled.digest = sha3 data.bytes)
    (len : spooled.len.toNat = data.bytes.length)
    (held : world.spool spooled.path = some data.bytes) (kept : Pooled pool data)
    (watch : ∀ payload exempt stale seen, Tracks sha3 pool payload calm exempt stale seen →
      (¬ (isDetachable mime = false ∧
        Exposes world.db now tie mime data.bytes spooled.hexDigest maxHistory) → exempt = ∅) →
      always seen)
    (idle : ¬ calm → ∀ seen, always seen) :
    (insertSpooled now tie mime spooled maxHistory).Ensures (Call.May sha3 fails) always
      (fun _ after => ∃ payload', Settled sha3 pool payload' calm after ∧
        Descends (some data.bytes) world.db payload after.db payload') world := by
  have calmWatch : ∀ payload stale seen, Tracks sha3 pool payload calm ∅ stale seen →
      always seen := fun _ _ _ tracks => watch _ _ _ _ tracks fun _ => rfl
  unfold insertSpooled
  split
  · apply Program.Ensures.bind
    refine (drop_ensures settled.toTracks spooled fun _ => calmWatch _ _ _).mono ?_
    intro _ after same
    refine ⟨payload, settled.of_sameFiles same, ?_⟩
    rw [same.db]
    exact .refl
  rename_i storable
  split
  · rename_i inline
    have detachable : isDetachable mime = false := by simpa using inline
    apply Program.Ensures.bind
    refine (insertRead_ensures tolerable quiet noCollision settled digest held kept
      fun payload exempt stale seen tracks spared =>
        watch _ _ _ _ tracks fun unexposed => spared fun exposes =>
          unexposed ⟨detachable, exposes⟩).mono ?_
    rintro result after ⟨payload', ended, descends⟩
    apply Program.Ensures.bind
    refine (drop_ensures ended.toTracks spooled fun _ => calmWatch _ _ _).mono ?_
    intro _ last same
    refine ⟨payload', ended.of_sameFiles same, ?_⟩
    rw [same.db]
    exact descends
  · exact insertAdopted_ensures tolerable quiet noCollision settled digest len held kept
      (by simpa using storable) calmWatch idle

theorem deleteById_ensures (tolerable : Tolerable fails)
    (settled : Settled sha3 pool payload calm world) {id : Int} {brought : Option Bytes}
    (watch : ∀ payload stale seen, Tracks sha3 pool payload calm ∅ stale seen → always seen) :
    (ClipboardDb.deleteById id).Ensures (Call.May sha3 fails) always
      (fun _ after => ∃ payload', Settled sha3 pool payload' calm after ∧
        Descends brought world.db payload after.db payload') world := by
  apply Program.Ensures.ask
  intro answer after may
  obtain ⟨db, effect, rfl⟩ := may.store
  rcases effect with ⟨message, rfl, rfl⟩ | ⟨rfl, rfl⟩
  · exact ⟨watch _ _ _ settled.toTracks, payload, settled, .refl⟩
  have rows : ∀ row ∈ (world.db.dropped id).clipboard,
      ∃ old ∈ world.db.clipboard, SameRecord old row :=
    fun _ member => (dropped_inherits member).imp fun _ => And.imp_right And.left
  have descends : Descends brought world.db payload (world.db.dropped id) payload := by
    refine .of_rows ?_ rows
    unfold Db.dropped
    split
    · exact Db.releaseRow_sequence ..
    · rfl
  have tracks := settled.toTracks.of_rows
    {name | (world.db.rowById id).bind (fun row => row.hash) = some name}
    (settled.recorded.dropped id) rows (fun _ _ => rfl) (by
      intro old member name named
      rw [dropped_clipboard]
      by_cases same : old.id = id
      · left
        change (world.db.rowById id).bind (fun row => row.hash) = some name
        rw [Db.rowById_eq_some.mpr ⟨member, same⟩]
        exact named
      · exact .inr ⟨old, List.mem_filter.mpr ⟨member, by simpa using same⟩, named⟩)
  rw [Set.empty_union] at tracks
  refine ⟨watch _ _ _ tracks, ?_⟩
  apply Program.Ensures.bind
  cases reported : (world.db.rowById id).bind fun row => row.hash with
  | none =>
      refine ⟨payload, ⟨tracks.mono (Set.Subset.refl _) ?_, settled.dir⟩, descends⟩
      intro name listed
      change (world.db.rowById id).bind (fun row => row.hash) = some name at listed
      rw [reported] at listed
      cases listed
  | some hash =>
      obtain ⟨row, found, named⟩ := Option.bind_eq_some_iff.mp reported
      obtain ⟨member, sameId⟩ := Db.rowById_eq_some.mp found
      have unused : Unused hash (world.withDb (world.db.dropped id)) := by
        intro other left _ otherNamed
        change other ∈ (world.db.dropped id).clipboard at left
        rw [dropped_clipboard, List.mem_filter] at left
        have equal := Db.eq_of_hash left.1 member otherNamed named
        rw [equal, sameId] at left
        simp at left
      refine (remove_ensures tolerable tracks (fun _ => unused) fun _ _ => watch _ _ _).mono ?_
      rintro _ last ⟨rfl, removed⟩
      refine ⟨payload, ⟨removed.mono (Set.Subset.refl _) ?_, settled.dir⟩, descends⟩
      rintro name ⟨listed, differs⟩
      change (world.db.rowById id).bind (fun row => row.hash) = some name at listed
      rw [reported] at listed
      injection listed with listed
      exact absurd listed.symm differs

theorem wipe_ensures (tolerable : Tolerable fails)
    (settled : Settled sha3 pool payload calm world) {brought : Option Bytes}
    (watch : ∀ payload stale seen, Tracks sha3 pool payload calm ∅ stale seen → always seen) :
    ClipboardDb.wipe.Ensures (Call.May sha3 fails) always
      (fun _ after => ∃ payload', Settled sha3 pool payload' calm after ∧
        Descends brought world.db payload after.db payload') world := by
  have bare : ∀ {seen : World}, seen.db = world.db.wiped →
      Tracks sha3 pool payload calm ∅ Set.univ seen := by
    intro seen same
    have rowless : seen.db.clipboard = [] := by rw [same, wiped_clipboard]
    refine ⟨⟨by rw [same]; exact .wiped, fun _ _ _ => .inl trivial, ?_⟩, fun _ => ?_⟩
    · intro row member
      simp [rowless] at member
    · intro row member
      simp [rowless] at member
  apply Program.Ensures.ask
  intro answer after may
  obtain ⟨db, effect, rfl⟩ := may.store
  rcases effect with ⟨message, rfl, rfl⟩ | ⟨rfl, rfl⟩
  · exact ⟨watch _ _ _ settled.toTracks, payload, settled, .refl⟩
  refine ⟨watch _ _ _ (bare rfl), ?_⟩
  apply Program.Ensures.bind
  apply Program.Ensures.ask
  intro answer middle may
  obtain ⟨rfl, same, emptied⟩ := may.removeDirAll settled.dir
  refine ⟨watch _ _ _ (bare same), ?_⟩
  intro answer last may
  obtain ⟨db, cache, dir⟩ :=
    may.createDirAll fun failure allowed => tolerable.places _ _ failure allowed
  have same' : last.db = world.db.wiped := db.trans same
  refine ⟨watch _ _ _ (bare same'), payload, ⟨⟨⟨(bare same').recorded, ?_, (bare same').served⟩,
    (bare same').present⟩, dir⟩, ?_⟩
  · intro hash file found
    rw [cache, emptied] at found
    cases found
  · rw [same']
    refine .of_rows rfl ?_
    intro row member
    simp [wiped_clipboard] at member

/-- A transaction that changes no record changes nothing for the files. -/
theorem stamp_ensures (settled : Settled sha3 pool payload calm world) {op : StoreOp}
    {brought : Option Bytes} (changed : Db) (sequence : changed.sequence = world.db.sequence)
    (recorded : Recorded sha3 pool payload changed)
    (rows : ∀ row ∈ changed.clipboard, ∃ old ∈ world.db.clipboard, SameRecord old row)
    (hashes : ∀ old ∈ world.db.clipboard, ∃ row ∈ changed.clipboard, row.hash = old.hash)
    (outcomes : ∀ result db, op.Effect sha3 world.db result db → db = world.db ∨ db = changed)
    (watch : ∀ payload stale seen, Tracks sha3 pool payload calm ∅ stale seen → always seen) :
    (Program.ask (Call.store op) : Io _).Ensures (Call.May sha3 fails) always
      (fun _ after => ∃ payload', Settled sha3 pool payload' calm after ∧
        Descends brought world.db payload after.db payload') world := by
  intro answer after may
  obtain ⟨db, effect, rfl⟩ := may.store
  rcases outcomes answer db effect with rfl | rfl
  · exact ⟨watch _ _ _ settled.toTracks, payload, settled, .refl⟩
  · have tracks := settled.toTracks.of_rows ∅ recorded rows (fun _ _ => rfl) (by
      intro old member name named
      obtain ⟨row, present, same⟩ := hashes old member
      exact .inr ⟨row, present, same.trans named⟩)
    rw [Set.empty_union] at tracks
    exact ⟨watch _ _ _ tracks, payload, ⟨tracks, settled.dir⟩, .of_rows sequence rows⟩

end

end Y4p
