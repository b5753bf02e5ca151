import Y4p.Storage.Facade
import Y4p.Storage.Records

/-!
Rows and cache files: what each call of the facade does to their agreement, and
from it what each operation does, whichever of its calls fail in the ways allowed.
-/

namespace Y4p

open Programs

def World.withDb (world : World) (db : Db) : World :=
  { world with db := db }

section
variable (sha3 : Bytes → Bytes) (pool : Set Bytes) (payload : Int → Bytes)

-- `stale`: hashes whose file may outlive their row for now.
structure Faithful (stale : Set Str) (world : World) : Prop where
  recorded : Recorded sha3 pool payload world.db
  owned : ∀ hash file, world.cache hash = some file →
    hash ∈ stale ∨ ∃ row ∈ world.db.clipboard, row.hash = some hash
  served : ∀ row ∈ world.db.clipboard, row.Detached → ∀ hash file, row.hash = some hash →
    world.cache hash = some file → file = payload row.id

-- `exempt`: hashes whose row may wait for its file for now.
def Present (exempt : Set Str) (world : World) : Prop :=
  ∀ row ∈ world.db.clipboard, row.Detached → ∀ hash, row.hash = some hash →
    hash ∉ exempt → (world.cache hash).isSome

structure Tracks (calm : Prop) (exempt stale : Set Str) (world : World) : Prop extends
    Faithful sha3 pool payload stale world where
  present : calm → Present exempt world

/-- Every row whose content is in the cache directory has its complete file there. -/
def FilesComplete (world : World) : Prop :=
  ∀ row ∈ world.db.clipboard, row.Detached → ∃ hash file, row.hash = some hash ∧
    world.cache hash = some file ∧ toHex (sha3 file) = hash ∧ (file.length : Int) = row.size

end

section
variable {sha3 : Bytes → Bytes} {pool : Set Bytes} {payload : Int → Bytes} {calm : Prop}
  {exempt stale : Set Str} {world : World}

theorem Faithful.filesComplete (faithful : Faithful sha3 pool payload stale world)
    (present : Present ∅ world) : FilesComplete sha3 world := by
  intro row member detached
  have keyed := faithful.recorded.keyed row member
  have placed := present row member detached _ keyed (Set.notMem_empty _)
  obtain ⟨file, found⟩ := Option.isSome_iff_exists.mp placed
  have same := faithful.served row member detached _ file keyed found
  refine ⟨_, file, keyed, found, by rw [same], ?_⟩
  rw [same]
  exact (faithful.recorded.sized row member).symm

theorem Present.mono {wider : Set Str} (present : Present exempt world) (more : exempt ⊆ wider) :
    Present wider world :=
  fun row member detached hash named spared =>
    present row member detached hash named fun also => spared (more also)

theorem Present.put_some (present : Present exempt world) (hash : Str) (file : Bytes) :
    Present (exempt \ {hash}) (world.put hash (some file)) := by
  intro row member detached name named spared
  by_cases same : name = hash
  · rw [same, World.put_cache_self]
    rfl
  · rw [World.put_cache_of_ne _ _ same]
    exact present row member detached name named fun also => spared ⟨also, same⟩

theorem Present.put_none (present : Present exempt world) {hash : Str}
    (unused : ∀ row ∈ world.db.clipboard, row.Detached → row.hash ≠ some hash) :
    Present exempt (world.put hash none) := by
  intro row member detached name named spared
  have differs : name ≠ hash := by
    rintro rfl
    exact unused row member detached named
  rw [World.put_cache_of_ne _ _ differs]
  exact present row member detached name named spared

theorem Faithful.put_none (faithful : Faithful sha3 pool payload stale world) (hash : Str) :
    Faithful sha3 pool payload (stale \ {hash}) (world.put hash none) where
  recorded := faithful.recorded
  owned := by
    intro name file found
    by_cases same : name = hash
    · rw [same, World.put_cache_self] at found
      cases found
    · rw [World.put_cache_of_ne _ _ same] at found
      exact (faithful.owned name file found).imp_left fun known => ⟨known, same⟩
  served := by
    intro row member detached name file named found
    by_cases same : name = hash
    · rw [same, World.put_cache_self] at found
      cases found
    · rw [World.put_cache_of_ne _ _ same] at found
      exact faithful.served row member detached name file named found

theorem Faithful.put_some (faithful : Faithful sha3 pool payload stale world) {hash : Str}
    {file : Bytes}
    (known : hash ∈ stale ∨ ∃ row ∈ world.db.clipboard, row.hash = some hash)
    (right : ∀ row ∈ world.db.clipboard, row.Detached → row.hash = some hash →
      file = payload row.id) :
    Faithful sha3 pool payload stale (world.put hash (some file)) where
  recorded := faithful.recorded
  owned := by
    intro name other found
    by_cases same : name = hash
    · rw [same]
      exact known
    · rw [World.put_cache_of_ne _ _ same] at found
      exact faithful.owned name other found
  served := by
    intro row member detached name other named found
    by_cases same : name = hash
    · rw [same, World.put_cache_self] at found
      injection found with found
      rw [← found]
      exact right row member detached (same ▸ named)
    · rw [World.put_cache_of_ne _ _ same] at found
      exact faithful.served row member detached name other named found

theorem Faithful.mono {wider : Set Str} (faithful : Faithful sha3 pool payload stale world)
    (more : ∀ hash ∈ stale, hash ∈ wider ∨ ∃ row ∈ world.db.clipboard, row.hash = some hash) :
    Faithful sha3 pool payload wider world where
  recorded := faithful.recorded
  owned := fun hash file found => (faithful.owned hash file found).elim (more hash) .inr
  served := faithful.served

/-- A file keyed by the digest of its bytes suits every row of that hash. -/
theorem Recorded.payload_of_key {db : Db} (recorded : Recorded sha3 pool payload db)
    (noCollision : Set.InjOn sha3 pool) {row : Row} (member : row ∈ db.clipboard) {data : Bytes}
    (pooled : data ∈ pool) (named : row.hash = some (toHex (sha3 data))) :
    data = payload row.id := by
  rw [recorded.keyed row member] at named
  injection named with named
  exact noCollision pooled (recorded.pooled row member) (toHex_injective named).symm

namespace Tracks

theorem filesComplete (tracks : Tracks sha3 pool payload calm exempt stale world) :
    calm → exempt = ∅ → FilesComplete sha3 world := by
  intro quiet none
  have present := tracks.present quiet
  rw [none] at present
  exact tracks.toFaithful.filesComplete present

theorem mono {wider more : Set Str} (tracks : Tracks sha3 pool payload calm exempt stale world)
    (exempts : exempt ⊆ wider)
    (stales : ∀ hash ∈ stale, hash ∈ more ∨ ∃ row ∈ world.db.clipboard, row.hash = some hash) :
    Tracks sha3 pool payload calm wider more world where
  toFaithful := tracks.toFaithful.mono stales
  present := fun quiet => (tracks.present quiet).mono exempts

theorem put_none (tracks : Tracks sha3 pool payload calm exempt stale world) {hash : Str}
    (unused : calm → ∀ row ∈ world.db.clipboard, row.Detached → row.hash ≠ some hash) :
    Tracks sha3 pool payload calm exempt (stale \ {hash}) (world.put hash none) where
  toFaithful := tracks.toFaithful.put_none hash
  present := fun quiet => (tracks.present quiet).put_none (unused quiet)

theorem putSpool (tracks : Tracks sha3 pool payload calm exempt stale world) (source : SpoolPath)
    (file : Option Bytes) :
    Tracks sha3 pool payload calm exempt stale (world.putSpool source file) where
  recorded := tracks.recorded
  owned := tracks.owned
  served := tracks.served
  present := tracks.present

/-- Rows may go, and then their files are stale. -/
theorem of_rows {payload' : Int → Bytes} {after : Db}
    (tracks : Tracks sha3 pool payload calm exempt stale world) (gone : Set Str)
    (recorded : Recorded sha3 pool payload' after)
    (rows : ∀ row ∈ after.clipboard, ∃ old ∈ world.db.clipboard, SameRecord old row)
    (payloads : ∀ row ∈ after.clipboard, payload' row.id = payload row.id)
    (accounted : ∀ old ∈ world.db.clipboard, ∀ hash, old.hash = some hash →
      hash ∈ gone ∨ ∃ row ∈ after.clipboard, row.hash = some hash) :
    Tracks sha3 pool payload' calm exempt (stale ∪ gone) (world.withDb after) where
  recorded := recorded
  owned := by
    intro hash file found
    rcases tracks.owned hash file found with known | ⟨old, member, named⟩
    · exact .inl (.inl known)
    · exact (accounted old member hash named).imp_left .inr
  served := by
    intro row member detached hash file named found
    obtain ⟨old, present, same⟩ := rows row member
    rw [payloads row member, same.id]
    exact tracks.served old present (same.detached.mp detached) hash file
      (same.hash.symm.trans named) found
  present := by
    intro quiet row member detached hash named spared
    obtain ⟨old, present, same⟩ := rows row member
    exact tracks.present quiet old present (same.detached.mp detached) hash
      (same.hash.symm.trans named) spared

theorem upserted (tracks : Tracks sha3 pool payload calm ∅ stale world) {now : Int}
    {tie : TieOrder} {mime hash : Str} {offer : Offer} {maxHistory : UInt64}
    {outcome : UpsertOutcome} {after : Db}
    (upserted : Upserted sha3 world.db now tie mime offer.body hash maxHistory outcome after)
    {data : Slice} (stands : offer.Stands data) (key : hash = toHex (sha3 data.bytes))
    (kept : Pooled pool data)
    (rightFile : world.db.rowByHash hash = none →
      ∀ file, world.cache hash = some file → file = data.bytes)
    (covered : calm → world.db.rowByHash hash = none → (offer.body.parts mime).2 = .none →
      (∃ row ∈ after.clipboard, row.id = outcome.realId) →
      hash ∈ exempt ∨ (world.cache hash).isSome) :
    Tracks sha3 pool (enrolled payload world.db hash data.bytes) calm exempt
      (stale ∪ {name | name ∈ outcome.expiredHashes}) (world.withDb after) where
  recorded := tracks.recorded.upserted upserted stands key kept
  owned := by
    intro name file found
    rcases tracks.owned name file found with known | listed
    · exact .inl (.inl known)
    · exact (upserted.expired_or_live (.inl listed)).imp_left .inr
  served := by
    intro row member detached name file named found
    rcases upserted.rows member with ⟨old, present, same⟩ | ⟨absent, rfl⟩
    · rw [same.id, enrolled_old (world.db.idsIssued old present).2]
      exact tracks.served old present (same.detached.mp detached) name file
        (same.hash.symm.trans named) found
    · have sameHash : hash = name := Option.some.inj named
      have new : enrolled payload world.db hash data.bytes
          (insertedRow world.db now mime offer.body hash).id = data.bytes := enrolled_new absent
      rw [new]
      exact rightFile absent file (sameHash ▸ found)
  present := by
    intro quiet row member detached name named spared
    rcases upserted.rows member with ⟨old, present, same⟩ | ⟨absent, rfl⟩
    · exact tracks.present quiet old present (same.detached.mp detached) name
        (same.hash.symm.trans named) (Set.notMem_empty _)
    · have sameHash : hash = name := Option.some.inj named
      subst sameHash
      have issued : outcome.realId = world.db.sequence + 1 := by
        obtain ⟨placed, places, _⟩ := upserted
        rw [places.id_eq, placedId, absent]
      have survives : ∃ row ∈ after.clipboard, row.id = outcome.realId :=
        ⟨_, member, issued.symm⟩
      exact (covered quiet absent (insertedRow_detached.mp detached) survives).resolve_left spared

end Tracks

end

end Y4p
