import Y4p.Lib.Interleaving
import Y4p.Storage.CacheFiles

/-!
Two processes on one database and one cache directory: the daemon's worker and a
command of the CLI, interleaved call by call.
-/

namespace Y4p

open Programs

section
variable {α : Type}

-- The existence check, write or rename that leads to a file for `hash`.
def Call.Prepares (hash : Str) : Call → Prop
  | .pathExists name | .write name _ | .rename _ name => name = hash
  | _ => False

def Call.Detaches (hash : Str) : Call → Prop
  | .store (.upsert _ _ _ (.detached _) name _) => name = hash
  | _ => False

def AboutToPlace (hash : Str) (program : Io α) : Prop :=
  ∃ call, program.next? = some call ∧ call.Prepares hash

-- Between finding or placing the file for `hash` and committing its row.
def Relies (hash : Str) : Io α → Prop
  | .ret _ => False
  | .call request next =>
      request.Detaches hash ∨ (∃ source, request = .removeSpool source) ∧
        ∃ answer call, (next answer).next? = some call ∧ call.Detaches hash

def FreeToRemove (hash : Str) (partner : Io α) (world : World) : Prop :=
  (Unused hash world ∨ AboutToPlace hash partner) ∧ ¬ Relies hash partner

-- A file, or all files, are removed only when the other process and the rows allow it.
def Orderly (partner : Io α) (world : World) : Call → Prop
  | .remove hash => FreeToRemove hash partner world
  | .removeDirAll => ∀ hash, FreeToRemove hash partner world
  | _ => True

end

section
variable (sha3 : Bytes → Bytes) (pool : Set Bytes) {α : Type}

def Secures : (request : Call) → request.Answer → Str → Prop
  | .pathExists name, answer, hash => answer = true ∧ name = hash
  | .rename _ name, answer, hash | .copy _ name, answer, hash => answer = .ok () ∧ name = hash
  | _, _, _ => False

abbrev SpoolFiles := SpoolPath → Option Bytes

def SpoolFiles.after (files : SpoolFiles) : Call → SpoolFiles
  | .spool source data => Function.update files source (some data)
  | _ => files

def Justified (files : SpoolFiles) : (request : Call) → (request.Answer → Io α) → Prop
  | .store (.upsert _ _ _ (.record data) hash _), next =>
      hash = toHex (sha3 data.bytes) ∧ Pooled pool data ∧
        ∀ outcome : UpsertOutcome, outcome.isImage = true → outcome.realId ≠ -1 →
          AboutToPlace hash (next (.ok outcome))
  | .store (.upsert _ _ _ (.detached len) hash _), _ =>
      ∃ data, Pooled pool data ∧ len.toNat = data.bytes.length ∧ hash = toHex (sha3 data.bytes)
  | .pathExists hash, next => AboutToPlace hash (next false)
  | .write hash data, _ => data ∈ pool ∧ hash = toHex (sha3 data)
  | .rename source hash, _ | .copy source hash, _ =>
      ∀ data, files source = some data → data ∈ pool ∧ hash = toHex (sha3 data)
  | _, _ => True

def Earned (request : Call) (next : request.Answer → Io α) : Prop :=
  ∀ answer hash, Relies hash (next answer) →
    Relies hash (.call request next : Io α) ∨ Secures request answer hash

def Plausible (files : SpoolFiles) : (request : Call) → request.Answer → Prop
  | .openSpool source, answer => ∀ handle, answer = .ok handle → files source = some handle
  | .readHandle handle limit, answer => ∀ data, answer = .ok data → data = handle.take limit
  | _, _ => True

def roads (α : Type) : Contract Call Call.Answer α SpoolFiles where
  carry := SpoolFiles.after
  credible := Plausible
  each files request next := Justified sha3 pool files request next ∧ Earned request next

def Proper (files : SpoolFiles) (program : Io α) : Prop :=
  program.Obeys (roads sha3 pool α) files

end

section
variable {sha3 : Bytes → Bytes} {world after : World}

theorem Call.May.write_ok {hash : Str} {data : Bytes} {answer : Except String Unit}
    (may : (Call.write hash data).May sha3 (fun _ _ _ => False) world answer after)
    (placed : answer = .ok ()) : after = world.put hash (some data) := by
  rcases may with ⟨_, ran⟩ | ⟨_, failed, _⟩
  · rcases Call.run_write ran with ⟨-, same⟩ | ⟨⟨message, rfl⟩, -⟩
    · exact same
    · cases placed
  · exact failed.elim

theorem Call.May.rename_ok {source : SpoolPath} {hash : Str} {answer : Except String Unit}
    (may : (Call.rename source hash).May sha3 (fun _ _ _ => False) world answer after)
    (placed : answer = .ok ()) :
    ∃ data, world.spool source = some data ∧
      after = (world.put hash (some data)).putSpool source none := by
  rcases may with ⟨_, ran⟩ | ⟨_, failed, _⟩
  · rcases Call.run_rename ran with ⟨-, moved⟩ | ⟨⟨message, rfl⟩, -⟩
    · exact moved
    · cases placed
  · exact failed.elim

theorem Call.May.copied {source : SpoolPath} {hash : Str} {answer : Except String Unit}
    (may : (Call.copy source hash).May sha3 (fun _ _ _ => False) world answer after) :
    (∃ data, world.spool source = some data ∧ after = world.put hash (some data)) ∨
      ∃ message, answer = .error message ∧ after = world := by
  rcases may with ⟨_, ran⟩ | ⟨_, failed, _⟩
  · rcases Call.run_copy ran with ⟨-, copied⟩ | ⟨⟨message, refused⟩, same⟩
    · exact .inl copied
    · exact .inr ⟨message, refused, same⟩
  · exact failed.elim

theorem Call.May.openSpool_still {source : SpoolPath} {answer : Except String Bytes}
    (may : (Call.openSpool source).May sha3 (fun _ _ _ => False) world answer after) :
    after = world := by
  rcases may with ⟨_, ran⟩ | ⟨_, failed, _⟩
  · exact (Call.run_openSpool ran).2
  · exact failed.elim

theorem Call.May.removeDirAll_cache {answer : Except String Unit}
    (may : Call.removeDirAll.May sha3 (fun _ _ _ => False) world answer after) :
    after.db = world.db ∧
      ∀ hash, after.cache hash = world.cache hash ∨ after.cache hash = none := by
  rcases may with ⟨_, ran⟩ | ⟨_, failed, _⟩
  · rw [Call.run] at ran
    split at ran
    · cases ran
      exact ⟨rfl, fun _ => .inr rfl⟩
    · cases ran
      exact ⟨rfl, fun _ => .inl rfl⟩
  · exact failed.elim

/-- Only the spooler adds spool files. -/
theorem Call.May.spool_bound {call : Call} {answer : call.Answer} {files : SpoolFiles}
    (may : call.May sha3 (fun _ _ _ => False) world answer after)
    (bound : ∀ source data, world.spool source = some data → files source = some data) :
    ∀ source data, after.spool source = some data → files.after call source = some data := by
  have gone : ∀ path source data,
      (if source = path then none else world.spool source) = some data →
        files source = some data := by
    intro path source data found
    split at found
    · cases found
    · exact bound source data found
  rcases may with ⟨faults, ran⟩ | ⟨_, failed, _⟩
  · cases call with
    | spool path payload =>
        cases ran
        intro source data found
        change (if source = path then some payload else world.spool source) = some data at found
        by_cases same : source = path
        · rw [if_pos same] at found
          rw [same]
          exact (Function.update_self path (some payload) files).trans found
        · rw [if_neg same] at found
          exact (Function.update_of_ne same (some payload) files).trans (bound source data found)
    | rename path hash =>
        rcases Call.run_rename ran with ⟨-, payload, -, rfl⟩ | ⟨-, rfl⟩
        · exact gone path
        · exact bound
    | removeSpool path =>
        rcases Call.run_removeSpool ran with rfl | ⟨-, rfl⟩
        · exact gone path
        · exact bound
    | removeDirAll =>
        rw [Call.run] at ran
        split at ran
        · cases ran
          intro source data found
          cases found
        · cases ran
          exact bound
    | copy path hash =>
        rcases Call.run_copy ran with ⟨-, payload, -, rfl⟩ | ⟨-, rfl⟩ <;> exact bound
    | write hash data | remove hash | openSpool path =>
        rw [Call.run] at ran
        split at ran <;> cases ran <;> exact bound
    | store op | pathExists hash | read hash | readHandle handle limit | createDirAll =>
        cases ran
        exact bound
  · exact failed.elim

end

section
variable (sha3 : Bytes → Bytes) (pool : Set Bytes)

structure Coherent (mover partner : Io Unit) (world : World) : Prop where
  recorded : ∃ payload, Recorded sha3 pool payload world.db
  right : ∀ hash file, world.cache hash = some file → file ∈ pool ∧ hash = toHex (sha3 file)
  covered : ∀ row ∈ world.db.clipboard, row.Detached → ∀ hash, row.hash = some hash →
    (world.cache hash).isSome ∨ AboutToPlace hash mover ∨ AboutToPlace hash partner
  relied : ∀ hash, Relies hash mover ∨ Relies hash partner → (world.cache hash).isSome

end

section
variable {sha3 : Bytes → Bytes} {pool : Set Bytes} {mover partner : Io Unit} {world after : World}
  {request : Call} {next : request.Answer → Io Unit} {answer : request.Answer}

theorem Coherent.swap (coherent : Coherent sha3 pool mover partner world) :
    Coherent sha3 pool partner mover world where
  recorded := coherent.recorded
  right := coherent.right
  covered := fun row member detached hash named =>
    (coherent.covered row member detached hash named).imp_right Or.symm
  relied := fun hash relies => coherent.relied hash relies.symm

theorem Earned.relied (earned : Earned request next)
    (coherent : Coherent sha3 pool (.call request next) partner world)
    (kept : ∀ hash, Relies hash (.call request next : Io Unit) ∨ Relies hash partner →
      (world.cache hash).isSome → (after.cache hash).isSome)
    (secured : ∀ hash, Secures request answer hash → (after.cache hash).isSome) :
    ∀ hash, Relies hash (next answer) ∨ Relies hash partner → (after.cache hash).isSome := by
  rintro hash (mine | theirs)
  · rcases earned answer hash mine with already | now
    · exact kept hash (.inl already) (coherent.relied hash (.inl already))
    · exact secured hash now
  · exact kept hash (.inr theirs) (coherent.relied hash (.inr theirs))

/-- A call that changes neither rows nor cache files. -/
theorem Coherent.still (coherent : Coherent sha3 pool (.call request next) partner world)
    (answer : request.Answer) (earned : Earned request next)
    (same : after.db = world.db ∧ after.cache = world.cache)
    (secured : ∀ hash, Secures request answer hash → (world.cache hash).isSome)
    (placing : ∀ hash, request.Prepares hash →
      (world.cache hash).isSome ∨ AboutToPlace hash (next answer)) :
    Coherent sha3 pool (next answer) partner after := by
  obtain ⟨db, cache⟩ := same
  constructor
  · rw [db]
    exact coherent.recorded
  · rw [cache]
    exact coherent.right
  · rw [db, cache]
    intro row member detached hash named
    rcases coherent.covered row member detached hash named with found | ⟨call, isNext, mine⟩ | theirs
    · exact .inl found
    · cases isNext
      exact (placing hash mine).imp_right .inl
    · exact .inr (.inr theirs)
  · exact earned.relied coherent (fun hash _ found => by rw [cache]; exact found)
      fun hash now => by rw [cache]; exact secured hash now

/-- A call that places the right file for one hash. -/
theorem Coherent.placed (coherent : Coherent sha3 pool (.call request next) partner world)
    (answer : request.Answer) (earned : Earned request next) {name : Str} {file : Bytes}
    (right : file ∈ pool ∧ name = toHex (sha3 file))
    (same : after.db = world.db ∧ after.cache = (world.put name (some file)).cache)
    (secures : ∀ hash, Secures request answer hash → hash = name)
    (prepares : ∀ hash, request.Prepares hash → hash = name) :
    Coherent sha3 pool (next answer) partner after := by
  obtain ⟨db, cache⟩ := same
  have here : (after.cache name).isSome := by
    rw [cache, World.put_cache_self]
    rfl
  have grows : ∀ hash, (world.cache hash).isSome → (after.cache hash).isSome := by
    intro hash found
    by_cases equal : hash = name
    · rw [equal]
      exact here
    · rw [cache, World.put_cache_of_ne _ _ equal]
      exact found
  constructor
  · rw [db]
    exact coherent.recorded
  · intro hash other found
    by_cases equal : hash = name
    · rw [equal, cache, World.put_cache_self] at found
      injection found with found
      rw [← found, equal]
      exact right
    · rw [cache, World.put_cache_of_ne _ _ equal] at found
      exact coherent.right hash other found
  · rw [db]
    intro row member detached hash named
    rcases coherent.covered row member detached hash named with found | ⟨call, isNext, mine⟩ | theirs
    · exact .inl (grows hash found)
    · cases isNext
      rw [prepares hash mine]
      exact .inl here
    · exact .inr (.inr theirs)
  · refine earned.relied coherent (fun hash _ => grows hash) fun hash now => ?_
    rw [secures hash now]
    exact here

/-- A call that removes files which nobody is relying on. -/
theorem Coherent.removed (coherent : Coherent sha3 pool (.call request next) partner world)
    (answer : request.Answer) (earned : Earned request next) (names : Set Str)
    (same : after.db = world.db ∧ ∀ hash, after.cache hash = world.cache hash ∨
      (hash ∈ names ∧ after.cache hash = none))
    (free : ∀ hash ∈ names, FreeToRemove hash partner world)
    (mine : ∀ hash, ¬ Relies hash (.call request next : Io Unit))
    (secures : ∀ hash, ¬ Secures request answer hash) (prepares : ∀ hash, ¬ request.Prepares hash) :
    Coherent sha3 pool (next answer) partner after := by
  obtain ⟨db, cache⟩ := same
  constructor
  · rw [db]
    exact coherent.recorded
  · intro hash file found
    rcases cache hash with kept | ⟨_, gone⟩
    · exact coherent.right hash file (kept ▸ found)
    · rw [gone] at found
      cases found
  · rw [db]
    intro row member detached hash named
    rcases cache hash with kept | ⟨listed, _⟩
    · rw [kept]
      rcases coherent.covered row member detached hash named with found | ⟨call, isNext, now⟩ | theirs
      · exact .inl found
      · cases isNext
        exact absurd now (prepares hash)
      · exact .inr (.inr theirs)
    · rcases (free hash listed).1 with unused | theirs
      · exact absurd named (unused row member detached)
      · exact .inr (.inr theirs)
  · refine earned.relied coherent ?_ fun hash now => absurd now (secures hash)
    rintro hash (relies | relies) found
    · exact absurd relies (mine hash)
    · rcases cache hash with kept | ⟨listed, _⟩
      · rw [kept]
        exact found
      · exact absurd relies (free hash listed).2

/-- A transaction: every row of after was there, or its file is there or about to be. -/
theorem Coherent.stored {db : Db}
    (coherent : Coherent sha3 pool (.call request next) partner world) (answer : request.Answer)
    (earned : Earned request next) (recorded : ∃ payload, Recorded sha3 pool payload db)
    (rows : ∀ row ∈ db.clipboard, (∃ old ∈ world.db.clipboard, SameRecord old row) ∨
      (row.Detached → ∀ hash, row.hash = some hash →
        (world.cache hash).isSome ∨ AboutToPlace hash (next answer)))
    (secures : ∀ hash, ¬ Secures request answer hash) (prepares : ∀ hash, ¬ request.Prepares hash) :
    Coherent sha3 pool (next answer) partner (world.withDb db) where
  recorded := recorded
  right := coherent.right
  covered := by
    intro row member detached hash named
    rcases rows row member with ⟨old, present, same⟩ | new
    · rcases coherent.covered old present (same.detached.mp detached) hash
        (same.hash.symm.trans named) with found | ⟨call, isNext, now⟩ | theirs
      · exact .inl found
      · cases isNext
        exact absurd now (prepares hash)
      · exact .inr (.inr theirs)
    · exact (new detached hash named).imp_right .inl
  relied := earned.relied coherent (fun _ _ found => found) fun hash now => absurd now (secures hash)

def Call.PlacedOk : (call : Call) → call.Answer → Prop
  | .write .., answer | .rename .., answer => answer = .ok ()
  | _, _ => True

theorem Coherent.upserted {now : Int} {tie : TieOrder} {mime hash : Str} {offer : Offer}
    {maxHistory : UInt64} {next : Except String UpsertOutcome → Io Unit}
    {result : Except String UpsertOutcome} {db : Db} {data : Slice}
    (coherent : Coherent sha3 pool
      (.call (.store (.upsert now tie mime offer hash maxHistory)) next) partner world)
    (earned : Earned (.store (.upsert now tie mime offer hash maxHistory)) next)
    (stands : offer.Stands data) (kept : Pooled pool data)
    (key : hash = toHex (sha3 data.bytes))
    (effect : UpsertEffect sha3 world.db now tie mime offer.body hash maxHistory result db)
    (follows : ∀ outcome : UpsertOutcome, result = .ok outcome → outcome.realId ≠ -1 →
      outcome.isImage = isCacheClass mime → (offer.body.parts mime).2 = .none →
      (world.cache hash).isSome ∨ AboutToPlace hash (next (.ok outcome))) :
    Coherent sha3 pool (next result) partner (world.withDb db) := by
  have unchanged : db = world.db → Coherent sha3 pool (next result) partner (world.withDb db) := by
    rintro rfl
    exact coherent.stored result earned coherent.recorded
      (fun row member => .inl ⟨row, member, .refl row⟩) (fun _ now => now) fun _ now => now
  unfold UpsertEffect at effect
  split at effect
  · exact unchanged effect.2
  rcases effect with ⟨_, _, same⟩ | ⟨outcome, rfl, upserted⟩
  · exact unchanged same
  obtain ⟨payload, recorded⟩ := coherent.recorded
  refine coherent.stored (.ok outcome) earned
    ⟨_, recorded.upserted upserted stands key kept⟩ ?_ (fun _ now => now) fun _ now => now
  intro row member
  rcases upserted.rows member with old | ⟨_, rfl⟩
  · exact .inl old
  · right
    intro detached name named
    have positive := upserted.realId_pos
    obtain ⟨_, _, image, _⟩ := upserted
    cases Option.some.inj named
    exact follows outcome rfl (by omega) image (insertedRow_detached.mp detached)

theorem Coherent.turn {files : SpoolFiles}
    (coherent : Coherent sha3 pool (.call request next) partner world)
    (justified : Justified sha3 pool files request next) (earned : Earned request next)
    (bound : ∀ source data, world.spool source = some data → files source = some data)
    (may : request.May sha3 (fun _ _ _ => False) world answer after)
    (placed : request.PlacedOk answer) (orderly : Orderly partner world request) :
    Coherent sha3 pool (next answer) partner after := by
  cases request with
  | store op =>
      obtain ⟨db, effect, rfl⟩ := may.store
      by_cases upserts : ∃ now tie mime offer hash maxHistory,
          op = .upsert now tie mime offer hash maxHistory
      · obtain ⟨now, tie, mime, offer, hash, maxHistory, rfl⟩ := upserts
        cases offer with
        | record data =>
            obtain ⟨key, kept, follows⟩ := justified
            refine coherent.upserted earned rfl kept key effect ?_
            intro outcome _ real image content
            exact .inr (follows outcome (image.trans (contentOf_none content)) real)
        | detached len =>
            obtain ⟨data, kept, same, key⟩ := justified
            refine coherent.upserted earned same kept key effect ?_
            intro _ _ _ _ _
            exact .inl (coherent.relied hash (.inl (.inl rfl)))
      · obtain ⟨payload, recorded⟩ := coherent.recorded
        obtain ⟨shrunk, rows⟩ := recorded.shrunk effect fun now tie mime offer hash maxHistory same =>
          upserts ⟨now, tie, mime, offer, hash, maxHistory, same⟩
        exact coherent.stored _ earned ⟨payload, shrunk⟩ (fun row member => .inl (rows row member))
          (fun _ now => now) fun _ now => now
  | spool source data =>
      cases may.spool
      exact coherent.still _ earned ⟨rfl, rfl⟩ (fun _ => False.elim) (fun _ => False.elim)
  | pathExists hash =>
      obtain ⟨rfl, rfl⟩ := may.pathExists
      refine coherent.still _ earned ⟨rfl, rfl⟩ ?_ ?_
      · rintro name ⟨found, rfl⟩
        exact found
      · rintro name rfl
        cases found : (after.cache hash).isSome with
        | true => exact .inl rfl
        | false => exact .inr justified
  | write hash data =>
      have wrote := may.write_ok placed
      subst wrote
      exact coherent.placed _ earned justified ⟨rfl, rfl⟩ (fun _ => False.elim) fun _ same => same.symm
  | rename source hash =>
      obtain ⟨data, spooled, rfl⟩ := may.rename_ok placed
      exact coherent.placed _ earned (justified data (bound source data spooled)) ⟨rfl, rfl⟩
        (fun _ now => now.2.symm) fun _ same => same.symm
  | copy source hash =>
      rcases may.copied with ⟨data, spooled, rfl⟩ | ⟨message, rfl, rfl⟩
      · exact coherent.placed _ earned (justified data (bound source data spooled)) ⟨rfl, rfl⟩
          (fun _ now => now.2.symm) fun _ => False.elim
      · exact coherent.still _ earned ⟨rfl, rfl⟩ (fun _ now => by cases now.1) fun _ => False.elim
  | removeSpool source =>
      have same := may.removeSpool
      exact coherent.still _ earned ⟨same.db, same.cache⟩ (fun _ => False.elim) fun _ => False.elim
  | remove hash =>
      have gone := may.remove fun _ failed => failed
      subst gone
      have relies : ∀ name, ¬ Relies name (.call (.remove hash) next : Io Unit) := by
        rintro name (impossible | ⟨⟨_, impossible⟩, _⟩)
        · exact impossible
        · cases impossible
      refine coherent.removed _ earned {hash} ⟨rfl, fun name => ?_⟩ ?_ relies
        (fun _ now => now) fun _ now => now
      · by_cases equal : name = hash
        · exact .inr ⟨equal, by rw [equal, World.put_cache_self]⟩
        · exact .inl (World.put_cache_of_ne _ _ equal)
      · rintro name rfl
        exact orderly
  | read hash =>
      cases may.read.2
      exact coherent.still _ earned ⟨rfl, rfl⟩ (fun _ => False.elim) fun _ => False.elim
  | openSpool source =>
      have same := may.openSpool_still
      subst same
      exact coherent.still _ earned ⟨rfl, rfl⟩ (fun _ => False.elim) fun _ => False.elim
  | readHandle handle limit =>
      cases may.readHandle.2
      exact coherent.still _ earned ⟨rfl, rfl⟩ (fun _ => False.elim) fun _ => False.elim
  | removeDirAll =>
      have relies : ∀ name, ¬ Relies name (.call .removeDirAll next : Io Unit) := by
        rintro name (impossible | ⟨⟨_, impossible⟩, _⟩)
        · exact impossible
        · cases impossible
      obtain ⟨db, emptied⟩ := may.removeDirAll_cache
      refine coherent.removed _ earned Set.univ ⟨db, fun name => ?_⟩
        (fun name _ => orderly name) relies (fun _ now => now) fun _ now => now
      exact (emptied name).imp_right fun none => ⟨trivial, none⟩
  | createDirAll =>
      obtain ⟨db, cache, _⟩ := may.createDirAll fun _ failed => failed
      exact coherent.still _ earned ⟨db, cache⟩ (fun _ => False.elim) fun _ => False.elim

end

end Y4p
