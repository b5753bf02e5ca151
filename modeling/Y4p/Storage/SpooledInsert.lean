import Y4p.Storage.Session

/-!
`insert_spooled` beside `insert_with_hash`: both roads lead to the same rows and cache
entries, and whatever fails on the spooled road its file is consumed.
-/

namespace Y4p

open Programs

section
variable (sha3 : Bytes → Bytes) {mime : Str} {data : Bytes}

theorem rowParts_detachable (detachable : isDetachable mime = true) :
    rowParts mime data (isCacheClass mime) = (none, .none) := by
  simp only [isDetachable, Bool.and_eq_true, Bool.not_eq_true'] at detachable
  obtain ⟨cacheClass, notText⟩ := detachable
  simp [rowParts, previewOf, contentOf, isChunkable, cacheClass, notText]

theorem insertRow_detachable (detachable : isDetachable mime = true) {len : Nat}
    (exact : len = data.length) (now : Int) (hash : Str) :
    insertRow sha3 now mime (.bytes data) hash = insertRow sha3 now mime (.detached len) hash := by
  have parts : (Body.bytes data).parts mime = (Body.detached len).parts mime :=
    rowParts_detachable detachable
  have row : newRow now mime (.bytes data) hash = newRow now mime (.detached len) hash := by
    simp only [newRow, parts, Body.len, exact]
  unfold insertRow
  rw [row, parts]

theorem upsert_detachable (detachable : isDetachable mime = true) {len : UInt64}
    {slice : Slice} (exact : len.toNat = slice.bytes.length) (now : Int) (tie : TieOrder)
    (hash : Str) (maxHistory : UInt64) (faults : Faults) (db : Db) :
    StoreOp.run sha3 (.upsert now tie mime (.detached len) hash maxHistory) faults db =
      StoreOp.run sha3 (.upsert now tie mime (.record slice) hash maxHistory) faults db := by
  have same : StoreOp.program sha3 (.upsert now tie mime (.detached len) hash maxHistory) =
      StoreOp.program sha3 (.upsert now tie mime (.record slice) hash maxHistory) := by
    have body : upsertTx sha3 now tie tie mime (.detached len.toNat) hash maxHistory =
        upsertTx sha3 now tie tie mime (.bytes slice.bytes) hash maxHistory := by
      unfold upsertTx touchOrInsert
      rw [insertRow_detachable sha3 detachable exact]
    simp only [StoreOp.program, upsertDetached, upsertRecord, upsert]
    rw [body, exact]
  simp only [StoreOp.run, same]
  rfl

end

def Call.aside : Call → Bool
  | .store _ | .pathExists _ | .write .. | .remove _ | .read _ => true
  | _ => false

section
variable (sha3 : Bytes → Bytes)

theorem Call.run_aside {call : Call} (aside : call.aside = true) (world : World)
    (source : SpoolPath) (file : Option Bytes) :
    call.run sha3 noFaults (world.putSpool source file) =
        ((call.run sha3 noFaults world).1,
          (call.run sha3 noFaults world).2.putSpool source file) ∧
      (call.run sha3 noFaults world).2.spool = world.spool := by
  cases call with
  | store op => exact ⟨rfl, rfl⟩
  | pathExists hash => exact ⟨rfl, rfl⟩
  | read hash => exact ⟨rfl, rfl⟩
  | write hash data =>
      cases dir : world.dir with
      | true => simp [Call.run, World.putSpool, World.put, dir]
      | false => simp [Call.run, World.putSpool, dir]
  | remove hash =>
      cases found : world.cache hash with
      | some data => simp [Call.run, World.putSpool, World.put, found]
      | none => simp [Call.run, World.putSpool, found]
  | _ => cases aside

theorem exec_aside {α : Type} {program : Io α} (issues : program.Issues (·.aside = true))
    (world : World) (source : SpoolPath) (file : Option Bytes) :
    Program.exec (Call.run sha3 noFaults) program (world.putSpool source file) =
        ((Program.exec (Call.run sha3 noFaults) program world).1,
          (Program.exec (Call.run sha3 noFaults) program world).2.putSpool source file) ∧
      (Program.exec (Call.run sha3 noFaults) program world).2.spool = world.spool := by
  induction program generalizing world with
  | ret value => exact ⟨rfl, rfl⟩
  | call request next ih =>
      obtain ⟨aside, later⟩ := issues
      obtain ⟨ran, kept⟩ := Call.run_aside sha3 aside world source file
      obtain ⟨ranLater, keptLater⟩ := ih _ (later _) (request.run sha3 noFaults world).2
      simp only [Program.exec_call, ran]
      exact ⟨ranLater, keptLater.trans kept⟩

end

theorem removeMany_aside (hashes : List Str) :
    (FileCache.removeMany hashes).Issues (·.aside = true) := by
  induction hashes with
  | nil => trivial
  | cons hash rest ih => exact ⟨rfl, fun _ => ih⟩

theorem storeIfImage_aside (isImage : Bool) (hash : Str) (data : Bytes) :
    (storeIfImage isImage hash data).Issues (·.aside = true) := by
  cases isImage with
  | false => trivial
  | true =>
      refine ⟨rfl, ?_⟩
      rintro (_ | _)
      · exact ⟨rfl, fun _ => trivial⟩
      · trivial

theorem insertWithHash_aside (now : Int) (tie : TieOrder) (mime : Str) (data : Slice) (hash : Str)
    (maxHistory : UInt64) :
    (insertWithHash now tie mime data hash maxHistory).Issues (·.aside = true) := by
  refine ⟨rfl, ?_⟩
  rintro (message | outcome)
  · trivial
  · change Program.Issues _ (if outcome.realId = -1 then _ else _)
    split
    · trivial
    · exact (storeIfImage_aside _ _ _).bind fun _ => (removeMany_aside _).bind fun _ => trivial

theorem upsertAdopted_aside (now : Int) (tie : TieOrder) (mime : Str) (spooled : SpooledFile)
    (adoption : FileCache.Adoption) (maxHistory : UInt64) :
    (upsertAdopted now tie mime spooled adoption maxHistory).Issues (·.aside = true) := by
  refine ⟨rfl, ?_⟩
  rintro (message | outcome)
  · cases adoption with
    | placed => exact ⟨rfl, fun _ => trivial⟩
    | present => trivial
  · exact (removeMany_aside _).bind fun _ => trivial

section
variable {sha3 : Bytes → Bytes} {world : World} {mime : Str} {data : Slice} {source : SpoolPath}

theorem spooledFile_len (sha3 : Bytes → Bytes) (source : SpoolPath) (data : Slice) :
    (FacadeOp.spooledFile sha3 source data).len.toNat = data.bytes.length := by
  have fits := data.fits
  exact UInt64.toNat_ofNat_of_lt (by rw [UInt64.size]; omega)

theorem drop_exec (sha3 : Bytes → Bytes) (spooled : SpooledFile) {file : Bytes}
    (held : world.spool spooled.path = some file) :
    Program.exec (Call.run sha3 noFaults) spooled.drop world =
      ((), world.putSpool spooled.path none) := by
  simp only [SpooledFile.drop, Program.exec_bind, Program.exec_ask, Program.exec_pure, Call.run,
    held]

theorem readSpooled_exec (held : world.spool source = some data.bytes)
    (small : data.bytes.length ≤ maxPayloadBytes) :
    Program.exec (Call.run sha3 noFaults)
      (readSpooled (FacadeOp.spooledFile sha3 source data)) world = (.ok data, world) := by
  have len := spooledFile_len sha3 source data
  have fits : (FacadeOp.spooledFile sha3 source data).len.toNat ≤ maxPayloadBytes := by
    rw [len]
    exact small
  have whole : data.bytes.take ((FacadeOp.spooledFile sha3 source data).len.toNat + 1) =
      data.bytes := by
    rw [len]
    exact List.take_of_length_le (Nat.le_succ _)
  have opened : Call.run sha3 noFaults (.openSpool source) world = (.ok data.bytes, world) := by
    simp only [Call.run, held]
  have checked : checkSpooled (FacadeOp.spooledFile sha3 source data).len fits data.bytes =
      .ok data := by
    rw [checkSpooled, dif_pos len.symm]
  rw [readSpooled, dif_pos fits]
  refine (Program.exec_answer _ opened).trans ?_
  refine (Program.exec_answer _ rfl).trans ?_
  change (checkSpooled (FacadeOp.spooledFile sha3 source data).len fits (data.bytes.take _),
    world) = _
  rw [whole, checked]

/-- With nothing failing, what both roads do once the row is decided. -/
theorem upsert_effect {now : Int} {tie : TieOrder} {hash : Str} {maxHistory : UInt64}
    (stored : isSkipped mime data.bytes.length = false) :
    (∃ message, StoreOp.run sha3 (.upsert now tie mime (.record data) hash maxHistory) noFaults
        world.db = (.error message, world.db)) ∨
      ∃ outcome db, StoreOp.run sha3 (.upsert now tie mime (.record data) hash maxHistory) noFaults
          world.db = (.ok outcome, db) ∧ outcome.realId ≠ -1 ∧
        outcome.isImage = isCacheClass mime := by
  let op : StoreOp := .upsert now tie mime (.record data) hash maxHistory
  have effect : UpsertEffect sha3 world.db now tie mime (.bytes data.bytes) hash maxHistory
      (op.run sha3 noFaults world.db).1 (op.run sha3 noFaults world.db).2 :=
    op.run_effect sha3 .none world.db
  simp only [UpsertEffect, Body.len, stored, Bool.false_eq_true, if_false] at effect
  rcases effect with ⟨message, failed, same⟩ | ⟨outcome, succeeded, upserted⟩
  · exact .inl ⟨message, Prod.ext failed same⟩
  · refine .inr ⟨outcome, _, Prod.ext succeeded rfl, ?_, upserted.choose_spec.2.1⟩
    have positive := upserted.realId_pos
    omega

def settleCache (isImage : Bool) (hash : Str) (data : Bytes) (expired : List Str) : Io Unit := do
  storeIfImage isImage hash data
  FileCache.removeMany expired

theorem insertWithHash_exec {now : Int} {tie : TieOrder} {hash : Str} {maxHistory : UInt64}
    {outcome : UpsertOutcome} {db : Db}
    (ran : StoreOp.run sha3 (.upsert now tie mime (.record data) hash maxHistory) noFaults
      world.db = (.ok outcome, db)) (numbered : outcome.realId ≠ -1) :
    Program.exec (Call.run sha3 noFaults) (insertWithHash now tie mime data hash maxHistory) world =
      (.ok outcome.realId, (Program.exec (Call.run sha3 noFaults)
        (settleCache outcome.isImage hash data.bytes outcome.expiredHashes)
        (world.withDb db)).2) := by
  have answered : Call.run sha3 noFaults
      (.store (.upsert now tie mime (.record data) hash maxHistory)) world =
        (.ok outcome, world.withDb db) := by
    simp only [Call.run, ran]
    rfl
  refine (Program.exec_answer _ answered).trans ?_
  change Program.exec _ (if outcome.realId = -1 then _ else _) _ = _
  rw [if_neg numbered]
  simp only [settleCache, Program.exec_bind, Program.exec_pure]

theorem insertWithHash_exec_error {now : Int} {tie : TieOrder} {hash : Str} {maxHistory : UInt64}
    {message : String}
    (ran : StoreOp.run sha3 (.upsert now tie mime (.record data) hash maxHistory) noFaults
      world.db = (.error message, world.db)) :
    Program.exec (Call.run sha3 noFaults) (insertWithHash now tie mime data hash maxHistory) world =
      (.error message, world) := by
  have answered : Call.run sha3 noFaults
      (.store (.upsert now tie mime (.record data) hash maxHistory)) world =
        (.error message, world) := by
    simp only [Call.run, ran]
  exact Program.exec_answer _ answered

theorem storeIfImage_exec (hash : Str) (bytes : Bytes) (dir : world.dir = true) :
    Program.exec (Call.run sha3 noFaults) (storeIfImage true hash bytes) world =
      ((), if (world.cache hash).isSome then world else world.put hash (some bytes)) := by
  have looked : Call.run sha3 noFaults (.pathExists hash) world =
      ((world.cache hash).isSome, world) := rfl
  have written : Call.run sha3 noFaults (.write hash bytes) world =
      (.ok (), world.put hash (some bytes)) := by
    rw [Call.run, if_pos dir]
  refine (Program.exec_answer _ looked).trans ?_
  cases (world.cache hash).isSome with
  | true => rfl
  | false => exact Program.exec_answer _ written

/-- The spooled road once its file is placed, against the road in memory before it is. -/
theorem upsertAdopted_exec {now : Int} {tie : TieOrder} {maxHistory : UInt64}
    {adoption : FileCache.Adoption} {placed : World}
    (detachable : isDetachable mime = true) (dir : world.dir = true)
    (stored : isSkipped mime data.bytes.length = false)
    (taken : (adoption = .present ∧ (world.cache (toHex (sha3 data.bytes))).isSome ∧
        placed = world) ∨
      (adoption = .placed ∧ world.cache (toHex (sha3 data.bytes)) = none ∧
        placed = world.put (toHex (sha3 data.bytes)) (some data.bytes))) :
    Program.exec (Call.run sha3 noFaults)
        (upsertAdopted now tie mime (FacadeOp.spooledFile sha3 source data) adoption maxHistory)
        placed =
      Program.exec (Call.run sha3 noFaults)
        (insertWithHash now tie mime data (toHex (sha3 data.bytes)) maxHistory) world := by
  have db : placed.db = world.db := by
    rcases taken with ⟨_, _, rfl⟩ | ⟨_, _, rfl⟩ <;> rfl
  have same : StoreOp.run sha3 (.upsert now tie mime
      (.detached (FacadeOp.spooledFile sha3 source data).len) (toHex (sha3 data.bytes)) maxHistory)
      noFaults placed.db = StoreOp.run sha3 (.upsert now tie mime (.record data)
        (toHex (sha3 data.bytes)) maxHistory) noFaults world.db := by
    rw [db]
    exact upsert_detachable sha3 detachable (spooledFile_len sha3 source data) now tie _ maxHistory
      noFaults world.db
  have isImage : isCacheClass mime = true := by
    simp only [isDetachable, Bool.and_eq_true] at detachable
    exact detachable.1
  rcases @upsert_effect sha3 world mime data now tie (toHex (sha3 data.bytes)) maxHistory stored
    with ⟨message, ran⟩ | ⟨outcome, after, ran, numbered, image⟩
  · rw [insertWithHash_exec_error ran]
    rw [ran] at same
    have answered : Call.run sha3 noFaults (.store (.upsert now tie mime
        (.detached (FacadeOp.spooledFile sha3 source data).len) (toHex (sha3 data.bytes))
        maxHistory)) placed = (.error message, placed) := by
      simp only [Call.run, same, ← db]
    refine (Program.exec_answer _ answered).trans ?_
    rcases taken with ⟨rfl, _, rfl⟩ | ⟨rfl, absent, rfl⟩
    · rfl
    · have removed : Call.run sha3 noFaults (.remove (toHex (sha3 data.bytes)))
          (world.put (toHex (sha3 data.bytes)) (some data.bytes)) = (.ok (), world) := by
        simp only [Call.run, World.put_cache_self]
        have undone : (world.put (toHex (sha3 data.bytes)) (some data.bytes)).put
            (toHex (sha3 data.bytes)) none = world.put (toHex (sha3 data.bytes)) none := by
          simp only [World.put, World.mk.injEq, true_and, and_true]
          funext other
          split <;> rfl
        rw [undone, World.put_none_absent absent]
      exact (Program.exec_answer _ removed).trans rfl
  · rw [insertWithHash_exec ran numbered, image, isImage]
    rw [ran] at same
    have answered : Call.run sha3 noFaults (.store (.upsert now tie mime
        (.detached (FacadeOp.spooledFile sha3 source data).len) (toHex (sha3 data.bytes))
        maxHistory)) placed = (.ok outcome, placed.withDb after) := by
      simp only [Call.run, same]
      rfl
    refine (Program.exec_answer _ answered).trans ?_
    have settled : Program.exec (Call.run sha3 noFaults)
        (storeIfImage true (toHex (sha3 data.bytes)) data.bytes) (world.withDb after) =
          ((), placed.withDb after) := by
      rw [@storeIfImage_exec sha3 (world.withDb after) _ _ dir]
      rcases taken with ⟨_, found, rfl⟩ | ⟨_, absent, rfl⟩
      · rw [if_pos (show ((placed.withDb after).cache _).isSome = true from found)]
      · rw [if_neg (show ¬ ((world.withDb after).cache _).isSome = true by
          rw [show (world.withDb after).cache _ = none from absent]
          simp)]
        rfl
    change Program.exec _ (FileCache.removeMany outcome.expiredHashes >>= fun _ =>
      (pure (Except.ok outcome.realId) : Io (Except String Int))) (placed.withDb after) = _
    simp only [settleCache, Program.exec_bind, Program.exec_pure, settled]

/-- With nothing failing, a spooled payload leads to the result, rows and cache entries it would
lead to from memory, and its spool file is gone. -/
theorem insertRoads_agree (now : Int) (tie : TieOrder) (maxHistory : UInt64)
    (small : data.bytes.length ≤ maxPayloadBytes) (dir : world.dir = true)
    (held : world.spool source = some data.bytes) :
    let memory := Program.exec (Call.run sha3 noFaults)
      (insertWithHash now tie mime data (toHex (sha3 data.bytes)) maxHistory) world
    Program.exec (Call.run sha3 noFaults)
        (insertSpooled now tie mime (FacadeOp.spooledFile sha3 source data) maxHistory) world =
      (memory.1, memory.2.putSpool source none) := by
  have len := spooledFile_len sha3 source data
  have dropped := drop_exec sha3 (FacadeOp.spooledFile sha3 source data) held
  unfold insertSpooled
  cases stored : isSkipped mime data.bytes.length with
  | true =>
      have ran : Call.run sha3 noFaults (.store (.upsert now tie mime (.record data)
          (toHex (sha3 data.bytes)) maxHistory)) world = (.ok .skipped, world) := by
        simp only [Call.run, StoreOp.run, StoreOp.program, upsertRecord, stored, if_true]
        rfl
      have memory : Program.exec (Call.run sha3 noFaults)
          (insertWithHash now tie mime data (toHex (sha3 data.bytes)) maxHistory) world =
            (.ok (-1), world) := Program.exec_answer _ ran
      rw [memory, len, if_pos stored, Program.exec_bind, dropped]
      rfl
  | false =>
      rw [len, if_neg (by rw [stored]; simp)]
      cases detachable : isDetachable mime with
      | false =>
          have read := @readSpooled_exec sha3 world data source held small
          have memory := exec_aside sha3 (insertWithHash_aside now tie mime data
            (toHex (sha3 data.bytes)) maxHistory) world source none
          rw [if_pos (show (!false) = true from rfl), Program.exec_bind]
          have inserted : Program.exec (Call.run sha3 noFaults) (insertRead now tie mime
              (FacadeOp.spooledFile sha3 source data) maxHistory) world =
              Program.exec (Call.run sha3 noFaults) (insertWithHash now tie mime data
                (toHex (sha3 data.bytes)) maxHistory) world := by
            rw [insertRead, Program.exec_bind, read]
            rfl
          have still : (Program.exec (Call.run sha3 noFaults) (insertWithHash now tie mime data
              (toHex (sha3 data.bytes)) maxHistory) world).2.spool source = some data.bytes := by
            rw [memory.2]
            exact held
          rw [inserted, Program.exec_bind,
            drop_exec sha3 (FacadeOp.spooledFile sha3 source data) still]
          rfl
      | true =>
          rw [if_neg (by simp)]
          have aside := fun adoption placed => exec_aside sha3 (upsertAdopted_aside now tie mime
            (FacadeOp.spooledFile sha3 source data) adoption maxHistory) placed source none
          have looked : Call.run sha3 noFaults (.pathExists (toHex (sha3 data.bytes))) world =
            ((world.cache (toHex (sha3 data.bytes))).isSome, world) := rfl
          refine (Program.exec_answer _ looked).trans ?_
          cases found : world.cache (toHex (sha3 data.bytes)) with
          | some file =>
              have agrees := @upsertAdopted_exec sha3 world mime data source now tie maxHistory
                .present world detachable dir stored (.inl ⟨rfl, by rw [found]; rfl, rfl⟩)
              have removed : Call.run sha3 noFaults (.removeSpool source) world =
                  (.ok (), world.putSpool source none) := by
                simp only [Call.run, held]
              refine (Program.exec_answer _ removed).trans ?_
              change Program.exec _ (upsertAdopted now tie mime _ .present maxHistory) _ = _
              rw [(aside .present world).1, agrees]
          | none =>
              have agrees := @upsertAdopted_exec sha3 world mime data source now tie maxHistory
                .placed _ detachable dir stored (.inr ⟨rfl, found, rfl⟩)
              have renamed : Call.run sha3 noFaults (.rename source (toHex (sha3 data.bytes)))
                  world = (.ok (), (world.put (toHex (sha3 data.bytes))
                    (some data.bytes)).putSpool source none) := by
                simp only [Call.run, held]
                rw [if_pos dir]
              refine (Program.exec_answer _ renamed).trans ?_
              change Program.exec _ (upsertAdopted now tie mime _ .placed maxHistory) _ = _
              rw [(aside .placed _).1, agrees]

end

theorem insertRoads_agree_sample :
    let memory := Program.exec (Call.run sampleSha3 noFaults)
      (insertWithHash 1000 .byRowid "image/png".toList ⟨sampleImage, by decide⟩
        (toHex (sampleSha3 sampleImage)) 256) (World.empty.putSpool 1 (some sampleImage))
    Program.exec (Call.run sampleSha3 noFaults)
        (insertSpooled 1000 .byRowid "image/png".toList
          (FacadeOp.spooledFile sampleSha3 1 ⟨sampleImage, by decide⟩) 256)
        (World.empty.putSpool 1 (some sampleImage)) =
      (memory.1, memory.2.putSpool 1 none) :=
  insertRoads_agree 1000 .byRowid 256 (by decide) rfl rfl

def Call.unlinks : Call → Bool
  | .remove _ | .removeSpool _ => true
  | _ => false

def Copied (fails : Call → World → IoFailure → Prop) (hash : Str) (data file : Bytes) : Prop :=
  file = data ∨ (file <+: data ∧ ∃ world failure, fails (.write hash data) world failure)

structure Stored (fails : Call → World → IoFailure → Prop) (hash : Str) (data : Bytes)
    (before : World) (result : Except String Int) (after : World) : Prop where
  kept : ∀ name file, before.cache name = some file → after.cache name = some file ∨
    (after.cache name = none ∧ (∃ id, result = .ok id) ∧
      ∀ row ∈ after.db.clipboard, row.hash ≠ some name)
  added : ∀ name file, after.cache name = some file → before.cache name = some file ∨
    (name = hash ∧ before.cache name = none ∧ Copied fails hash data file)
  undone : ∀ message, result = .error message → after.db = before.db ∧ after.cache = before.cache

section
variable {sha3 : Bytes → Bytes} {fails : Call → World → IoFailure → Prop} {world after : World}
  {hash : Str} {data : Bytes} {source : SpoolPath}

theorem putPartial_cases {failure : IoFailure} :
    world.putPartial hash data failure = world ∨
      ∃ file, file <+: data ∧ world.putPartial hash data failure = world.put hash (some file) := by
  unfold World.putPartial
  split
  · rename_i count _
    split
    · exact .inr ⟨data.take count, List.take_prefix count data, rfl⟩
    · exact .inl rfl
  · exact .inl rfl

theorem Call.May.writeCases {answer : Except String Unit}
    (may : (Call.write hash data).May sha3 fails world answer after) :
    after = world ∨ ∃ file, Copied fails hash data file ∧ after = world.put hash (some file) := by
  rcases may with ⟨_, ran⟩ | ⟨failure, allowed, failed⟩
  · rcases Call.run_write ran with ⟨-, same⟩ | ⟨-, same⟩
    · exact .inr ⟨data, .inl rfl, same⟩
    · exact .inl same
  · cases failed
    rcases @putPartial_cases world hash data failure with same | ⟨file, part, same⟩
    · exact .inl same
    · exact .inr ⟨file, .inr ⟨part, world, failure, allowed⟩, same⟩

theorem Call.May.renameCases {answer : Except String Unit}
    (may : (Call.rename source hash).May sha3 fails world answer after) :
    (answer = .ok () ∧ ∃ data, world.spool source = some data ∧
        after = (world.put hash (some data)).putSpool source none) ∨
      (∃ message, answer = .error message) ∧ after = world := by
  rcases may with ⟨_, ran⟩ | ⟨failure, _, failed⟩
  · exact Call.run_rename ran
  · cases failed
    exact .inr ⟨⟨_, rfl⟩, rfl⟩

theorem Call.May.copyCases {answer : Except String Unit}
    (may : (Call.copy source hash).May sha3 fails world answer after) :
    (answer = .ok () ∧ ∃ data, world.spool source = some data ∧
        after = world.put hash (some data)) ∨
      (∃ message, answer = .error message) ∧ after.db = world.db ∧ after.spool = world.spool ∧
        (after.put hash none).cache = (world.put hash none).cache := by
  rcases may with ⟨_, ran⟩ | ⟨failure, _, failed⟩
  · rcases Call.run_copy ran with copied | ⟨message, rfl⟩
    · exact .inl copied
    · exact .inr ⟨message, rfl, rfl, rfl⟩
  · rw [Call.failed] at failed
    split at failed
    · rename_i data held
      cases failed
      refine .inr ⟨⟨_, rfl⟩, World.putPartial_db _ _ _, ?_, ?_⟩
      · rcases @putPartial_cases world hash data failure with same | ⟨file, _, same⟩
        · rw [same]
        · rw [same]
          rfl
      · rw [World.putPartial_undone]
    · cases failed
      exact .inr ⟨⟨_, rfl⟩, rfl, rfl, rfl⟩

theorem Call.May.openCases {answer : Except String Bytes}
    (may : (Call.openSpool source).May sha3 fails world answer after) :
    (∀ data, answer = .ok data → world.spool source = some data) ∧ after = world := by
  rcases may with ⟨_, ran⟩ | ⟨_, _, failed⟩
  · exact Call.run_openSpool ran
  · cases failed
    refine ⟨fun found same => ?_, rfl⟩
    cases same

theorem Call.May.unlinked {answer : Except String Unit}
    (may : (Call.removeSpool source).May sha3 fails world answer after)
    (unlinks : ∀ failure, ¬ fails (.removeSpool source) world failure) :
    after.spool source = none ∧ SameFiles world after := by
  refine ⟨?_, may.removeSpool⟩
  rcases may with ⟨_, ran⟩ | ⟨failure, allowed, _⟩
  · rcases Call.run_removeSpool ran with rfl | ⟨absent, rfl⟩
    · exact World.putSpool_spool_self world source none
    · exact absent
  · exact absurd allowed (unlinks failure)

abbrev Always {α : Type} (sha3 : Bytes → Bytes) (fails : Call → World → IoFailure → Prop)
    (post : α → World → Prop) (program : Io α) (world : World) : Prop :=
  program.Ensures (Call.May sha3 fails) (fun _ => True) post world

theorem removeMany_always (unlinks : ∀ call world failure, call.unlinks = true →
      ¬ fails call world failure) (hashes : List Str) :
    Always sha3 fails (fun _ after => after.db = world.db ∧ after.spool = world.spool ∧
        ∀ name, after.cache name = world.cache name ∨ (name ∈ hashes ∧ after.cache name = none))
      (FileCache.removeMany hashes) world := by
  induction hashes generalizing world with
  | nil => exact ⟨rfl, rfl, fun _ => .inl rfl⟩
  | cons hash rest ih =>
      intro answer middle may
      obtain rfl := may.remove (unlinks _ world · rfl)
      refine ⟨trivial, ih.mono ?_⟩
      rintro _ after ⟨db, spool, entries⟩
      refine ⟨db, spool, fun name => ?_⟩
      rcases entries name with same | ⟨member, gone⟩
      · by_cases removed : name = hash
        · rw [removed, World.put_cache_self] at same
          exact .inr ⟨by simp [removed], by rw [removed]; exact same⟩
        · rw [World.put_cache_of_ne _ _ removed] at same
          exact .inl same
      · exact .inr ⟨List.mem_cons_of_mem _ member, gone⟩

theorem storeIfImage_always (isImage : Bool) (hash : Str) (data : Bytes) :
    Always sha3 fails (fun _ after => after = world ∨ (world.cache hash = none ∧
        ∃ file, Copied fails hash data file ∧ after = world.put hash (some file)))
      (storeIfImage isImage hash data) world := by
  cases isImage with
  | false => exact .inl rfl
  | true =>
      intro answer middle may
      obtain ⟨rfl, rfl⟩ := may.pathExists
      refine ⟨trivial, ?_⟩
      cases found : middle.cache hash with
      | some file => exact .inl rfl
      | none =>
          intro answer after may
          refine ⟨trivial, ?_⟩
          rcases may.writeCases with rfl | written
          · exact .inl rfl
          · exact .inr ⟨rfl, written⟩

theorem insertWithHash_always (unlinks : ∀ call world failure, call.unlinks = true →
      ¬ fails call world failure) (now : Int) (tie : TieOrder) (mime : Str) (slice : Slice)
    (hash : Str) (maxHistory : UInt64) :
    Always sha3 fails (fun result after => after.spool = world.spool ∧
        Stored fails hash slice.bytes world result after)
      (insertWithHash now tie mime slice hash maxHistory) world := by
  have idle : ∀ id, Stored fails hash slice.bytes world (.ok id) world := by
    intro id
    refine ⟨fun _ _ => .inl, fun _ _ => .inl, nofun⟩
  intro answer middle may
  obtain ⟨db, effect, rfl⟩ := may.store
  refine ⟨trivial, ?_⟩
  simp only [StoreOp.Effect, UpsertEffect] at effect
  split at effect
  · obtain ⟨rfl, rfl⟩ := effect
    exact ⟨rfl, idle _⟩
  · rcases effect with ⟨message, rfl, rfl⟩ | ⟨outcome, rfl, upserted⟩
    · exact ⟨rfl, fun _ _ => .inl, fun _ _ => .inl, fun _ _ => ⟨rfl, rfl⟩⟩
    · change Always sha3 fails _ (if outcome.realId = -1 then _ else _) _
      have positive := upserted.realId_pos
      rw [if_neg (by omega)]
      apply Program.Ensures.bind
      refine (storeIfImage_always outcome.isImage hash slice.bytes).mono ?_
      intro _ stored placed
      apply Program.Ensures.bind
      refine (removeMany_always unlinks outcome.expiredHashes).mono ?_
      rintro _ last ⟨sameDb, sameSpool, entries⟩
      have gone : ∀ name, name ∈ outcome.expiredHashes →
          ∀ row ∈ last.db.clipboard, row.hash ≠ some name := by
        intro name listed row member
        rw [sameDb] at member
        rcases placed with rfl | ⟨_, file, _, rfl⟩
        · exact upserted.expired_gone listed row member
        · exact upserted.expired_gone listed row member
      refine ⟨?_, ?_, ?_, ?_⟩
      · rw [sameSpool]
        rcases placed with rfl | ⟨_, file, _, rfl⟩ <;> rfl
      · intro name file found
        have before : stored.cache name = some file := by
          rcases placed with rfl | ⟨absent, other, _, rfl⟩
          · exact found
          · have differs : name ≠ hash := by
              rintro rfl
              rw [show (world.withDb db).cache name = world.cache name from rfl, found] at absent
              cases absent
            rw [World.put_cache_of_ne _ _ differs]
            exact found
        rcases entries name with same | ⟨listed, removed⟩
        · exact .inl (same.trans before)
        · exact .inr ⟨removed, ⟨_, rfl⟩, gone name listed⟩
      · intro name file found
        have before : stored.cache name = some file := by
          rcases entries name with same | ⟨_, removed⟩
          · rw [← same]
            exact found
          · rw [removed] at found
            cases found
        rcases placed with rfl | ⟨absent, other, copied, rfl⟩
        · exact .inl before
        · by_cases named : name = hash
          · rw [named, World.put_cache_self] at before
            cases before
            exact .inr ⟨named, named ▸ absent, copied⟩
          · rw [World.put_cache_of_ne _ _ named] at before
            exact .inl before
      · intro _ failed
        cases failed

theorem readSpooled_always (spooled : SpooledFile) :
    Always sha3 fails (fun result after => after = world ∧ ∀ slice, result = .ok slice →
        world.spool spooled.path = some slice.bytes) (readSpooled spooled) world := by
  unfold readSpooled
  split
  · intro answer middle may
    obtain ⟨held, rfl⟩ := may.openCases
    refine ⟨trivial, ?_⟩
    cases answer with
    | error message =>
        refine ⟨rfl, fun slice checked => ?_⟩
        cases checked
    | ok handle =>
        intro got after may
        obtain ⟨read, rfl⟩ := may.readHandle
        refine ⟨trivial, ?_⟩
        rcases read with rfl | ⟨message, rfl⟩
        · refine ⟨rfl, fun slice checked => ?_⟩
          obtain ⟨exact, same⟩ := checkSpooled_ok checked
          have whole : handle.take (spooled.len.toNat + 1) = handle := by
            rw [List.length_take] at exact
            exact List.take_of_length_le (by omega)
          rw [held handle rfl, same, whole]
        · refine ⟨rfl, fun slice checked => ?_⟩
          cases checked
  · refine ⟨rfl, fun slice checked => ?_⟩
    cases checked

theorem drop_always (unlinks : ∀ call world failure, call.unlinks = true →
      ¬ fails call world failure) (spooled : SpooledFile) :
    Always sha3 fails (fun _ after => after.spool spooled.path = none ∧ SameFiles world after)
      spooled.drop world := by
  intro answer after may
  exact ⟨trivial, may.unlinked (unlinks _ world · rfl)⟩

theorem adopt_always (unlinks : ∀ call world failure, call.unlinks = true →
      ¬ fails call world failure) (hash : Str) (source : SpoolPath) :
    Always sha3 fails (fun result after => after.db = world.db ∧
        match result with
        | .error _ => after.cache = world.cache
        | .ok .present => after.cache = world.cache
        | .ok .placed => after.spool source = none ∧ world.cache hash = none ∧
            ∃ data, world.spool source = some data ∧
              after.cache = (world.put hash (some data)).cache)
      (FileCache.adopt hash source) world := by
  intro present middle may
  obtain ⟨rfl, rfl⟩ := may.pathExists
  refine ⟨trivial, ?_⟩
  cases found : middle.cache hash with
  | some file => exact ⟨rfl, rfl⟩
  | none =>
      intro renamed moved may
      refine ⟨trivial, ?_⟩
      rcases may.renameCases with ⟨rfl, data, held, rfl⟩ | ⟨⟨message, rfl⟩, rfl⟩
      · exact ⟨rfl, World.putSpool_spool_self _ _ _, rfl, data, held, rfl⟩
      · intro copied last may
        refine ⟨trivial, ?_⟩
        rcases may.copyCases with ⟨rfl, data, held, rfl⟩ | ⟨⟨message, rfl⟩, db, _, undone⟩
        · intro unlinked after may
          obtain ⟨gone, same⟩ := may.unlinked (unlinks _ _ · rfl)
          exact ⟨trivial, same.db, gone, rfl, data, held, same.cache⟩
        · intro removed after may
          obtain rfl := may.remove (unlinks _ last · rfl)
          refine ⟨trivial, db, ?_⟩
          change (last.put hash none).cache = moved.cache
          rw [undone, World.put_none_absent found]

theorem upsertAdopted_always (unlinks : ∀ call world failure, call.unlinks = true →
      ¬ fails call world failure) (now : Int) (tie : TieOrder) (mime : Str)
    (spooled : SpooledFile) (adoption : FileCache.Adoption) (maxHistory : UInt64)
    (stored : isSkipped mime spooled.len.toNat = false) :
    Always sha3 fails (fun result after => after.spool = world.spool ∧
        match result with
        | .error _ => after.db = world.db ∧ after.cache =
            if adoption = .placed then (world.put spooled.hexDigest none).cache else world.cache
        | .ok _ => ∀ name, after.cache name = world.cache name ∨
            (after.cache name = none ∧ ∀ row ∈ after.db.clipboard, row.hash ≠ some name))
      (upsertAdopted now tie mime spooled adoption maxHistory) world := by
  intro answer middle may
  obtain ⟨db, effect, rfl⟩ := may.store
  refine ⟨trivial, ?_⟩
  simp only [StoreOp.Effect, UpsertEffect, Offer.body, Body.len, stored, Bool.false_eq_true,
    if_false] at effect
  rcases effect with ⟨message, rfl, rfl⟩ | ⟨outcome, rfl, upserted⟩
  · cases adoption with
    | present => exact ⟨rfl, rfl, rfl⟩
    | placed =>
        intro removed after may
        obtain rfl := may.remove (unlinks _ _ · rfl)
        exact ⟨trivial, rfl, rfl, rfl⟩
  · change Always sha3 fails _ (FileCache.removeMany outcome.expiredHashes >>= fun _ =>
      (pure (Except.ok outcome.realId) : Io (Except String Int))) (world.withDb db)
    apply Program.Ensures.bind
    refine (removeMany_always unlinks outcome.expiredHashes).mono ?_
    rintro _ after ⟨sameDb, sameSpool, entries⟩
    refine ⟨sameSpool, fun name => ?_⟩
    rcases entries name with same | ⟨listed, gone⟩
    · exact .inl same
    · refine .inr ⟨gone, fun row member => ?_⟩
      rw [sameDb] at member
      exact upserted.expired_gone listed row member

end

structure Consumed (fails : Call → World → IoFailure → Prop) (spooled : SpooledFile)
    (before : World) (result : Except String Int) (after : World) : Prop where
  gone : after.spool spooled.path = none
  kept : ∀ name file, before.cache name = some file → after.cache name = some file ∨
    (after.cache name = none ∧ (∃ id, result = .ok id) ∧
      ∀ row ∈ after.db.clipboard, row.hash ≠ some name)
  added : ∀ name file, after.cache name = some file → before.cache name = some file ∨
    (name = spooled.hexDigest ∧ before.cache name = none ∧
      ∃ data, before.spool spooled.path = some data ∧ Copied fails spooled.hexDigest data file)
  undone : ∀ message, result = .error message → after.db = before.db ∧ after.cache = before.cache

section
variable {sha3 : Bytes → Bytes} {fails : Call → World → IoFailure → Prop} {world after : World}
  {spooled : SpooledFile}

theorem Consumed.untouched (gone : after.spool spooled.path = none) (db : after.db = world.db)
    (cache : after.cache = world.cache) (result : Except String Int) :
    Consumed fails spooled world result after where
  gone := gone
  kept name file found := .inl (by rw [cache]; exact found)
  added name file found := .inl (by rw [← cache]; exact found)
  undone _ _ := ⟨db, cache⟩

theorem insertRead_consumes (unlinks : ∀ call world failure, call.unlinks = true →
      ¬ fails call world failure) (now : Int) (tie : TieOrder) (mime : Str)
    (maxHistory : UInt64) :
    Always sha3 fails (Consumed fails spooled world) (do
      let result ← insertRead now tie mime spooled maxHistory
      spooled.drop
      pure result) world := by
  have dropped : ∀ result middle, middle.db = world.db → middle.cache = world.cache →
      Always sha3 fails (Consumed fails spooled world) (do
        spooled.drop
        pure result) middle := by
    intro result middle db cache
    apply Program.Ensures.bind
    refine (drop_always unlinks spooled).mono ?_
    rintro _ after ⟨gone, same⟩
    exact .untouched gone (same.db.trans db) (same.cache.trans cache) result
  apply Program.Ensures.bind
  apply Program.Ensures.bind
  refine (readSpooled_always spooled).mono ?_
  rintro (message | slice) middle ⟨rfl, held⟩
  · exact dropped _ _ rfl rfl
  · refine (insertWithHash_always unlinks now tie mime slice spooled.hexDigest maxHistory).mono ?_
    rintro result stored ⟨_, stores⟩
    apply Program.Ensures.bind
    refine (drop_always unlinks spooled).mono ?_
    rintro _ after ⟨gone, same⟩
    refine ⟨gone, ?_, ?_, ?_⟩
    · rw [same.cache, same.db]
      exact stores.kept
    · intro name file found
      rw [same.cache] at found
      exact (stores.added name file found).imp_right fun ⟨named, absent, copied⟩ =>
        ⟨named, absent, slice.bytes, held slice rfl, copied⟩
    · intro message failed
      rw [same.db, same.cache]
      exact stores.undone message failed

theorem insertAdopted_consumes (unlinks : ∀ call world failure, call.unlinks = true →
      ¬ fails call world failure) (now : Int) (tie : TieOrder) (mime : Str)
    (maxHistory : UInt64) (stored : isSkipped mime spooled.len.toNat = false) :
    Always sha3 fails (Consumed fails spooled world)
      (insertAdopted now tie mime spooled maxHistory) world := by
  apply Program.Ensures.bind
  refine (adopt_always unlinks spooled.hexDigest spooled.path).mono ?_
  rintro (message | adoption) placed ⟨db, adopted⟩
  · apply Program.Ensures.bind
    refine (drop_always unlinks spooled).mono ?_
    rintro _ after ⟨gone, same⟩
    exact .untouched gone (same.db.trans db) (same.cache.trans adopted) _
  · cases adoption with
    | present =>
        apply Program.Ensures.bind
        refine (drop_always unlinks spooled).mono ?_
        rintro _ middle ⟨gone, same⟩
        have cache : middle.cache = world.cache := same.cache.trans adopted
        refine (upsertAdopted_always unlinks now tie mime spooled .present maxHistory stored).mono ?_
        rintro (message | id) after ⟨spool, outcome⟩
        · refine .untouched (by rw [spool]; exact gone) ?_ ?_ _
          · exact outcome.1.trans (same.db.trans db)
          · exact outcome.2.trans cache
        · rw [cache] at outcome
          refine ⟨by rw [spool]; exact gone, fun name file found => ?_, fun name file found => ?_,
            nofun⟩
          · rcases outcome name with kept | ⟨removed, rowless⟩
            · exact .inl (kept.trans found)
            · exact .inr ⟨removed, ⟨id, rfl⟩, rowless⟩
          · rcases outcome name with kept | ⟨removed, _⟩
            · exact .inl (kept.symm.trans found)
            · rw [removed] at found
              cases found
    | placed =>
        obtain ⟨gone, absent, data, held, cache⟩ := adopted
        refine (upsertAdopted_always unlinks now tie mime spooled .placed maxHistory stored).mono ?_
        rintro (message | id) after ⟨spool, outcome⟩
        · refine .untouched (by rw [spool]; exact gone) (outcome.1.trans db) ?_ _
          rw [outcome.2, if_pos rfl]
          funext name
          by_cases named : name = spooled.hexDigest
          · rw [named, World.put_cache_self, absent]
          · rw [World.put_cache_of_ne _ _ named, cache, World.put_cache_of_ne _ _ named]
        · rw [cache] at outcome
          refine ⟨by rw [spool]; exact gone, fun name file found => ?_, fun name file found => ?_,
            nofun⟩
          · have differs : name ≠ spooled.hexDigest := by
              rintro rfl
              rw [absent] at found
              cases found
            rcases outcome name with kept | ⟨removed, rowless⟩
            · rw [World.put_cache_of_ne _ _ differs] at kept
              exact .inl (kept.trans found)
            · exact .inr ⟨removed, ⟨id, rfl⟩, rowless⟩
          · rcases outcome name with kept | ⟨removed, _⟩
            · rw [kept] at found
              by_cases named : name = spooled.hexDigest
              · rw [named, World.put_cache_self] at found
                cases found
                exact .inr ⟨named, named ▸ absent, data, held, .inl rfl⟩
              · rw [World.put_cache_of_ne _ _ named] at found
                exact .inl found
            · rw [removed] at found
              cases found

end

def sampleJpeg : Bytes := [255, 216, 255, 224]

def sampleSpooledNext : World :=
  (Program.exec (Call.run sampleSha3 noFaults) (insertWithHash 1000 .byRowid "image/png".toList
    ⟨sampleImage, sampleImage_fits⟩ (toHex (sampleSha3 sampleImage)) 1) World.empty).2.putSpool 1
      (some sampleJpeg)

def renameRefused : Environment where
  sql _ := .none
  io _ call :=
    match call with
    | .rename .. => some { written := none, error := "Invalid cross-device link (os error 18)" }
    | _ => none

end Y4p
