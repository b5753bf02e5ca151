import Y4p.Storage.CacheFiles

/-! Whether the row an insertion returns is in the state it commits. -/

namespace Y4p

open Programs

def Call.isStore : Call → Bool
  | .store _ => true
  | _ => false

section
variable {sha3 : Bytes → Bytes} {fails : Call → World → IoFailure → Prop} {world after : World}

/-- Only transactions change rows. -/
theorem Call.May.db_eq {call : Call} {answer : call.Answer}
    (may : call.May sha3 fails world answer after) (file : call.isStore = false) :
    after.db = world.db := by
  rcases may with ⟨faults, ran⟩ | ⟨failure, _, failed⟩
  · have left : (call.run sha3 faults.hits world).2.db = world.db := by
      cases call with
      | store op => cases file
      | write hash data =>
          simp only [Call.run]
          split <;> rfl
      | rename source hash | copy source hash =>
          simp only [Call.run]
          split
          · split <;> rfl
          · rfl
      | removeSpool source | remove hash | openSpool source | removeDirAll =>
          simp only [Call.run]
          split <;> rfl
      | spool source data | pathExists hash | read hash | readHandle handle limit
      | createDirAll => rfl
    rw [ran] at left
    exact left
  · cases call with
    | copy source hash =>
        simp only [Call.failed] at failed
        split at failed
        · cases failed
          exact World.putPartial_db ..
        · cases failed
          rfl
    | write hash data =>
        cases failed
        exact World.putPartial_db ..
    | rename source hash | removeSpool source | remove hash | read hash | openSpool source
    | readHandle handle limit | createDirAll =>
        cases failed
        rfl
    | store op | spool source data | pathExists hash | removeDirAll => cases failed

theorem removeMany_issues (hashes : List Str) :
    (FileCache.removeMany hashes).Issues fun call => call.isStore = false := by
  induction hashes with
  | nil => trivial
  | cons hash rest ih => exact ⟨rfl, fun _ => ih⟩

theorem storeIfImage_issues (isImage : Bool) (hash : Str) (data : Bytes) :
    (storeIfImage isImage hash data).Issues fun call => call.isStore = false := by
  cases isImage with
  | false => trivial
  | true =>
      refine ⟨rfl, fun present => ?_⟩
      cases present with
      | true => trivial
      | false => exact ⟨rfl, fun _ => trivial⟩

theorem insertWithHash_upserted (now : Int) (tie : TieOrder) (mime : Str) (data : Slice)
    (hash : Str) (maxHistory : UInt64) :
    (insertWithHash now tie mime data hash maxHistory).Ensures (Call.May sha3 fails)
      (fun _ => True)
      (fun result after => ∀ id, result = .ok id → id ≠ -1 → ∃ outcome, outcome.realId = id ∧
        Upserted sha3 world.db now tie mime (.bytes data.bytes) hash maxHistory outcome after.db)
      world := by
  apply Program.Ensures.ask
  intro answer middle may
  obtain ⟨db, effect, rfl⟩ := may.store
  refine ⟨trivial, ?_⟩
  simp only [StoreOp.Effect, UpsertEffect] at effect
  split at effect
  · obtain ⟨rfl, rfl⟩ := effect
    intro id same real
    cases same
    exact absurd rfl real
  rcases effect with ⟨message, rfl, rfl⟩ | ⟨outcome, rfl, upserted⟩
  · exact fun id same => by cases same
  have positive := upserted.realId_pos
  change Program.Ensures _ _ _ (if outcome.realId = -1 then _ else _) _
  rw [if_neg (by omega)]
  have files : ∀ {program : Io Unit} {state : World}, state.db = db →
      (program.Issues fun call => call.isStore = false) →
      program.Ensures (Call.May sha3 fails) (fun _ => True) (fun _ after => after.db = db)
        state := by
    intro program state same issues
    exact Program.Ensures.of_issues issues
      (fun _ _ _ _ file held may => ⟨trivial, (may.db_eq file).trans held⟩) same
  apply Program.Ensures.bind
  refine (files rfl (storeIfImage_issues ..)).mono fun _ stored same => ?_
  apply Program.Ensures.bind
  refine (files same (removeMany_issues _)).mono fun _ last same => ?_
  intro id returned _
  cases returned
  rw [same]
  exact ⟨outcome, rfl, upserted⟩

end

/-- The row id a successful insertion returns names a committed row exactly if that row is
pinned, or fewer rivals than the cap are listed ahead of it. -/
theorem insert_survives_iff (sha3 : Bytes → Bytes) (now : Int) (tie : TieOrder) (mime : Str)
    (hash : Str) (maxHistory : UInt64) :
    (∀ (faults : WriteFaults) (db after : Db) (offer : Offer) (outcome : UpsertOutcome),
      (StoreOp.upsert now tie mime offer hash maxHistory).run sha3 faults.hits db =
        (.ok outcome, after) → outcome.realId ≠ -1 →
      ((∃ row ∈ after.clipboard, row.id = outcome.realId) ↔
        Survives db now tie hash maxHistory)) ∧
    ∀ (environment : Environment) (state after : World × Nat) (data : Slice) (id : Int),
      Program.exec (Call.step sha3 environment)
        (insertWithHash now tie mime data hash maxHistory) state = (.ok id, after) → id ≠ -1 →
      ((∃ row ∈ after.1.db.clipboard, row.id = id) ↔
        Survives state.1.db now tie hash maxHistory) := by
  constructor
  · intro faults db after offer outcome ran real
    have effect := (StoreOp.upsert now tie mime offer hash maxHistory).run_effect sha3 faults db
    rw [ran] at effect
    simp only [StoreOp.Effect, UpsertEffect] at effect
    split at effect
    · obtain ⟨same, rfl⟩ := effect
      cases same
      exact absurd rfl real
    · rcases effect with ⟨_, failed, _⟩ | ⟨other, ended, upserted⟩
      · cases failed
      · cases ended
        exact upserted.survives_iff
  · intro environment state after data id ran real
    have ensures := @insertWithHash_upserted sha3 (fun _ _ _ => True) state.1 now tie mime data
      hash maxHistory
    obtain ⟨_, upserts⟩ := Program.Ensures.of_run Prod.fst ensures
      fun issued _ => @Call.step_may _ _ environment _ _ fun _ _ => trivial
    rw [ran] at upserts
    obtain ⟨outcome, rfl, upserted⟩ := upserts id rfl real
    exact upserted.survives_iff

def sampleTextOp (now : Int) : FacadeOp :=
  .insertWithHash now .byRowid "text/plain".toList ⟨sampleText, sampleText_fits⟩ 1

/-- The clock went back by a millisecond: the new row is evicted in its own transaction. -/
theorem insert_survives_counterexample :
    ∃ id after,
      Program.exec (Call.step sampleSha3 .calm)
        (insertWithHash 999 .byRowid "image/png".toList ⟨sampleImage, by decide⟩
          (toHex (sampleSha3 sampleImage)) 1)
        (reached sampleSha3 .calm [sampleTextOp 1000]) = (.ok id, after) ∧
      id ≠ -1 ∧ ∀ row ∈ after.1.db.clipboard, row.id ≠ id := by
  refine ⟨2, _, rfl, by decide, ?_⟩
  intro row member same
  have only : row.id = 1 := by
    rcases List.mem_singleton.mp member with rfl
    rfl
  omega

theorem insert_survives_iff_sample :
    (∃ row ∈ (Program.exec (Call.step sampleSha3 .calm)
        (insertWithHash 1001 .byRowid "image/png".toList ⟨sampleImage, by decide⟩
          (toHex (sampleSha3 sampleImage)) 1)
        (reached sampleSha3 .calm [sampleTextOp 1000])).2.1.db.clipboard, row.id = 2) ↔
      Survives (reached sampleSha3 .calm [sampleTextOp 1000]).1.db 1001 .byRowid
        (toHex (sampleSha3 sampleImage)) 1 :=
  (insert_survives_iff sampleSha3 1001 .byRowid "image/png".toList
    (toHex (sampleSha3 sampleImage)) 1).2 .calm _ _ ⟨sampleImage, by decide⟩ 2 rfl (by decide)

end Y4p
