import Y4p.Storage.RoundTrip

/-!
Cache files between the steps of an operation, and after writes that fail part-way.
-/

namespace Y4p

open Programs

section
variable {sha3 : Bytes → Bytes} {sql : Nat → WriteFaults} {pool : Set Bytes}

theorem visits_filesComplete (noCollision : Set.InjOn sha3 pool) {ops : List FacadeOp}
    {payload : Int → Bytes} {state : World × Nat}
    (settled : Settled sha3 pool payload True state.1)
    (kept : ∀ op ∈ ops, ∀ data, op.payload = some data → Pooled pool data)
    (unexposed : ∀ before op after, ops = before ++ op :: after → ¬ op.Exposes sha3
      (Program.exec (Call.step sha3 (.reliable sql)) (session sha3 before) state).2.1.db) :
    ∀ seen ∈ Program.visits (Call.step sha3 (.reliable sql)) (session sha3 ops) state,
      FilesComplete sha3 seen.1 := by
  induction ops generalizing state payload with
  | nil => exact fun seen member => absurd member List.not_mem_nil
  | cons op rest ih =>
      obtain ⟨complete, next, settledNext, _⟩ := @FacadeOp.run sha3 pool payload True _
        (Environment.reliable sql) op tolerable_none (fun _ _ _ _ failed => failed) noCollision
        state settled (kept op List.mem_cons_self) fun issued _ failure hit => by cases hit
      intro seen member
      simp only [session, Program.visits_bind, List.mem_append] at member
      rcases member with early | late
      · exact complete trivial (unexposed [] op rest rfl) seen early
      · refine ih settledNext (fun other listed => kept other (List.mem_cons_of_mem _ listed)) ?_
          seen late
        rintro before other after rfl
        have later := unexposed (op :: before) other after rfl
        simpa only [session, Program.exec_bind] using later

end

/-- When no insertion commits a row ahead of its file, every state that a session passes
through has a complete file for every row whose content is in the cache. -/
theorem session_filesComplete (sha3 : Bytes → Bytes) (ops : List FacadeOp)
    (sql : Nat → WriteFaults) (noCollision : Set.InjOn sha3 (sessionPool ops))
    (unexposed : ∀ before op after, ops = before ++ op :: after →
      ¬ op.Exposes sha3 (reached sha3 (.reliable sql) before).1.db) :
    ∀ seen ∈ Program.visits (Call.step sha3 (.reliable sql)) (session sha3 ops) (World.empty, 0),
      FilesComplete sha3 seen.1 := by
  have start : Settled sha3 (sessionPool ops) (fun _ => []) True
      ((World.empty, 0) : World × Nat).1 := .empty
  exact visits_filesComplete noCollision start (fun op member data => sessionPool_pooled member)
    unexposed

/-- Killed after its first step, `insert_with_hash` leaves an image row without its file. -/
theorem session_filesComplete_counterexample :
    ∃ seen ∈ Program.visits (Call.step sampleSha3 (.reliable fun _ => .none))
        (session sampleSha3 [sampleImageOp 1000]) (World.empty, 0),
      ¬ FilesComplete sampleSha3 seen.1 := by
  refine ⟨_, List.mem_cons_self, fun complete => ?_⟩
  obtain ⟨hash, file, _, found, _⟩ := complete _ List.mem_cons_self ⟨rfl, rfl⟩
  cases found

def sampleSpooledOp (now : Int) : FacadeOp :=
  .insertSpooled now .byRowid "image/png".toList 1 ⟨sampleImage, sampleImage_fits⟩ 256

theorem session_filesComplete_sample :
    (Program.visits (Call.step sampleSha3 (.reliable fun _ => .none))
        (session sampleSha3 [sampleSpooledOp 1000]) (World.empty, 0)).Forall
      fun seen => FilesComplete sampleSha3 seen.1 := by
  refine List.forall_iff_forall_mem.mpr
    (session_filesComplete sampleSha3 _ (fun _ => .none) sampleSha3_injective.injOn ?_)
  intro before op after shape exposes
  rcases List.cons_eq_append_iff.mp shape with ⟨rfl, same⟩ | ⟨rest, _, same⟩
  · injection same with same
    subst same
    exact absurd exposes.1 (by decide)
  · simp at same

def SparesRows (sha3 : Bytes → Bytes) (environment : Environment) (ops : List FacadeOp) : Prop :=
  ∀ issued ∈ Program.trace (Call.step sha3 environment) (session sha3 ops) (World.empty, 0),
    ∀ hash data failure, issued.1 = .write hash data →
      environment.io issued.2.2 issued.1 = some failure → failure.Truncates data →
      Unused hash issued.2.1

/-- Whatever a session of failing writes, renames and copies later serves for a row has the
digest that is the row's hash, unless a write was cut short under a row of that hash. -/
theorem session_servesPayload (sha3 : Bytes → Bytes) (environment : Environment)
    (ops : List FacadeOp) (noCollision : Set.InjOn sha3 (sessionPool ops))
    (placing : ∀ issued call failure, environment.io issued call = some failure → call.Places)
    (spares : SparesRows sha3 environment ops) (id : Int) (mime : Str) (bytes : Bytes)
    (served : (Program.exec (Call.step sha3 environment) (getContentById id)
      (reached sha3 environment ops)).1 = some (mime, bytes)) :
    ∃ row ∈ (reached sha3 environment ops).1.db.clipboard,
      row.id = id ∧ row.hash = some (toHex (sha3 bytes)) := by
  let fails : Call → World → IoFailure → Prop := fun call world failure =>
    call.Places ∧ ∀ hash data, call = .write hash data → failure.Truncates data → Unused hash world
  have tolerable : Tolerable fails :=
    ⟨fun _ _ _ allowed => allowed.1, fun hash data _ _ allowed => allowed.2 hash data rfl⟩
  have start : Settled sha3 (sessionPool ops) (fun _ => []) False
      ((World.empty, 0) : World × Nat).1 := .empty
  obtain ⟨payload, settled, _⟩ := @session_settled sha3 _ _ False fails environment tolerable
    False.elim noCollision ops _ start (fun op member data => sessionPool_pooled member)
    fun issued member failure hit => ⟨placing _ _ _ hit, fun hash data same truncates =>
      spares issued member hash data failure same hit truncates⟩
  have ensures := @getContentById_ensures sha3 _ payload False _ (fun call _ _ => call.Places)
    (fun _ => True) noCollision settled id trivial
  obtain ⟨_, _, read⟩ := Program.Ensures.of_run Prod.fst ensures
    fun issued _ => Call.step_may fun failure hit => placing _ _ _ hit
  obtain ⟨row, member, named, same⟩ := read mime bytes served
  refine ⟨row, member, named, ?_⟩
  rw [same]
  exact settled.recorded.keyed row member

-- The cache is full: the third call of the session, the write, stores one byte.
def diskFull : Environment where
  sql _ := .none
  io issued _ := if issued = 2 then some ⟨some 1, "No space left on device (os error 28)"⟩ else none

/-- The error is discarded, and the truncated image is served as the row's content. -/
theorem session_servesPayload_counterexample :
    ∃ mime bytes,
      (Program.exec (Call.step sampleSha3 diskFull) (getContentById 1)
        (reached sampleSha3 diskFull [sampleImageOp 1000])).1 = some (mime, bytes) ∧
      ¬ ∃ row ∈ (reached sampleSha3 diskFull [sampleImageOp 1000]).1.db.clipboard,
        row.id = 1 ∧ row.hash = some (toHex (sampleSha3 bytes)) := by
  refine ⟨"image/png".toList, [137], rfl, ?_⟩
  rintro ⟨row, member, _, named⟩
  have only : row.hash = some (toHex (sampleSha3 sampleImage)) := by
    rcases List.mem_singleton.mp member with rfl
    rfl
  rw [only] at named
  have equal := sampleSha3_injective (toHex_injective (Option.some.inj named))
  exact absurd equal (by decide)

-- Renames are refused and copies stop after one byte.
def crossDevice : Environment where
  sql _ := .none
  io _ call :=
    match call with
    | .rename .. | .copy .. => some ⟨some 1, "Invalid cross-device link (os error 18)"⟩
    | _ => none

theorem session_servesPayload_sample :
    ∃ row ∈ (reached sampleSha3 crossDevice
        [sampleSpooledOp 1000, sampleImageOp 1001, sampleSpooledOp 1002]).1.db.clipboard,
      row.id = 1 ∧ row.hash = some (toHex (sampleSha3 sampleImage)) := by
  refine session_servesPayload sampleSha3 crossDevice _ sampleSha3_injective.injOn ?_ ?_ 1
    "image/png".toList sampleImage rfl
  · intro issued call failure hit
    cases call <;> first | exact trivial | cases hit
  · intro issued _ hash data failure same hit
    rw [same] at hit
    cases hit

end Y4p
