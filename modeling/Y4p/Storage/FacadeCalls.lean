import Y4p.Storage.Correspondence

/-!
What each call may answer and leave behind, and what the pieces of the facade
ensure of rows and files from one call to the next.
-/

namespace Y4p

open Programs

-- `fails call world failure`: this failure of the call may happen in this world.
def Call.May (sha3 : Bytes → Bytes) (fails : Call → World → IoFailure → Prop) (call : Call)
    (world : World) (answer : call.Answer) (after : World) : Prop :=
  (∃ faults : WriteFaults, call.run sha3 faults.hits world = (answer, after)) ∨
    ∃ failure, fails call world failure ∧ call.failed failure world = some (answer, after)

theorem Call.step_may {sha3 : Bytes → Bytes} {fails : Call → World → IoFailure → Prop}
    {environment : Environment} {call : Call} {state : World × Nat}
    (allowed : ∀ failure, environment.io state.2 call = some failure →
      fails call state.1 failure) :
    call.May sha3 fails state.1 (call.step sha3 environment state).1
      (call.step sha3 environment state).2.1 := by
  unfold Call.step
  cases hit : environment.io state.2 call with
  | none => exact .inl ⟨environment.sql state.2, rfl⟩
  | some failure =>
      simp only [Option.bind_some]
      cases failed : call.failed failure state.1 with
      | none => exact .inl ⟨environment.sql state.2, rfl⟩
      | some ended => exact .inr ⟨failure, allowed failure hit, failed⟩

structure SameFiles (world after : World) : Prop where
  db : after.db = world.db
  cache : after.cache = world.cache
  dir : after.dir = world.dir

theorem SameFiles.refl (world : World) : SameFiles world world :=
  ⟨rfl, rfl, rfl⟩

theorem World.put_none_absent {world : World} {hash : Str} (absent : world.cache hash = none) :
    world.put hash none = world := by
  have same : (world.put hash none).cache = world.cache := by
    funext other
    by_cases equal : other = hash
    · rw [equal, World.put_cache_self, absent]
    · exact World.put_cache_of_ne _ _ equal
  change { world with cache := (world.put hash none).cache } = world
  rw [same]

section
variable {sha3 : Bytes → Bytes} {faults : Faults} {world after : World} {source : SpoolPath}
  {hash : Str} {data : Bytes}

theorem Call.run_write {answer : Except String Unit}
    (ran : (Call.write hash data).run sha3 faults world = (answer, after)) :
    (answer = .ok () ∧ after = world.put hash (some data)) ∨
      (∃ message, answer = .error message) ∧ after = world := by
  rw [Call.run] at ran
  split at ran
  · cases ran
    exact .inl ⟨rfl, rfl⟩
  · cases ran
    exact .inr ⟨⟨_, rfl⟩, rfl⟩

theorem Call.run_rename {answer : Except String Unit}
    (ran : (Call.rename source hash).run sha3 faults world = (answer, after)) :
    (answer = .ok () ∧ ∃ data, world.spool source = some data ∧
        after = (world.put hash (some data)).putSpool source none) ∨
      (∃ message, answer = .error message) ∧ after = world := by
  rw [Call.run] at ran
  split at ran
  · rename_i data held
    split at ran
    · cases ran
      exact .inl ⟨rfl, data, held, rfl⟩
    · cases ran
      exact .inr ⟨⟨_, rfl⟩, rfl⟩
  · cases ran
    exact .inr ⟨⟨_, rfl⟩, rfl⟩

theorem Call.run_copy {answer : Except String Unit}
    (ran : (Call.copy source hash).run sha3 faults world = (answer, after)) :
    (answer = .ok () ∧ ∃ data, world.spool source = some data ∧
        after = world.put hash (some data)) ∨
      (∃ message, answer = .error message) ∧ after = world := by
  rw [Call.run] at ran
  split at ran
  · rename_i data held
    split at ran
    · cases ran
      exact .inl ⟨rfl, data, held, rfl⟩
    · cases ran
      exact .inr ⟨⟨_, rfl⟩, rfl⟩
  · cases ran
    exact .inr ⟨⟨_, rfl⟩, rfl⟩

theorem Call.run_openSpool {answer : Except String Bytes}
    (ran : (Call.openSpool source).run sha3 faults world = (answer, after)) :
    (∀ data, answer = .ok data → world.spool source = some data) ∧ after = world := by
  rw [Call.run] at ran
  split at ran
  · rename_i data held
    cases ran
    refine ⟨fun found same => ?_, rfl⟩
    cases same
    exact held
  · cases ran
    exact ⟨fun found same => (nomatch same), rfl⟩

theorem Call.run_removeSpool {answer : Except String Unit}
    (ran : (Call.removeSpool source).run sha3 faults world = (answer, after)) :
    after = world.putSpool source none ∨ world.spool source = none ∧ after = world := by
  rw [Call.run] at ran
  split at ran
  · cases ran
    exact .inl rfl
  · rename_i absent
    cases ran
    exact .inr ⟨absent, rfl⟩

end

section
variable {sha3 : Bytes → Bytes} {fails : Call → World → IoFailure → Prop} {world after : World}

theorem Call.May.store {op : StoreOp} {answer : op.Result}
    (may : (Call.store op).May sha3 fails world answer after) :
    ∃ db, op.Effect sha3 world.db answer db ∧ after = world.withDb db := by
  rcases may with ⟨faults, ran⟩ | ⟨failure, _, failed⟩
  · have effect := op.run_effect sha3 faults world.db
    cases ran
    exact ⟨_, effect, rfl⟩
  · cases failed

theorem Call.May.spool {source : SpoolPath} {data : Bytes} {answer : Unit}
    (may : (Call.spool source data).May sha3 fails world answer after) :
    after = world.putSpool source (some data) := by
  rcases may with ⟨_, ran⟩ | ⟨_, _, failed⟩
  · cases ran
    rfl
  · cases failed

theorem Call.May.pathExists {hash : Str} {answer : Bool}
    (may : (Call.pathExists hash).May sha3 fails world answer after) :
    answer = (world.cache hash).isSome ∧ after = world := by
  rcases may with ⟨_, ran⟩ | ⟨_, _, failed⟩
  · cases ran
    exact ⟨rfl, rfl⟩
  · cases failed

theorem Call.May.write {hash : Str} {data : Bytes} {answer : Except String Unit}
    (may : (Call.write hash data).May sha3 fails world answer after) (dir : world.dir = true) :
    after = world.put hash (some data) ∨
      ∃ failure, fails (.write hash data) world failure ∧
        after = world.putPartial hash data failure := by
  rcases may with ⟨_, ran⟩ | ⟨failure, allowed, failed⟩
  · rw [Call.run, if_pos dir] at ran
    cases ran
    exact .inl rfl
  · cases failed
    exact .inr ⟨failure, allowed, rfl⟩

theorem Call.May.rename {source : SpoolPath} {hash : Str} {answer : Except String Unit}
    {data : Bytes} (may : (Call.rename source hash).May sha3 fails world answer after)
    (dir : world.dir = true) (spooled : world.spool source = some data) :
    (answer = .ok () ∧ after = (world.put hash (some data)).putSpool source none) ∨
      ∃ failure message, fails (.rename source hash) world failure ∧ answer = .error message ∧
        after = world := by
  rcases may with ⟨_, ran⟩ | ⟨failure, allowed, failed⟩
  · simp only [Call.run, spooled] at ran
    rw [if_pos dir] at ran
    cases ran
    exact .inl ⟨rfl, rfl⟩
  · cases failed
    exact .inr ⟨failure, _, allowed, rfl, rfl⟩

theorem Call.May.copy {source : SpoolPath} {hash : Str} {answer : Except String Unit}
    {data : Bytes} (may : (Call.copy source hash).May sha3 fails world answer after)
    (dir : world.dir = true) (spooled : world.spool source = some data) :
    (answer = .ok () ∧ after = world.put hash (some data)) ∨
      ∃ failure message, fails (.copy source hash) world failure ∧ answer = .error message ∧
        after = world.putPartial hash data failure := by
  rcases may with ⟨_, ran⟩ | ⟨failure, allowed, failed⟩
  · simp only [Call.run, spooled] at ran
    rw [if_pos dir] at ran
    cases ran
    exact .inl ⟨rfl, rfl⟩
  · simp only [Call.failed, spooled] at failed
    cases failed
    exact .inr ⟨failure, _, allowed, rfl, rfl⟩

theorem Call.May.removeSpool {source : SpoolPath} {answer : Except String Unit}
    (may : (Call.removeSpool source).May sha3 fails world answer after) :
    SameFiles world after := by
  rcases may with ⟨_, ran⟩ | ⟨_, _, failed⟩
  · rcases Call.run_removeSpool ran with rfl | ⟨-, rfl⟩
    · exact ⟨rfl, rfl, rfl⟩
    · exact .refl after
  · cases failed
    exact .refl world

theorem Call.May.remove {hash : Str} {answer : Except String Unit}
    (may : (Call.remove hash).May sha3 fails world answer after)
    (unlinks : ∀ failure, ¬ fails (.remove hash) world failure) :
    after = world.put hash none := by
  rcases may with ⟨_, ran⟩ | ⟨failure, allowed, _⟩
  · cases found : world.cache hash with
    | none =>
        simp only [Call.run, found] at ran
        cases ran
        exact (World.put_none_absent found).symm
    | some file =>
        simp only [Call.run, found] at ran
        cases ran
        rfl
  · exact absurd allowed (unlinks failure)

theorem Call.May.read {hash : Str} {answer : Option Bytes}
    (may : (Call.read hash).May sha3 fails world answer after) :
    (answer = world.cache hash ∨ answer = none) ∧ after = world := by
  rcases may with ⟨_, ran⟩ | ⟨_, _, failed⟩
  · cases ran
    exact ⟨.inl rfl, rfl⟩
  · cases failed
    exact ⟨.inr rfl, rfl⟩

theorem Call.May.openSpool {source : SpoolPath} {answer : Except String Bytes} {data : Bytes}
    (may : (Call.openSpool source).May sha3 fails world answer after)
    (spooled : world.spool source = some data) :
    (answer = .ok data ∨ ∃ message, answer = .error message) ∧ after = world := by
  rcases may with ⟨_, ran⟩ | ⟨_, _, failed⟩
  · simp only [Call.run, spooled] at ran
    cases ran
    exact ⟨.inl rfl, rfl⟩
  · cases failed
    exact ⟨.inr ⟨_, rfl⟩, rfl⟩

theorem Call.May.readHandle {handle : Bytes} {limit : Nat} {answer : Except String Bytes}
    (may : (Call.readHandle handle limit).May sha3 fails world answer after) :
    (answer = .ok (handle.take limit) ∨ ∃ message, answer = .error message) ∧ after = world := by
  rcases may with ⟨_, ran⟩ | ⟨_, _, failed⟩
  · cases ran
    exact ⟨.inl rfl, rfl⟩
  · cases failed
    exact ⟨.inr ⟨_, rfl⟩, rfl⟩

theorem Call.May.removeDirAll {answer : Except String Unit}
    (may : Call.removeDirAll.May sha3 fails world answer after) (dir : world.dir = true) :
    answer = .ok () ∧ after.db = world.db ∧ ∀ hash, after.cache hash = none := by
  rcases may with ⟨_, ran⟩ | ⟨_, _, failed⟩
  · rw [Call.run, if_pos dir] at ran
    cases ran
    exact ⟨rfl, rfl, fun _ => rfl⟩
  · cases failed

theorem Call.May.createDirAll {answer : Except String Unit}
    (may : Call.createDirAll.May sha3 fails world answer after)
    (creates : ∀ failure, ¬ fails .createDirAll world failure) :
    after.db = world.db ∧ after.cache = world.cache ∧ after.dir = true := by
  rcases may with ⟨_, ran⟩ | ⟨failure, allowed, _⟩
  · cases ran
    exact ⟨rfl, rfl, rfl⟩
  · exact absurd allowed (creates failure)

end

def Call.Places : Call → Prop
  | .write .. | .copy .. | .rename .. => True
  | _ => False

def IoFailure.Truncates (failure : IoFailure) (data : Bytes) : Prop :=
  ∃ count, failure.written = some count ∧ count < data.length

def Unused (hash : Str) (world : World) : Prop :=
  ∀ row ∈ world.db.clipboard, row.Detached → row.hash ≠ some hash

structure Tolerable (fails : Call → World → IoFailure → Prop) : Prop where
  places : ∀ call world failure, fails call world failure → call.Places
  whole : ∀ hash data world failure, fails (.write hash data) world failure →
    failure.Truncates data → Unused hash world

section
variable {sha3 : Bytes → Bytes} {pool : Set Bytes} {payload : Int → Bytes} {calm : Prop}
  {exempt stale : Set Str} {world : World}

theorem Faithful.putPartial (faithful : Faithful sha3 pool payload stale world) {hash : Str}
    {data : Bytes} {failure : IoFailure}
    (known : hash ∈ stale ∨ ∃ row ∈ world.db.clipboard, row.hash = some hash)
    (right : ∀ row ∈ world.db.clipboard, row.Detached → row.hash = some hash →
      data = payload row.id)
    (whole : failure.Truncates data → Unused hash world) :
    Faithful sha3 pool payload stale (world.putPartial hash data failure) := by
  unfold World.putPartial
  cases written : failure.written with
  | none => exact faithful
  | some count =>
      simp only
      split
      · refine faithful.put_some known ?_
        intro row member detached named
        have long : data.length ≤ count := by
          by_contra short
          exact whole ⟨count, written, by omega⟩ row member detached named
        rw [List.take_of_length_le long]
        exact right row member detached named
      · exact faithful

@[simp] theorem World.putPartial_db (hash : Str) (data : Bytes) (failure : IoFailure) :
    (world.putPartial hash data failure).db = world.db := by
  unfold World.putPartial
  split
  · split <;> rfl
  · rfl

@[simp] theorem World.putPartial_dir (hash : Str) (data : Bytes) (failure : IoFailure) :
    (world.putPartial hash data failure).dir = world.dir := by
  unfold World.putPartial
  split
  · split <;> rfl
  · rfl

theorem World.putPartial_undone (hash : Str) (data : Bytes) (failure : IoFailure) :
    (world.putPartial hash data failure).put hash none = world.put hash none := by
  unfold World.putPartial
  split
  · split
    · unfold World.put
      simp only [World.mk.injEq, true_and, and_true]
      funext other
      split <;> rfl
    · rfl
  · rfl

theorem Tracks.of_sameFiles {after : World}
    (tracks : Tracks sha3 pool payload calm exempt stale world) (same : SameFiles world after) :
    Tracks sha3 pool payload calm exempt stale after where
  recorded := by
    rw [same.db]
    exact tracks.recorded
  owned := by
    rw [same.db, same.cache]
    exact tracks.owned
  served := by
    rw [same.db, same.cache]
    exact tracks.served
  present := by
    unfold Present
    rw [same.db, same.cache]
    exact tracks.present

theorem Tracks.found (tracks : Tracks sha3 pool payload calm exempt stale world) {hash : Str}
    (found : (world.cache hash).isSome) :
    Tracks sha3 pool payload calm (exempt \ {hash}) stale world where
  toFaithful := tracks.toFaithful
  present := by
    intro quiet row member detached name named spared
    by_cases same : name = hash
    · rw [same]
      exact found
    · exact tracks.present quiet row member detached name named fun also => spared ⟨also, same⟩

end

section
variable {sha3 : Bytes → Bytes} {pool : Set Bytes} {payload : Int → Bytes} {calm : Prop}
  {exempt stale : Set Str} {world : World} {fails : Call → World → IoFailure → Prop}
  {always : World → Prop}

theorem store_ensures (tolerable : Tolerable fails)
    (quiet : calm → ∀ call world failure, ¬ fails call world failure)
    (noCollision : Set.InjOn sha3 pool)
    (tracks : Tracks sha3 pool payload calm exempt stale world) (dir : world.dir = true)
    {hash : Str} {data : Bytes} (key : hash = toHex (sha3 data)) (pooled : data ∈ pool)
    (known : hash ∈ stale ∨ ∃ row ∈ world.db.clipboard, row.hash = some hash)
    (watch : ∀ seen, Tracks sha3 pool payload calm exempt stale seen → always seen) :
    (FileCache.store hash data).Ensures (Call.May sha3 fails) always
      (fun _ after => after.db = world.db ∧ after.dir = true ∧
        Tracks sha3 pool payload calm (exempt \ {hash}) stale after) world := by
  have right : ∀ row ∈ world.db.clipboard, row.Detached → row.hash = some hash →
      data = payload row.id := by
    intro row member _ named
    exact tracks.recorded.payload_of_key noCollision member pooled (key ▸ named)
  have widen : ∀ {seen}, Tracks sha3 pool payload calm (exempt \ {hash}) stale seen →
      always seen := fun now => watch _ (now.mono Set.sdiff_subset fun _ => .inl)
  apply Program.Ensures.ask
  intro present after may
  obtain ⟨rfl, rfl⟩ := may.pathExists
  refine ⟨watch _ tracks, ?_⟩
  cases found : (after.cache hash).isSome with
  | true => exact ⟨rfl, dir, tracks.found found⟩
  | false =>
      intro answer last may
      rcases may.write dir with rfl | ⟨failure, allowed, rfl⟩
      · have written : Tracks sha3 pool payload calm (exempt \ {hash}) stale
            (after.put hash (some data)) :=
          ⟨tracks.toFaithful.put_some known right,
            fun quiet => (tracks.present quiet).put_some hash data⟩
        exact ⟨widen written, rfl, dir, written⟩
      · have broken : Tracks sha3 pool payload calm (exempt \ {hash}) stale
            (after.putPartial hash data failure) :=
          ⟨tracks.toFaithful.putPartial known right (tolerable.whole hash data _ failure allowed),
            fun calmly => absurd allowed (quiet calmly _ _ _)⟩
        exact ⟨widen broken, World.putPartial_db .., (World.putPartial_dir ..).trans dir, broken⟩

theorem remove_ensures (tolerable : Tolerable fails)
    (tracks : Tracks sha3 pool payload calm exempt stale world) {hash : Str}
    (unused : calm → Unused hash world)
    (watch : ∀ seen stale, Tracks sha3 pool payload calm exempt stale seen → always seen) :
    (FileCache.remove hash).Ensures (Call.May sha3 fails) always
      (fun _ after => after = world.put hash none ∧
        Tracks sha3 pool payload calm exempt (stale \ {hash}) after) world := by
  apply Program.Ensures.ask
  intro answer after may
  have gone := may.remove fun failure allowed => tolerable.places _ _ failure allowed
  subst gone
  exact ⟨watch _ _ (tracks.put_none unused), rfl, tracks.put_none unused⟩

theorem removeMany_ensures (tolerable : Tolerable fails)
    (tracks : Tracks sha3 pool payload calm exempt stale world) {hashes : List Str}
    (unused : ∀ hash ∈ hashes, Unused hash world)
    (watch : ∀ seen stale, Tracks sha3 pool payload calm exempt stale seen → always seen) :
    (FileCache.removeMany hashes).Ensures (Call.May sha3 fails) always
      (fun _ after => after.db = world.db ∧ after.dir = world.dir ∧
        Tracks sha3 pool payload calm exempt (stale \ {hash | hash ∈ hashes}) after) world := by
  induction hashes generalizing world stale with
  | nil =>
      refine ⟨rfl, rfl, tracks.mono (Set.Subset.refl _) ?_⟩
      exact fun hash member => .inl ⟨member, List.not_mem_nil⟩
  | cons hash rest ih =>
      apply Program.Ensures.bind
      refine (remove_ensures tolerable tracks (fun _ => unused hash List.mem_cons_self)
        watch).mono ?_
      rintro _ after ⟨rfl, removed⟩
      refine (ih removed fun other member => unused other (List.mem_cons_of_mem _ member)).mono ?_
      rintro _ last ⟨db, dir, tracks⟩
      refine ⟨db, dir, tracks.mono (Set.Subset.refl _) ?_⟩
      rintro name ⟨⟨member, differs⟩, absent⟩
      refine .inl ⟨member, fun listed => ?_⟩
      rcases List.mem_cons.mp listed with same | later
      · exact differs same
      · exact absent later

theorem drop_ensures (tracks : Tracks sha3 pool payload calm exempt stale world)
    (spooled : SpooledFile)
    (watch : ∀ seen, Tracks sha3 pool payload calm exempt stale seen → always seen) :
    spooled.drop.Ensures (Call.May sha3 fails) always
      (fun _ after => SameFiles world after) world := by
  apply Program.Ensures.ask
  intro answer after may
  exact ⟨watch _ (tracks.of_sameFiles may.removeSpool), may.removeSpool⟩

def Adopted (sha3 : Bytes → Bytes) (pool : Set Bytes) (payload : Int → Bytes) (calm : Prop)
    (hash : Str) (data : Bytes) (absent : Prop) :
    Except String FileCache.Adoption → World → Prop
  | .ok .placed, after => absent ∧ after.cache hash = some data ∧
      Tracks sha3 pool payload calm ∅ {hash} after
  | .ok .present, after => (after.cache hash).isSome ∧ Tracks sha3 pool payload calm ∅ ∅ after
  | .error _, after => Tracks sha3 pool payload calm ∅ ∅ after

theorem Tracks.placed (tracks : Tracks sha3 pool payload calm ∅ ∅ world) {hash : Str}
    {data : Bytes}
    (right : ∀ row ∈ world.db.clipboard, row.Detached → row.hash = some hash →
      data = payload row.id) :
    Tracks sha3 pool payload calm ∅ {hash} (world.put hash (some data)) where
  toFaithful := by
    have wider : Faithful sha3 pool payload {hash} world :=
      tracks.toFaithful.mono fun name none => absurd none (Set.notMem_empty name)
    exact wider.put_some (.inl rfl) right
  present := fun quiet =>
    ((tracks.present quiet).put_some hash data).mono Set.sdiff_subset

theorem copyIn_ensures (tolerable : Tolerable fails)
    (quiet : calm → ∀ call world failure, ¬ fails call world failure)
    (tracks : Tracks sha3 pool payload calm ∅ ∅ world) (dir : world.dir = true)
    {hash : Str} {data : Bytes} {source : SpoolPath} (absent : world.cache hash = none)
    (spooled : world.spool source = some data)
    (right : ∀ row ∈ world.db.clipboard, row.Detached → row.hash = some hash →
      data = payload row.id)
    (watch : ∀ seen stale, Tracks sha3 pool payload calm ∅ stale seen → always seen)
    (idle : ¬ calm → ∀ seen, always seen) :
    (FileCache.copyIn hash source).Ensures (Call.May sha3 fails) always
      (fun result after => after.db = world.db ∧ after.dir = true ∧
        Adopted sha3 pool payload calm hash data True result after) world := by
  have placed := tracks.placed right
  apply Program.Ensures.ask
  intro answer after may
  rcases may.copy dir spooled with ⟨rfl, rfl⟩ | ⟨failure, message, allowed, rfl, rfl⟩
  · refine ⟨watch _ _ placed, ?_⟩
    intro answer last may
    have same := may.removeSpool
    have kept := placed.of_sameFiles same
    refine ⟨watch _ _ kept, same.db, same.dir.trans dir, trivial, ?_, kept⟩
    rw [same.cache]
    exact World.put_cache_self ..
  · have loud : ¬ calm := fun calmly => quiet calmly _ _ _ allowed
    refine ⟨idle loud _, ?_⟩
    intro answer last may
    have undone := may.remove fun failure allowed => tolerable.places _ _ failure allowed
    rw [World.putPartial_undone, World.put_none_absent absent] at undone
    subst undone
    exact ⟨idle loud _, rfl, dir, tracks⟩

theorem adopt_ensures (tolerable : Tolerable fails)
    (quiet : calm → ∀ call world failure, ¬ fails call world failure)
    (noCollision : Set.InjOn sha3 pool)
    (tracks : Tracks sha3 pool payload calm ∅ ∅ world) (dir : world.dir = true)
    {hash : Str} {data : Bytes} {source : SpoolPath} (key : hash = toHex (sha3 data))
    (pooled : data ∈ pool) (spooled : world.spool source = some data)
    (watch : ∀ seen stale, Tracks sha3 pool payload calm ∅ stale seen → always seen)
    (idle : ¬ calm → ∀ seen, always seen) :
    (FileCache.adopt hash source).Ensures (Call.May sha3 fails) always
      (fun result after => after.db = world.db ∧ after.dir = true ∧
        Adopted sha3 pool payload calm hash data (world.cache hash = none) result after)
      world := by
  have right : ∀ row ∈ world.db.clipboard, row.Detached → row.hash = some hash →
      data = payload row.id := by
    intro row member _ named
    exact tracks.recorded.payload_of_key noCollision member pooled (key ▸ named)
  apply Program.Ensures.ask
  intro present after may
  obtain ⟨rfl, rfl⟩ := may.pathExists
  refine ⟨watch _ _ tracks, ?_⟩
  cases found : after.cache hash with
  | some file =>
      refine ⟨rfl, dir, ?_, tracks⟩
      rw [found]
      rfl
  | none =>
      apply Program.Ensures.ask
      intro answer last may
      rcases may.rename dir spooled with ⟨rfl, rfl⟩ | ⟨failure, message, allowed, rfl, rfl⟩
      · have placed := (tracks.placed right).putSpool source none
        exact ⟨watch _ _ placed, rfl, dir, rfl, World.put_cache_self .., placed⟩
      · refine ⟨watch _ _ tracks, ?_⟩
        refine (copyIn_ensures tolerable quiet tracks dir found spooled right watch idle).mono ?_
        rintro result after ⟨db, dir, adopted⟩
        refine ⟨db, dir, ?_⟩
        cases result with
        | error message => exact adopted
        | ok adoption =>
            cases adoption with
            | placed => exact ⟨rfl, adopted.2⟩
            | present => exact adopted

theorem readSpooled_ensures {spooled : SpooledFile} {data : Slice}
    (held : world.spool spooled.path = some data.bytes) (now : always world) :
    (readSpooled spooled).Ensures (Call.May sha3 fails) always
      (fun result after => after = world ∧ ∀ got, result = .ok got → got = data) world := by
  unfold readSpooled
  split
  · apply Program.Ensures.ask
    intro answer after may
    obtain ⟨cases, rfl⟩ := may.openSpool held
    refine ⟨now, ?_⟩
    rcases cases with rfl | ⟨message, rfl⟩
    · apply Program.Ensures.ask
      intro answer last may
      obtain ⟨cases, rfl⟩ := may.readHandle
      refine ⟨now, ?_⟩
      rcases cases with rfl | ⟨message, rfl⟩
      · refine ⟨rfl, fun got checked => ?_⟩
        obtain ⟨exact, bytes⟩ := checkSpooled_ok checked
        apply Slice.eq_of_bytes
        rw [bytes]
        apply List.take_of_length_le
        rw [List.length_take] at exact
        omega
      · exact ⟨rfl, fun got failed => by cases failed⟩
    · exact ⟨rfl, fun got failed => by cases failed⟩
  · exact ⟨rfl, fun got failed => by cases failed⟩

end

end Y4p
