import Y4p.Storage.FacadeRuns

/-!
Sessions: sequences of facade operations by one process on a store and a cache
directory that start empty.
-/

namespace Y4p

open Programs

-- `insertSpooled` begins with the spooler finishing its file.
inductive FacadeOp where
  | insertWithHash (now : Int) (tie : TieOrder) (mime : Str) (data : Slice) (maxHistory : UInt64)
  | insertSpooled (now : Int) (tie : TieOrder) (mime : Str) (source : SpoolPath) (data : Slice)
      (maxHistory : UInt64)
  | deleteById (id : Int)
  | wipe
  | setPinById (id : Int) (isPinned : Bool)
  | updateTimestamp (now id : Int)
  | getContentById (id : Int)

namespace FacadeOp

def payload : FacadeOp → Option Slice
  | insertWithHash _ _ _ data _ => some data
  | insertSpooled _ _ _ _ data _ => some data
  | _ => none

section
variable (sha3 : Bytes → Bytes)

def spooledFile (source : SpoolPath) (data : Slice) : SpooledFile where
  path := source
  len := UInt64.ofNat data.bytes.length
  digest := sha3 data.bytes

def program : FacadeOp → Io Unit
  | insertWithHash now tie mime data maxHistory => do
      let _ ← Y4p.insertWithHash now tie mime data (toHex (sha3 data.bytes)) maxHistory
      pure ()
  | insertSpooled now tie mime source data maxHistory => do
      let _ ← Program.ask (Call.spool source data.bytes)
      let _ ← Y4p.insertSpooled now tie mime (spooledFile sha3 source data) maxHistory
      pure ()
  | deleteById id => do
      let _ ← ClipboardDb.deleteById id
      pure ()
  | wipe => do
      let _ ← ClipboardDb.wipe
      pure ()
  | setPinById id isPinned => do
      let _ ← ClipboardDb.setPinById id isPinned
      pure ()
  | updateTimestamp now id => do
      let _ ← ClipboardDb.updateTimestamp now id
      pure ()
  | getContentById id => do
      let _ ← Y4p.getContentById id
      pure ()

-- An insertion that commits its row before the row's file is there.
def Exposes : FacadeOp → Db → Prop
  | insertWithHash now tie mime data maxHistory, db =>
      Y4p.Exposes db now tie mime data.bytes (toHex (sha3 data.bytes)) maxHistory
  | insertSpooled now tie mime _ data maxHistory, db =>
      isDetachable mime = false ∧
        Y4p.Exposes db now tie mime data.bytes (toHex (sha3 data.bytes)) maxHistory
  | _, _ => False

end

end FacadeOp

section
variable (sha3 : Bytes → Bytes)

def session : List FacadeOp → Io Unit
  | [] => pure ()
  | op :: rest => do
      op.program sha3
      session rest

-- Where a session leaves the empty store and cache.
def reached (environment : Environment) (ops : List FacadeOp) : World × Nat :=
  (Program.exec (Call.step sha3 environment) (session sha3 ops) (World.empty, 0)).2

end

def sessionPool (ops : List FacadeOp) : Set Bytes :=
  {bytes | ∃ op ∈ ops, ∃ data, op.payload = some data ∧
    (bytes = data.bytes ∨ bytes ∈ fastCdc data.bytes)}

theorem sessionPool_pooled {ops : List FacadeOp} {op : FacadeOp} (member : op ∈ ops) {data : Slice}
    (payload : op.payload = some data) : Pooled (sessionPool ops) data :=
  ⟨⟨op, member, data, payload, .inl rfl⟩, fun _ piece => ⟨op, member, data, payload, .inr piece⟩⟩

section
variable {sha3 : Bytes → Bytes} {pool : Set Bytes} {payload : Int → Bytes} {calm : Prop}
  {world : World} {fails : Call → World → IoFailure → Prop} {always : World → Prop}

theorem Ensures.discard {α : Type} {program : Io α} {post : World → Prop}
    (ensures : program.Ensures (Call.May sha3 fails) always (fun _ after => post after) world) :
    (do let _ ← program; pure () : Io Unit).Ensures (Call.May sha3 fails) always
      (fun _ after => post after) world := by
  apply Program.Ensures.bind
  exact ensures

theorem rowContent_eq {db : Db} (recorded : Recorded sha3 pool payload db)
    (noCollision : Set.InjOn sha3 pool) {row : Row} (member : row ∈ db.clipboard) :
    db.rowContent row.id = some (row.mime, some (payload row.id), toHex (sha3 (payload row.id))) ∨
      (row.Detached ∧
        db.rowContent row.id = some (row.mime, none, toHex (sha3 (payload row.id)))) := by
  unfold Db.rowContent
  rw [Db.rowById_eq_some.mpr ⟨member, rfl⟩]
  simp only [recorded.keyed row member]
  cases chunked : row.isChunked with
  | true =>
      left
      rw [if_pos rfl, reassembled_eq recorded.assembled recorded.refs noCollision member chunked]
      rfl
  | false =>
      rw [if_neg Bool.false_ne_true]
      cases content : row.content with
      | null => exact .inr ⟨⟨content, chunked⟩, rfl⟩
      | text bytes =>
          have same := (recorded.assembled.holds row member).inline bytes (by rw [content]; rfl)
          exact .inl (by rw [← same]; rfl)
      | blob bytes =>
          have same := (recorded.assembled.holds row member).inline bytes (by rw [content]; rfl)
          exact .inl (by rw [← same]; rfl)

theorem rowContent_absent {db : Db} {id : Int} (absent : ∀ row ∈ db.clipboard, row.id ≠ id) :
    db.rowContent id = none := by
  rw [Db.rowContent, Db.rowById_eq_none.mpr absent]

/-- Whatever is served for a row is what the row is a record of. -/
theorem getContentById_ensures (noCollision : Set.InjOn sha3 pool)
    (settled : Settled sha3 pool payload calm world) (id : Int) (now : always world) :
    (getContentById id).Ensures (Call.May sha3 fails) always
      (fun result after => after = world ∧ ∀ mime bytes, result = some (mime, bytes) →
        ∃ row ∈ world.db.clipboard, row.id = id ∧ bytes = payload row.id) world := by
  apply Program.Ensures.ask
  intro answer after may
  obtain ⟨db, ⟨cases, rfl⟩, rfl⟩ := may.store
  refine ⟨now, ?_⟩
  rcases cases with rfl | rfl
  · by_cases known : ∃ row ∈ world.db.clipboard, row.id = id
    · obtain ⟨row, member, rfl⟩ := known
      rcases rowContent_eq settled.recorded noCollision member with inline | ⟨detached, outside⟩
      · rw [inline]
        refine ⟨rfl, fun mime bytes served => ⟨row, member, rfl, ?_⟩⟩
        cases served
        rfl
      · rw [outside]
        apply Program.Ensures.ask
        intro answer last may
        obtain ⟨cases, rfl⟩ := may.read
        refine ⟨now, rfl, fun mime bytes served => ⟨row, member, rfl, ?_⟩⟩
        obtain ⟨file, found, same⟩ := Option.map_eq_some_iff.mp served
        cases same
        rcases cases with read | none
        · rw [read] at found
          exact settled.served row member detached _ _ (settled.recorded.keyed row member) found
        · rw [none] at found
          cases found
    · have absent : ∀ row ∈ world.db.clipboard, row.id ≠ id := fun row member same =>
        known ⟨row, member, same⟩
      rw [rowContent_absent absent]
      exact ⟨rfl, fun mime bytes served => by cases served⟩
  · exact ⟨rfl, fun mime bytes served => by cases served⟩

theorem FacadeOp.ensures (op : FacadeOp) (tolerable : Tolerable fails)
    (quiet : calm → ∀ call world failure, ¬ fails call world failure)
    (noCollision : Set.InjOn sha3 pool) (settled : Settled sha3 pool payload calm world)
    (kept : ∀ data, op.payload = some data → Pooled pool data)
    (watch : ∀ payload exempt stale seen, Tracks sha3 pool payload calm exempt stale seen →
      (¬ op.Exposes sha3 world.db → exempt = ∅) → always seen)
    (idle : ¬ calm → ∀ seen, always seen) :
    (op.program sha3).Ensures (Call.May sha3 fails) always
      (fun _ after => ∃ payload', Settled sha3 pool payload' calm after ∧
        Descends (op.payload.map Slice.bytes) world.db payload after.db payload') world := by
  have calmWatch : ∀ payload stale seen, Tracks sha3 pool payload calm ∅ stale seen →
      always seen := fun _ _ _ tracks => watch _ _ _ _ tracks fun _ => rfl
  cases op with
  | insertWithHash now tie mime data maxHistory =>
      exact Ensures.discard
        (insertWithHash_ensures tolerable quiet noCollision settled rfl (kept data rfl) watch)
  | insertSpooled now tie mime source data maxHistory =>
      apply Program.Ensures.ask
      intro _ after may
      have finished := may.spool
      subst finished
      have spooled : Settled sha3 pool payload calm (world.putSpool source (some data.bytes)) :=
        ⟨settled.toTracks.putSpool source _, settled.dir⟩
      have len : (FacadeOp.spooledFile sha3 source data).len.toNat = data.bytes.length := by
        have fits := data.fits
        have size : UInt64.size = 2 ^ 64 := rfl
        exact UInt64.toNat_ofNat_of_lt' (by omega)
      refine ⟨calmWatch _ _ _ spooled.toTracks, Ensures.discard ?_⟩
      exact insertSpooled_ensures tolerable quiet noCollision spooled rfl len
        (World.putSpool_spool_self ..) (kept data rfl) watch idle
  | deleteById id => exact Ensures.discard (deleteById_ensures tolerable settled calmWatch)
  | wipe => exact Ensures.discard (wipe_ensures tolerable settled calmWatch)
  | setPinById id isPinned =>
      refine Ensures.discard (stamp_ensures settled (world.db.pin isPinned id) rfl
        (settled.recorded.pin isPinned id) ?_ ?_ ?_
        calmWatch)
      · exact fun _ member => (pin_inherits member).imp fun _ => And.imp_right And.left
      · exact fun old member =>
          ⟨_, List.mem_map_of_mem member, (SameRecord.pin isPinned id old).hash⟩
      · rintro result db (⟨_, _, rfl⟩ | ⟨_, rfl⟩)
        · exact .inl rfl
        · exact .inr rfl
  | updateTimestamp now id =>
      refine Ensures.discard (stamp_ensures settled (world.db.touch now id) rfl
        (settled.recorded.touch now id) ?_ ?_ ?_
        calmWatch)
      · exact fun _ member => (touch_inherits member).imp fun _ => And.imp_right And.left
      · exact fun old member =>
          ⟨_, List.mem_map_of_mem member, (SameRecord.touch now id old).hash⟩
      · rintro result db (⟨_, _, rfl⟩ | ⟨_, rfl⟩)
        · exact .inl rfl
        · exact .inr rfl
  | getContentById id =>
      refine Ensures.discard ((getContentById_ensures noCollision settled id
        (calmWatch _ _ _ settled.toTracks)).mono ?_)
      rintro _ after ⟨rfl, _⟩
      exact ⟨payload, settled, .refl⟩

section
variable {environment : Environment}

theorem session_append (first second : List FacadeOp) (state : World × Nat) :
    (Program.exec (Call.step sha3 environment) (session sha3 (first ++ second)) state).2 =
      (Program.exec (Call.step sha3 environment) (session sha3 second)
        (Program.exec (Call.step sha3 environment) (session sha3 first) state).2).2 := by
  induction first generalizing state with
  | nil => rfl
  | cons op rest ih =>
      simp only [List.cons_append, session, Program.exec_bind]
      exact ih _

theorem reached_append (first second : List FacadeOp) :
    reached sha3 environment (first ++ second) =
      (Program.exec (Call.step sha3 environment) (session sha3 second)
        (reached sha3 environment first)).2 :=
  session_append first second _

/-- What one operation ensures, of a run in which only the given failures happen. -/
theorem FacadeOp.run (op : FacadeOp) (tolerable : Tolerable fails)
    (quiet : calm → ∀ call world failure, ¬ fails call world failure)
    (noCollision : Set.InjOn sha3 pool) {state : World × Nat}
    (settled : Settled sha3 pool payload calm state.1)
    (kept : ∀ data, op.payload = some data → Pooled pool data)
    (allowed : ∀ issued ∈ Program.trace (Call.step sha3 environment) (op.program sha3) state,
      ∀ failure, environment.io issued.2.2 issued.1 = some failure →
        fails issued.1 issued.2.1 failure) :
    (calm → ¬ op.Exposes sha3 state.1.db →
      ∀ seen ∈ Program.visits (Call.step sha3 environment) (op.program sha3) state,
        FilesComplete sha3 seen.1) ∧
    ∃ payload',
      Settled sha3 pool payload' calm
        (Program.exec (Call.step sha3 environment) (op.program sha3) state).2.1 ∧
      Descends (op.payload.map Slice.bytes) state.1.db payload
        (Program.exec (Call.step sha3 environment) (op.program sha3) state).2.1.db payload' := by
  let always : World → Prop := fun seen =>
    calm → ¬ op.Exposes sha3 state.1.db → FilesComplete sha3 seen
  have ensures := @FacadeOp.ensures sha3 pool payload calm state.1 fails always op tolerable quiet
    noCollision settled kept
    (fun _ _ _ _ tracks spared calmly unexposed => tracks.filesComplete calmly (spared unexposed))
    (fun loud _ calmly => absurd calmly loud)
  obtain ⟨held, ended⟩ := Program.Ensures.of_run Prod.fst ensures
    fun issued member => Call.step_may (allowed issued member)
  exact ⟨fun calmly unexposed seen member => held seen member calmly unexposed, ended⟩

theorem session_settled (tolerable : Tolerable fails)
    (quiet : calm → ∀ call world failure, ¬ fails call world failure)
    (noCollision : Set.InjOn sha3 pool) {ops : List FacadeOp} {state : World × Nat}
    (settled : Settled sha3 pool payload calm state.1)
    (kept : ∀ op ∈ ops, ∀ data, op.payload = some data → Pooled pool data)
    (allowed : ∀ issued ∈ Program.trace (Call.step sha3 environment) (session sha3 ops) state,
      ∀ failure, environment.io issued.2.2 issued.1 = some failure →
        fails issued.1 issued.2.1 failure) :
    ∃ payload',
      Settled sha3 pool payload' calm
        (Program.exec (Call.step sha3 environment) (session sha3 ops) state).2.1 ∧
      state.1.db.sequence ≤
        (Program.exec (Call.step sha3 environment) (session sha3 ops) state).2.1.db.sequence ∧
      ∀ id ≤ state.1.db.sequence, payload' id = payload id := by
  induction ops generalizing state payload with
  | nil => exact ⟨payload, settled, le_refl _, fun _ _ => rfl⟩
  | cons op rest ih =>
      simp only [session, Program.trace_bind, List.mem_append] at allowed
      obtain ⟨_, first, settledFirst, descends⟩ := op.run tolerable quiet noCollision settled
        (kept op List.mem_cons_self) fun issued member => allowed issued (.inl member)
      obtain ⟨last, settledLast, later, same⟩ := ih settledFirst
        (fun other member => kept other (List.mem_cons_of_mem _ member))
        fun issued member => allowed issued (.inr member)
      simp only [session, Program.exec_bind]
      refine ⟨last, settledLast, descends.sequence.trans later, fun id issued => ?_⟩
      rw [same id (issued.trans descends.sequence), descends.kept id issued]

theorem Settled.empty : Settled sha3 pool payload calm World.empty where
  recorded := .empty
  owned := by
    intro hash file found
    cases found
  served := by simp [World.empty, Db.empty]
  present := by simp [Present, World.empty, Db.empty]
  dir := rfl

end

end

end Y4p
