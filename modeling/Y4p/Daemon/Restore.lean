import Y4p.Storage.RoundTrip
import Y4p.Wayland.State

/-!
Serving a record again: `bind_data_device` and `handle_restore_request`
(`crates/daemon/src/lib.rs`).
-/

namespace Y4p

open Programs

def bindDataDevice (state : WaylandState) (conn : Connection) : Bool × WaylandState × Connection :=
  if state.device.isSome then (true, state, conn)
  else
    match state.manager, state.seat with
    | some _, some seat =>
        let (device, conn) := conn.create (.getDataDevice seat)
        (true, { state with device := some device }, conn)
    | _, _ => (false, state, conn)

def offerAlts (source : ObjectId) (mime : Str) (alts : List Str) (conn : Connection) : Connection :=
  alts.foldl (fun conn alt => if alt ≠ mime then conn.send (.offer source alt) else conn) conn

def offerMimes (source : ObjectId) (mime : Str) (conn : Connection) : Connection :=
  let conn := conn.send (.offer source mime)
  if isHtmlMime mime then offerAlts source mime htmlMimeAlts conn
  else if contains mime "text".toList || contains mime "UTF8".toList then
    offerAlts source mime textMimeAlts conn
  else conn

def setSelection (device : Option ObjectId) (source : ObjectId) (conn : Connection) : Connection :=
  match device with
  | some device => conn.send (.setSelection device source)
  | none => conn

def publish (state : WaylandState) (conn : Connection) (mime : Str) (payload : Payload) :
    WaylandState × Connection :=
  let (id, conn) := conn.create fun id => .createDataSource ⟨id, mime, payload⟩
  let conn := offerMimes id mime conn
  let conn := setSelection state.device id conn
  ({ state with currentSource := some ⟨id, mime, payload⟩ }, conn)

def locatedPayload : ContentLocation → Io Payload
  | .inlineBlob id => do
      let content ← getContentById id
      pure (.memory ((content.map Prod.snd).getD []))
  | .cacheFile hash => pure (.file hash)

def handleRestoreRequest (state : WaylandState) (conn : Connection) (realId : Int) :
    Io (WaylandState × Connection) := do
  let resolved ← locateContent realId
  match resolved, state.manager with
  | some (mime, location), some _ => do
      let state := { state with providerLocks := state.providerLocks + 1 }
      let payload ← locatedPayload location
      pure (publish state conn mime payload)
  | _, _ => pure (state, conn)

-- The row is located in the first world and served in the second: a writer may come in between.
-- Restoring only reads.
def Call.across (sha3 : Bytes → Bytes) (call : Call) (moments : World × World) :
    call.Answer × World × World :=
  ((call.run sha3 noFaults moments.1).1, moments.2, moments.2)

def World.content (sha3 : Bytes → Bytes) (world : World) (id : Int) : Option (Str × Bytes) :=
  (Program.exec (Call.run sha3 noFaults) (getContentById id) world).1

def Payload.denotes (world : World) : Payload → Option Bytes
  | .memory data => some data
  | .file hash => world.cache hash
  | .spooled source => world.spool source.path

def restoreAcross (sha3 : Bytes → Bytes) (located served : World) (state : WaylandState)
    (conn : Connection) (id : Int) : WaylandState × Connection :=
  (Program.exec (Call.across sha3) (handleRestoreRequest state conn id) (located, served)).1

def Publishes (conn : Connection) (device : ObjectId) (source : DataSource)
    (after : WaylandState × Connection) : Prop :=
  after.1.currentSource = some source ∧
    ∃ sent, after.2.requests = conn.requests ++ sent ∧ .createDataSource source ∈ sent ∧
      .setSelection device source.id ∈ sent

def Untouched (state : WaylandState) (conn : Connection) (after : WaylandState × Connection) :
    Prop :=
  after.1.currentSource = state.currentSource ∧
    ∃ sent, after.2.requests = conn.requests ++ sent ∧
      ∀ device source, .setSelection device source ∉ sent

def Restored (sha3 : Bytes → Bytes) (located served : World) (state : WaylandState)
    (conn : Connection) (device : ObjectId) (id : Int) : Prop :=
  let after := restoreAcross sha3 located served state conn id
  (∃ source mime data, served.content sha3 id = some (mime, data) ∧
      source.payload.denotes served = some data ∧ Publishes conn device source after) ∨
    ((located.content sha3 id = none ∨ served.content sha3 id = none) ∧
      Untouched state conn after)

def World.recordBytes (world : World) (id : Int) : Option Bytes :=
  match world.db.rowContent id with
  | none => none
  | some (_, some data, _) => some data
  | some (_, none, hash) => world.cache hash

-- The row has no hash, or its bytes are there when it is served.
def Servable (located served : World) (id : Int) : Prop :=
  ∀ row, located.db.rowById id = some row → ∀ hash, row.hash = some hash →
    ∃ data, served.recordBytes id = some data ∧
      (row.content = .null → row.isChunked = false → served.cache hash = some data)

/-- Without a writer in between. -/
theorem servable_self (world : World) (id : Int) :
    Servable world world id ↔
      ∀ row, world.db.rowById id = some row → ∀ hash, row.hash = some hash →
        if row.isChunked then (world.db.reassembled row).isSome
        else row.content = .null → (world.cache hash).isSome := by
  refine forall_congr' fun row => forall_congr' fun found => forall_congr' fun hash =>
    forall_congr' fun named => ?_
  have kept : world.recordBytes id =
      if row.isChunked then world.db.reassembled row
      else row.content.bytes?.or (world.cache hash) := by
    unfold World.recordBytes Db.rowContent
    simp only [found, named]
    cases row.isChunked with
    | true =>
        simp only [if_true]
        cases world.db.reassembled row <;> rfl
    | false =>
        simp only [Bool.false_eq_true, if_false]
        cases row.content.bytes? <;> rfl
  rw [kept]
  cases row.isChunked with
  | true =>
      simp only [if_true, Bool.true_eq_false, false_implies, implies_true, and_true]
      exact Option.isSome_iff_exists.symm
  | false =>
      simp only [Bool.false_eq_true, if_false, true_implies]
      cases row.content with
      | null =>
          simp only [Value.bytes?, Option.none_or, true_implies, and_self]
          exact Option.isSome_iff_exists.symm
      | text data => simp [Value.bytes?]
      | blob data => simp [Value.bytes?]

section
variable {sha3 : Bytes → Bytes}

def World.location (world : World) (id : Int) : Option (Str × ContentLocation) :=
  (world.db.rowById id).bind fun row =>
    row.hash.map fun hash =>
      (row.mime, if decide (row.content ≠ .null) || row.isChunked then .inlineBlob id
        else .cacheFile hash)

theorem rowLocation_run (db : Db) (id : Int) :
    (StoreOp.getRowLocation id).run sha3 noFaults db = (db.rowLocation id, db) := by
  obtain ⟨answer, after, ran, cases⟩ := getRowLocation_reads noFaults db id 0
  have same := cases.resolve_right fun failed => not_interrupted failed.2
  change Program.exec (Cmd.step noFaults) ((StoreOp.getRowLocation id).program sha3)
    (Session.at db 0) = _ at ran
  rw [StoreOp.run, ran, same]
  rfl

theorem store_across {op : StoreOp} {answer : op.Result} {located served : World} {db : Db}
    (ran : op.run sha3 noFaults located.db = (answer, db)) :
    Call.across sha3 (.store op) (located, served) = (answer, served, served) := by
  simp only [Call.across, Call.run, ran]
  rfl

theorem locateContent_across (located served : World) (id : Int) :
    Program.exec (Call.across sha3) (locateContent id) (located, served) =
      (located.location id, served, served) := by
  refine (Program.exec_answer _ (store_across (rowLocation_run located.db id))).trans ?_
  unfold World.location Db.rowLocation
  cases located.db.rowById id with
  | none => rfl
  | some row =>
      simp only [Option.bind_some]
      cases row.hash with
      | none => rfl
      | some hash => rfl

theorem contentOrFile_across (world : World) (found : Option (Str × Option Bytes × Str)) :
    Program.exec (Call.across sha3) (contentOrFile found) (world, world) =
      ((Program.exec (Call.run sha3 noFaults) (contentOrFile found) world).1, world, world) := by
  rcases found with _ | ⟨mime, _ | data, hash⟩ <;> rfl

theorem content_run (world : World) (id : Int) :
    world.content sha3 id =
      (Program.exec (Call.run sha3 noFaults) (contentOrFile (world.db.rowContent id)) world).1 := by
  have answered : Call.run sha3 noFaults (.store (.getRowContent id)) world =
      (world.db.rowContent id, world) := by
    simp only [Call.run, rowContent_run]
    rfl
  exact congrArg Prod.fst (Program.exec_answer _ answered)

theorem getContentById_across (world : World) (id : Int) :
    Program.exec (Call.across sha3) (getContentById id) (world, world) =
      (world.content sha3 id, world, world) := by
  refine (Program.exec_answer _ (store_across (rowContent_run world.db id))).trans ?_
  rw [content_run]
  exact contentOrFile_across world (world.db.rowContent id)

theorem content_eq (world : World) (id : Int) :
    world.content sha3 id =
      (world.db.rowContent id).bind fun (mime, data, hash) =>
        (match data with
          | some data => some data
          | none => world.cache hash).map fun data => (mime, data) := by
  rw [content_run]
  rcases world.db.rowContent id with _ | ⟨mime, _ | data, hash⟩ <;> rfl

theorem content_bytes (sha3 : Bytes → Bytes) (world : World) (id : Int) :
    (world.content sha3 id).map Prod.snd = world.recordBytes id := by
  rw [content_eq]
  unfold World.recordBytes
  rcases world.db.rowContent id with _ | ⟨mime, _ | data, hash⟩
  · rfl
  · cases file : world.cache hash <;> simp [file]
  · rfl

theorem content_eq_none (world : World) (id : Int) :
    world.content sha3 id = none ↔ world.recordBytes id = none := by
  rw [← content_bytes sha3, Option.map_eq_none_iff]

theorem recordBytes_unlocated {world : World} {id : Int} (absent : world.location id = none) :
    world.recordBytes id = none := by
  unfold World.location at absent
  unfold World.recordBytes Db.rowContent
  cases found : world.db.rowById id with
  | none => rfl
  | some row =>
      simp only [found, Option.bind_some, Option.map_eq_none_iff] at absent
      simp only [absent]

def ContentLocation.served (world : World) : ContentLocation → Payload
  | .inlineBlob id => .memory ((world.recordBytes id).getD [])
  | .cacheFile hash => .file hash

theorem locatedPayload_across (world : World) (location : ContentLocation) :
    (Program.exec (Call.across sha3) (locatedPayload location) (world, world)).1 =
      location.served world := by
  cases location with
  | inlineBlob id =>
      unfold locatedPayload
      rw [Program.exec_bind, getContentById_across]
      change Payload.memory (((world.content sha3 id).map Prod.snd).getD []) = _
      rw [content_bytes]
      rfl
  | cacheFile hash => rfl

theorem restoreAcross_unlocated {located served : World} {state : WaylandState}
    {conn : Connection} {id : Int} (absent : located.location id = none) :
    restoreAcross sha3 located served state conn id = (state, conn) := by
  unfold restoreAcross handleRestoreRequest
  rw [Program.exec_bind, locateContent_across, absent]
  rfl

theorem restoreAcross_unmanaged {located served : World} {state : WaylandState}
    {conn : Connection} {id : Int} (unbound : state.manager = none) :
    restoreAcross sha3 located served state conn id = (state, conn) := by
  unfold restoreAcross handleRestoreRequest
  rw [Program.exec_bind, locateContent_across, unbound]
  cases located.location id with
  | none => rfl
  | some found => rfl

theorem restoreAcross_located {located served : World} {state : WaylandState} {conn : Connection}
    {id : Int} {manager : ObjectId} {mime : Str} {location : ContentLocation}
    (bound : state.manager = some manager) (found : located.location id = some (mime, location)) :
    restoreAcross sha3 located served state conn id =
      publish { state with providerLocks := state.providerLocks + 1 } conn mime
        (location.served served) := by
  unfold restoreAcross handleRestoreRequest
  rw [Program.exec_bind, locateContent_across, found, bound]
  simp only [Program.exec_bind, Program.exec_pure]
  rw [locatedPayload_across]

def Request.Quiet (request : Request) : Prop :=
  ∀ device source, request ≠ .setSelection device source

def offers (mime : Str) : List Str :=
  let alts :=
    if isHtmlMime mime then htmlMimeAlts
    else if contains mime "text".toList || contains mime "UTF8".toList then textMimeAlts
    else []
  mime :: alts.filter fun alt => decide (alt ≠ mime)

theorem offerAlts_sends (source : ObjectId) (mime : Str) (alts : List Str) (conn : Connection) :
    (offerAlts source mime alts conn).requests =
      conn.requests ++ (alts.filter fun alt => decide (alt ≠ mime)).map (.offer source) := by
  unfold offerAlts
  induction alts generalizing conn with
  | nil => simp
  | cons alt rest ih =>
      rw [List.foldl_cons, ih]
      by_cases differs : alt ≠ mime
      · rw [if_pos differs, List.filter_cons, if_pos (decide_eq_true differs), List.map_cons,
          Connection.send_requests, List.append_assoc, List.singleton_append]
      · rw [if_neg differs, List.filter_cons, if_neg (mt of_decide_eq_true differs)]

theorem offerMimes_sends (source : ObjectId) (mime : Str) (conn : Connection) :
    (offerMimes source mime conn).requests =
      conn.requests ++ (offers mime).map (.offer source) := by
  unfold offerMimes offers
  dsimp only
  split
  · rw [offerAlts_sends, Connection.send_requests, List.append_assoc]
    rfl
  · split
    · rw [offerAlts_sends, Connection.send_requests, List.append_assoc]
      rfl
    · rfl

/-- Everything a publication sends: the source, its offers and, with a device, the selection. -/
theorem publish_sends (state : WaylandState) (conn : Connection) (mime : Str) (payload : Payload) :
    (publish state conn mime payload).2.requests =
      conn.requests ++ .createDataSource ⟨conn.next, mime, payload⟩ ::
        (offers mime).map (.offer conn.next) ++
          match state.device with
          | some device => [.setSelection device conn.next]
          | none => [] := by
  have created : (offerMimes conn.next mime
      (conn.create fun id => .createDataSource ⟨id, mime, payload⟩).2).requests =
        conn.requests ++ .createDataSource ⟨conn.next, mime, payload⟩ ::
          (offers mime).map (.offer conn.next) := by
    rw [offerMimes_sends]
    simp [Connection.create]
  change (setSelection state.device conn.next (offerMimes conn.next mime
    (conn.create fun id => .createDataSource ⟨id, mime, payload⟩).2)).requests = _
  unfold setSelection
  cases state.device with
  | none => rw [created, List.append_nil]
  | some device => rw [Connection.send_requests, created]

theorem publish_selects {state : WaylandState} {device : ObjectId}
    (bound : state.device = some device) (conn : Connection) (mime : Str) (payload : Payload) :
    ∃ messages, (∀ request ∈ messages, request.Quiet) ∧
      .createDataSource ⟨conn.next, mime, payload⟩ ∈ messages ∧
      (publish state conn mime payload).2.requests =
        conn.requests ++ (messages ++ [.setSelection device conn.next]) := by
  have sent := publish_sends state conn mime payload
  rw [bound] at sent
  refine ⟨.createDataSource ⟨conn.next, mime, payload⟩ :: (offers mime).map (.offer conn.next), ?_,
    .head _, ?_⟩
  · intro request member
    rcases List.mem_cons.mp member with rfl | offered
    · exact nofun
    · obtain ⟨alt, _, rfl⟩ := List.mem_map.mp offered
      exact nofun
  · rw [sent, List.append_assoc]

end

section
variable {sha3 : Bytes → Bytes} {located served : World} {state : WaylandState} {conn : Connection}
  {manager device : ObjectId} {id : Int}

theorem publish_publishes (bound : state.device = some device) (mime : Str) (payload : Payload) :
    Publishes conn device ⟨conn.next, mime, payload⟩ (publish state conn mime payload) := by
  obtain ⟨messages, _, created, sent⟩ := publish_selects bound conn mime payload
  exact ⟨rfl, _, sent, List.mem_append_left _ created, by simp⟩

theorem publish_touches (bound : state.device = some device) (mime : Str) (payload : Payload)
    (earlier : WaylandState) : ¬ Untouched earlier conn (publish state conn mime payload) := by
  rintro ⟨_, sent, shape, quiet⟩
  obtain ⟨messages, _, _, requests⟩ := publish_selects bound conn mime payload
  rw [shape] at requests
  have same := List.append_cancel_left requests
  exact quiet device conn.next (by rw [same]; simp)

theorem restored_unlocated (absent : located.location id = none) :
    Restored sha3 located served state conn device id := by
  refine .inr ⟨.inl ((content_eq_none located id).mpr (recordBytes_unlocated absent)), ?_⟩
  rw [restoreAcross_unlocated absent]
  exact ⟨rfl, [], by simp, nofun⟩

theorem restored_located (manages : state.manager = some manager)
    (bound : state.device = some device) {mime : Str} {location : ContentLocation}
    (found : located.location id = some (mime, location)) :
    Restored sha3 located served state conn device id ↔
      ∃ data, served.recordBytes id = some data ∧
        (location.served served).denotes served = some data := by
  unfold Restored
  rw [restoreAcross_located manages found]
  have published : Publishes conn device ⟨conn.next, mime, location.served served⟩
      (publish { state with providerLocks := state.providerLocks + 1 } conn mime
        (location.served served)) :=
    publish_publishes bound mime (location.served served)
  constructor
  · rintro (⟨source, kind, data, content, denotes, current, _⟩ | ⟨_, untouched⟩)
    · have same : (⟨conn.next, mime, location.served served⟩ : DataSource) = source :=
        Option.some.inj (published.1.symm.trans current)
      refine ⟨data, ?_, by rw [← denotes, ← same]⟩
      rw [← content_bytes sha3, content]
      rfl
    · exact absurd untouched (publish_touches bound mime _ state)
  · rintro ⟨data, kept, denotes⟩
    rw [← content_bytes sha3, Option.map_eq_some_iff] at kept
    obtain ⟨⟨kind, bytes⟩, content, rfl⟩ := kept
    exact .inl ⟨_, kind, bytes, content, denotes, published⟩

theorem servable_located {row : Row} {hash : Str} (found : located.db.rowById id = some row)
    (named : row.hash = some hash) :
    Servable located served id ↔
      ∃ data, served.recordBytes id = some data ∧
        (row.content = .null → row.isChunked = false → served.cache hash = some data) := by
  constructor
  · intro servable
    exact servable row found hash named
  · intro kept other present key keyed
    rw [found] at present
    cases present
    rw [named] at keyed
    cases keyed
    exact kept

/-- A row kept inline is served from its bytes, any other from the file its hash names. -/
theorem restored_row (manages : state.manager = some manager) (bound : state.device = some device)
    {row : Row} {hash : Str} (found : located.db.rowById id = some row)
    (named : row.hash = some hash) :
    Restored sha3 located served state conn device id ↔
      ∃ data, served.recordBytes id = some data ∧
        (row.content = .null → row.isChunked = false → served.cache hash = some data) := by
  by_cases inline : (decide (row.content ≠ .null) || row.isChunked) = true
  · have place : located.location id = some (row.mime, .inlineBlob id) := by
      simp only [World.location, found, named, Option.bind_some, Option.map_some, if_pos inline]
    rw [restored_located manages bound place]
    refine exists_congr fun data => and_congr_right fun kept => ?_
    have denotes : ((ContentLocation.inlineBlob id).served served).denotes served = some data := by
      simp only [ContentLocation.served, kept, Option.getD_some, Payload.denotes]
    refine iff_of_true denotes fun empty whole => ?_
    simp [empty, whole] at inline
  · have place : located.location id = some (row.mime, .cacheFile hash) := by
      simp only [World.location, found, named, Option.bind_some, Option.map_some, if_neg inline]
    have detached : row.content = .null ∧ row.isChunked = false := by simpa using inline
    rw [restored_located manages bound place]
    refine exists_congr fun data => and_congr_right fun _ => ?_
    change served.cache hash = some data ↔ _
    exact ⟨fun file _ _ => file, fun file => file detached.1 detached.2⟩

/-- A restore serves the record's own bytes, or where there are none leaves the selection alone,
exactly if the record has no hash or its bytes are there when it is served. -/
theorem handleRestoreRequest_restores (sha3 : Bytes → Bytes) (located served : World)
    (state : WaylandState) (conn : Connection) (manager device : ObjectId) (id : Int)
    (manages : state.manager = some manager) (bound : state.device = some device) :
    Restored sha3 located served state conn device id ↔ Servable located served id := by
  cases found : located.db.rowById id with
  | none =>
      have absent : located.location id = none := by rw [World.location, found]; rfl
      refine ⟨fun _ row present => ?_, fun _ => restored_unlocated absent⟩
      rw [found] at present
      cases present
  | some row =>
      cases named : row.hash with
      | none =>
          have absent : located.location id = none := by simp [World.location, found, named]
          refine ⟨fun _ other present hash key => ?_, fun _ => restored_unlocated absent⟩
          rw [found] at present
          cases present
          rw [named] at key
          cases key
      | some hash =>
          rw [restored_row manages bound found named, servable_located found named]

end

def sampleHistory (mime : Str) (content : Value) (isChunked : Bool) : World :=
  { World.empty with
    db := { Db.empty with
      clipboard := [{
        id := 1, timestamp := 1, mime := mime, size := 5, preview := none, content := content,
        hash := some "00".toList, isChunked := isChunked }]
      sequence := 1
      idsUnique := by simp
      idsIssued := by simp
      sequenceNonneg := Int.one_nonneg
      hashesUnique := by simp } }

def boundDaemon : WaylandState :=
  { WaylandState.newDaemon with
    manager := some 0, managerId := some 1, seat := some 1, seatId := some 2, device := some 2 }

def boundConnection : Connection where
  next := 3
  requests := []

theorem handleRestoreRequest_restores_sample :
    let world := sampleHistory "text/plain".toList (.text [104, 101, 108, 108, 111]) false
    Restored sampleSha3 world world boundDaemon boundConnection 2 1 ∧ Servable world world 1 := by
  have servable : Servable (sampleHistory "text/plain".toList (.text [104, 101, 108, 108, 111]) false)
      (sampleHistory "text/plain".toList (.text [104, 101, 108, 108, 111]) false) 1 := by
    refine (servable_self _ 1).mpr fun row found hash named => ?_
    cases found
    exact nofun
  exact ⟨(handleRestoreRequest_restores sampleSha3 _ _ boundDaemon boundConnection 0 2 1 rfl
    rfl).mpr servable, servable⟩

def Misserved (world : World) (mime : Str) (payload : Payload) : Prop :=
  world.content sampleSha3 1 = none ∧
    ¬ Restored sampleSha3 world world boundDaemon boundConnection 2 1 ∧
    (restoreAcross sampleSha3 world world boundDaemon boundConnection 1).1.currentSource =
      some ⟨3, mime, payload⟩

/-- A chunk of the first record is gone, the file of the second. -/
theorem handleRestoreRequest_restores_counterexample :
    Misserved (sampleHistory "text/plain".toList .null true) "text/plain".toList (.memory []) ∧
      Misserved (sampleHistory "image/png".toList .null false) "image/png".toList
        (.file "00".toList) := by
  refine ⟨⟨?_, ?_, ?_⟩, ⟨?_, ?_, ?_⟩⟩
  · exact (content_eq_none _ 1).mpr (by decide)
  · rw [restored_row (rfl : boundDaemon.manager = some 0) rfl rfl rfl]
    rintro ⟨data, kept, _⟩
    cases kept
  · rw [restoreAcross_located (rfl : boundDaemon.manager = some 0) rfl]
    rfl
  · exact (content_eq_none _ 1).mpr (by decide)
  · rw [restored_row (rfl : boundDaemon.manager = some 0) rfl rfl rfl]
    rintro ⟨data, kept, _⟩
    cases kept
  · rw [restoreAcross_located (rfl : boundDaemon.manager = some 0) rfl]
    rfl

end Y4p
