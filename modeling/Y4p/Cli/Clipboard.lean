import Y4p.Cli.Acts
import Y4p.Daemon.Restore

/-!
From a command line to the clipboard: the frames that `copy-to` and `store` send, and what the
daemon serves when it gets them, whatever has become of the store by then.
-/

namespace Y4p

open Programs

/-- The daemon decodes the id that was sent, if it fits its integers. -/
theorem decode_restoreFrame {id : Int} (positive : 0 ≤ id) :
    Command.decode (Invocation.restoreFrame id) = (I64.checked id).map .restore := by
  obtain ⟨magnitude, rfl⟩ := Int.eq_ofNat_of_zero_le positive
  have text : intText (magnitude : Int) = Nat.toDigits 10 magnitude :=
    if_neg (Int.not_lt.mpr positive)
  have written : ∀ c ∈ Nat.toDigits 10 magnitude, IsIdChar c :=
    fun c member => .inl (toDigits_all magnitude c member)
  rw [Invocation.restoreFrame, text, decode_restore written]
  by_cases small : magnitude < 2 ^ 63
  · rw [parseI64_toDigits magnitude small]
  · rw [parseI64_overflow (Nat.not_lt.mp small), I64.checked, dif_neg (by omega)]

theorem restoreFrame_upTo {id : Int} (positive : 0 ≤ id) :
    upTo ipcDelimiter (Invocation.restoreFrame id) = Invocation.restoreFrame id := by
  obtain ⟨magnitude, rfl⟩ := Int.eq_ofNat_of_zero_le positive
  have text : intText (magnitude : Int) = Nat.toDigits 10 magnitude :=
    if_neg (Int.not_lt.mpr positive)
  have absent : ipcDelimiter ∉ ipcCmdRestore :: asciiBytes (Nat.toDigits 10 magnitude) := by
    intro member
    rcases List.mem_cons.mp member with same | digit
    · cases same
    · exact asciiBytes_absent (fun c listed => .inl (toDigits_all magnitude c listed)) digit
  rw [Invocation.restoreFrame, text, ← List.cons_append, upTo_append_absent absent]
  rfl

-- The source is empty only where the bytes are not there when it is served.
structure ServesRecord (located served : World) (row : Row) (source : DataSource) : Prop where
  mime : source.mime = row.mime
  payload : (served.recordBytes row.id = none ∧ source.payload = .memory []) ∨
    (∃ data hash, located.db.rowContent row.id = some (row.mime, some data, hash) ∧
      source.payload = .memory data) ∨
    ∃ hash, row.hash = some hash ∧ row.content = .null ∧ row.isChunked = false ∧
      source.payload = .file hash

section
variable {sha3 : Bytes → Bytes} {located served : World} {state : WaylandState}
  {conn : Connection} {id : Int} {source : DataSource}

theorem restoreAcross_source
    (current : (restoreAcross sha3 located served state conn id).1.currentSource = some source) :
    state.currentSource = some source ∨ ∃ mime location,
      located.location id = some (mime, location) ∧ source.mime = mime ∧
        source.payload = location.served served := by
  cases found : located.location id with
  | none =>
      rw [restoreAcross_unlocated found] at current
      exact .inl current
  | some place =>
      obtain ⟨mime, location⟩ := place
      cases manages : state.manager with
      | none =>
          rw [restoreAcross_unmanaged manages] at current
          exact .inl current
      | some manager =>
          rw [restoreAcross_located manages found] at current
          refine .inr ⟨mime, location, rfl, ?_⟩
          cases current
          exact ⟨rfl, rfl⟩

/-- Whatever the daemon serves for an id is the record that it located. -/
theorem restoreAcross_serves (late : Continues located.db served.db)
    (current : (restoreAcross sha3 located served state conn id).1.currentSource = some source) :
    state.currentSource = some source ∨
      ∃ row ∈ located.db.clipboard, row.id = id ∧ ServesRecord located served row source := by
  refine (restoreAcross_source current).imp_right ?_
  rintro ⟨mime, location, found, sameMime, samePayload⟩
  unfold World.location at found
  obtain ⟨row, foundRow, hashed⟩ := Option.bind_eq_some_iff.mp found
  obtain ⟨hash, named, place⟩ := Option.map_eq_some_iff.mp hashed
  obtain ⟨present, rfl⟩ := Db.rowById_eq_some.mp foundRow
  obtain ⟨rfl, rfl⟩ := Prod.ext_iff.mp place
  refine ⟨row, present, rfl, sameMime, ?_⟩
  rw [samePayload]
  split
  · rename_i inline
    change (_ ∧ Payload.memory ((served.recordBytes row.id).getD []) = _) ∨ _
    cases left : served.db.rowById row.id with
    | none =>
        have gone : served.recordBytes row.id = none := by
          simp only [World.recordBytes, Db.rowContent, left]
        exact .inl ⟨gone, by rw [gone]; rfl⟩
    | some last =>
        have reads : served.db.rowContent row.id = located.db.rowContent row.id :=
          late.rowContent (located.db.idsIssued row present).2 (by rw [left]; rfl)
        have kept : served.recordBytes row.id = none ∨ ∃ data,
            located.db.rowContent row.id = some (row.mime, some data, hash) ∧
              served.recordBytes row.id = some data := by
          rw [World.recordBytes, reads, Db.rowContent, foundRow]
          simp only [named]
          cases chunked : row.isChunked with
          | true => cases located.db.reassembled row <;> simp
          | false =>
              have stored : row.content ≠ .null := by simpa [chunked] using inline
              cases content : row.content with
              | null => exact absurd content stored
              | _ => simp [Value.bytes?]
        rcases kept with gone | ⟨data, content, bytes⟩
        · exact .inl ⟨gone, by rw [gone]; rfl⟩
        · refine .inr (.inl ⟨data, hash, content, ?_⟩)
          change Payload.memory ((served.recordBytes row.id).getD []) = Payload.memory data
          rw [bytes]
          rfl
  · rename_i detached
    have plain : row.content = .null ∧ row.isChunked = false := by simpa using detached
    exact .inr (.inr ⟨hash, named, plain.1, plain.2, rfl⟩)

end

def DecodesTo (frame : Bytes) (command : Option Command) : Prop :=
  ∀ reads, Delivers reads frame → ∀ status, (acceptAndDispatch (some reads) status).1 = command

theorem restoreFrame_decodes {id : Int} (positive : 0 ≤ id) :
    DecodesTo (Invocation.restoreFrame id) ((I64.checked id).map .restore) := by
  intro reads delivers status
  rw [dispatched delivers, restoreFrame_upTo positive, decode_restoreFrame positive]

theorem signal_decodes {subcommand : Subcommand} {command : Command}
    (signals : subcommand.signals = some command) : DecodesTo command.frame (some command) := by
  intro reads delivers status
  rw [dispatched delivers, command.frame_upTo, command.decode_frame, if_neg]
  rintro rfl
  cases subcommand <;> cases signals

section
variable (run : Invocation) (args : List Str)

inductive Means (made : List Made) (row : Row) : Prop where
  | target : Runs args .copyTo → Intended run args made row → Means made row
  | stored {buffer} : Runs args .store → GivenIn made buffer →
      row.hash = some (toHex (run.sha3 buffer.bytes)) → Means made row

-- What a restore of the id does once the frame is sent, whenever it looks the row up and whenever
-- it reads it: it leaves the selection, or serves a record that is meant.
def ServedLater (left : World) (id : Int) (meant : Row → Prop) : Prop :=
  ∀ located served, Elsewhere run.sha3 left located → Elsewhere run.sha3 located served →
    ∀ state conn source,
      (restoreAcross run.sha3 located served state conn id).1.currentSource = some source →
      state.currentSource = some source ∨
        ∃ row ∈ located.db.clipboard, row.id = id ∧ meant row ∧
          ServesRecord located served row source

inductive Conveyed (made : List Made) (left : World) (frame : Bytes) : Prop where
  | signal {subcommand command} : Runs args subcommand → subcommand.signals = some command →
      DecodesTo frame (some command) → Conveyed made left frame
  | restore {id} : DecodesTo frame ((I64.checked id).map .restore) →
      ServedLater run left id (Means run args made) → Conveyed made left frame

structure Conveys (made : List Made) : Prop where
  once : (made.filter fun entry => entry.call.sends).length ≤ 1
  conveyed : ∀ frame met answer left, ⟨.writeAll frame, met, answer, left⟩ ∈ made →
    Conveyed run args made left frame

end

section
variable {run : Invocation} {args : List Str} {made : List Made} {start met left : World}
  {id : Int}

theorem Designates.nonneg {seen : Db} (designates : Designates run args seen id) : 0 ≤ id := by
  obtain ⟨input, shown, tie, resolved⟩ := designates
  cases byId : (ArgContext.parse args).useId with
  | false =>
      obtain ⟨row, present, rfl⟩ := Designates.listed ⟨input, shown, tie, resolved⟩ byId
      exact (Int.zero_lt_one.trans_le (seen.idsIssued row present).1).le
  | true =>
      unfold resolveTargetId at resolved
      rw [byId] at resolved
      split at resolved
      · cases resolved
      · split at resolved
        · cases resolved
        · rename_i positive
          cases resolved
          exact Int.not_lt.mp positive

theorem Targets.nonneg (targets : Targets run args made id) : 0 ≤ id := by
  cases targets with
  | spelled _ designates => exact (designates Db.empty).nonneg
  | listed _ _ designates => exact designates.nonneg

/-- The row whose id an upsert returns has the hash that was inserted. -/
theorem Upserted.named {sha3 : Bytes → Bytes} {db after : Db} {now : Int} {tie : TieOrder}
    {mime hash : Str} {body : Body} {maxHistory : UInt64} {outcome : UpsertOutcome}
    (upserted : Upserted sha3 db now tie mime body hash maxHistory outcome after) {row : Row}
    (member : row ∈ after.clipboard) (same : row.id = outcome.realId) : row.hash = some hash := by
  obtain ⟨placed, places, _, _, rfl⟩ := upserted
  have present := (mem_rotated.mp member).1
  have issued := places.id_eq
  rw [places.clipboard] at present
  unfold placedRows at present
  unfold placedId at issued
  cases found : db.rowByHash hash with
  | some old =>
      obtain ⟨listed, hashed⟩ := Db.rowByHash_eq_some.mp found
      rw [found] at present issued
      obtain ⟨before, there, rfl⟩ := List.mem_map.mp present
      have touched := SameRecord.touch now old.id before
      have one : before = old :=
        Db.eq_of_id there listed (touched.id.symm.trans (same.trans issued))
      rw [touched.hash, one, hashed]
  | none =>
      rw [found] at present issued
      rcases List.mem_append.mp present with listed | new
      · have before := (db.idsIssued row listed).2
        have fresh : row.id = db.sequence + 1 := same.trans issued
        omega
      · rw [List.mem_singleton.mp new]
        rfl

theorem UpsertEffect.stored {db after : Db} {now : Int} {tie : TieOrder} {mime hash : Str}
    {body : Body} {maxHistory : UInt64} {outcome : UpsertOutcome} {sha3 : Bytes → Bytes}
    (effect : UpsertEffect sha3 db now tie mime body hash maxHistory (.ok outcome) after)
    (positive : 0 ≤ outcome.realId) :
    outcome.realId ≤ after.sequence ∧
      ∀ row ∈ after.clipboard, row.id = outcome.realId → row.hash = some hash := by
  unfold UpsertEffect at effect
  split at effect
  · obtain ⟨same, _⟩ := effect
    cases same
    exact absurd positive (by decide)
  · rcases effect with ⟨_, refused, _⟩ | ⟨_, same, upserted⟩
    · cases refused
    · cases same
      refine ⟨?_, fun row member same => upserted.named member same⟩
      obtain ⟨placed, places, _, _, rfl⟩ := upserted
      rw [rotated_sequence, places.sequence_eq, places.id_eq]
      exact le_max_right _ _

theorem ServedLater.of_rows {meant : Row → Prop} (sound : Sound run.sha3 left.db)
    (means : ∀ later : Db, Continues left.db later → ∀ row ∈ later.clipboard, row.id = id →
      meant row) : ServedLater run left id meant := by
  intro located served looked read state conn source current
  obtain ⟨soundLocated, early⟩ := looked.continues sound
  obtain ⟨_, late⟩ := read.continues soundLocated
  refine (restoreAcross_serves late current).imp_right ?_
  rintro ⟨row, present, named, serves⟩
  exact ⟨row, present, named, means located.db early row present named, serves⟩

/-- Whoever has the id that an insertion returned holds the digest of what was inserted. -/
theorem StoredAs.means {buffer : Slice} {world : World} (runs : Runs args .store)
    (stored : StoredAs run args made buffer id) (log : Log run args start made world)
    (sound : Sound run.sha3 start.db) {later : Db} (since : Continues world.db later) {row : Row}
    (present : row ∈ later.clipboard) (named : row.id = id) : Means run args made row := by
  obtain ⟨given, positive, met, left, outcome, rfl, listed⟩ := stored
  obtain ⟨before, rest, split⟩ := List.append_of_mem listed
  obtain ⟨_, _, _, answers, _⟩ := log.split split
  obtain ⟨db, effect, same⟩ := answers.store
  obtain ⟨issued, hashed⟩ := UpsertEffect.stored effect positive
  have continues : Continues left.db later := ((log.continues sound).2 _ listed).2.trans since
  have kept : left.db = db := congrArg World.db same
  rw [kept] at continues
  rcases continues.rows row present with ⟨old, there, record, _⟩ | new
  · exact .stored runs given (record.hash.trans (hashed old there (record.id.symm.trans named)))
  · omega

theorem Means.mono {after : List Made} {row : Row} (means : Means run args made row)
    (subset : made ⊆ after) : Means run args after row := by
  cases means with
  | target runs named => exact .target runs (named.mono subset)
  | stored runs given hashed => exact .stored runs (given.mono subset) hashed

theorem ServedLater.mono {first second : Row → Prop} (served : ServedLater run left id first)
    (weaker : ∀ row, first row → second row) : ServedLater run left id second := by
  intro located after looked read state conn source current
  refine (served located after looked read state conn source current).imp_right ?_
  rintro ⟨row, present, named, meant, serves⟩
  exact ⟨row, present, named, weaker row meant, serves⟩

theorem Conveyed.mono {after : List Made} {frame : Bytes}
    (conveyed : Conveyed run args made left frame) (subset : made ⊆ after) :
    Conveyed run args after left frame := by
  cases conveyed with
  | signal runs signals decodes => exact .signal runs signals decodes
  | restore decodes served => exact .restore decodes (served.mono fun row means => means.mono subset)

/-- What a frame means where it is sent. -/
theorem Due.conveyed {frame : Bytes} {past : World} (due : Due run args made (.writeAll frame))
    (log : Log run args start made past) (sound : Sound run.sha3 start.db)
    (elsewhere : Elsewhere run.sha3 past left) : Conveyed run args made left frame := by
  obtain ⟨soundPast, continues⟩ := log.continues sound
  obtain ⟨soundLeft, since⟩ := elsewhere.continues soundPast
  cases due with
  | quiet quiet => cases quiet
  | restores runs targets =>
      refine .restore (restoreFrame_decodes targets.nonneg) (.of_rows soundLeft ?_)
      rintro later onwards row present rfl
      exact .target runs (targets.intended
        (fun entry looked => ((continues entry looked).1.trans since).trans onwards) present)
  | synchronises runs stored =>
      refine .restore (restoreFrame_decodes stored.2.1) (.of_rows soundLeft ?_)
      exact fun later onwards row present named =>
        stored.means runs log sound (since.trans onwards) present named
  | signals runs signals => exact .signal runs signals (signal_decodes signals)

theorem Log.conveys {world : World} (log : Log run args start made world)
    (sound : Sound run.sha3 start.db) : Conveys run args made where
  once := log.once fun due => due.unsent
  conveyed := by
    intro frame met answer left member
    obtain ⟨before, rest, split⟩ := List.append_of_mem member
    obtain ⟨past, early, elsewhere, answers, due⟩ := log.split split
    obtain rfl : left = met := answers
    exact (due.conveyed early sound elsewhere).mono (split ▸ List.subset_append_left _ _)

end

/-- From a command line to the clipboard, whatever other processes do meanwhile: a command sends at
most one frame, the daemon decodes it as it was meant however it is split, and a restore that it
asks for serves nothing but the record that the command line meant. -/
theorem handleCommand_conveys (run : Invocation) (args : List Str) (past : List Attempt)
    (start : World) (reached : start.db = runStore run.sha3 past Db.empty) :
    (run.handleCommand args).Ensures (CliCall.May run.sha3)
      (fun after => Conveys run args after.made) (fun _ after => Conveys run args after.made)
      ⟨start, []⟩ := by
  have sound : Sound run.sha3 start.db := by
    rw [reached]
    exact reached_sound run.sha3 past
  have conveys : ∀ after, Logged run args start after → Conveys run args after.made :=
    fun after log => log.conveys sound
  have ends := (handleCommand_concludes run args start).mono fun _ after ended =>
    conveys after ended.1
  exact Program.Ensures.weaken ends conveys

theorem handleCommand_conveys_sample :
    let past : List Attempt := [⟨textInsert 1000 256, .none⟩]
    let args := ["y4p".toList, "copy-to".toList, "0".toList]
    (sampleRun.handleCommand args).Ensures (CliCall.May sampleSha3)
      (fun after => Conveys sampleRun args after.made)
      (fun _ after => Conveys sampleRun args after.made)
      ⟨{ World.empty with db := runStore sampleSha3 past Db.empty }, []⟩ :=
  handleCommand_conveys sampleRun _ _ _ rfl

end Y4p
