import Y4p.Storage.TwoProcesses

/-! The programs of the facade keep the contract of a process beside another. -/

namespace Y4p

open Programs

section
variable {α β : Type} {hash : Str}

theorem next?_bind {program : Io α} {rest : α → Io β} {call : Call}
    (isNext : program.next? = some call) : (program >>= rest).next? = some call := by
  cases program with
  | ret value => cases isNext
  | call request next => exact isNext

theorem AboutToPlace.bind {program : Io α} {rest : α → Io β} (placing : AboutToPlace hash program) :
    AboutToPlace hash (program >>= rest) := by
  obtain ⟨call, isNext, prepares⟩ := placing
  exact ⟨call, next?_bind isNext, prepares⟩

theorem Relies.bind {program : Io α} {rest : α → Io β} (relies : Relies hash program) :
    Relies hash (program >>= rest) := by
  cases program with
  | ret value => exact relies.elim
  | call request next =>
      rcases relies with now | ⟨drops, answer, call, isNext, detaches⟩
      · exact .inl now
      · exact .inr ⟨drops, answer, call, next?_bind isNext, detaches⟩

def Idle (program : Io α) : Prop :=
  ∀ hash, ¬ Relies hash program

theorem Relies.of_bind {program : Io α} {rest : α → Io β} (idle : ∀ value, Idle (rest value))
    (relies : Relies hash (program >>= rest)) : Relies hash program := by
  cases program with
  | ret value => exact absurd relies (idle value hash)
  | call request next =>
      rcases relies with now | ⟨drops, answer, call, isNext, detaches⟩
      · exact .inl now
      · refine .inr ⟨drops, answer, call, ?_, detaches⟩
        change (next answer >>= rest).next? = some call at isNext
        cases shape : next answer with
        | call request next =>
            rw [shape] at isNext
            exact isNext
        | ret value =>
            rw [shape] at isNext
            change (rest value).next? = some call at isNext
            have relies : Relies hash (rest value) := by
              cases started : rest value with
              | ret other =>
                  rw [started] at isNext
                  cases isNext
              | call request next =>
                  rw [started] at isNext
                  cases isNext
                  exact .inl detaches
            exact absurd relies (idle value hash)

theorem Idle.bind {program : Io α} {rest : α → Io β} (first : Idle program)
    (idle : ∀ value, Idle (rest value)) : Idle (program >>= rest) :=
  fun hash relies => first hash (relies.of_bind idle)

theorem Idle.ret (value : α) : Idle (.ret value : Io α) :=
  fun _ => False.elim

/-- A program whose first call neither stores a detached row nor drops a spool file. -/
theorem Idle.call {request : Call} {next : request.Answer → Io α}
    (attached : ∀ hash, ¬ request.Detaches hash) (keeps : ∀ source, request ≠ .removeSpool source) :
    Idle (.call request next) := by
  rintro hash (detaches | ⟨⟨source, drops⟩, _⟩)
  · exact attached hash detaches
  · exact keeps source drops

variable {sha3 : Bytes → Bytes} {pool : Set Bytes} {files : SpoolFiles}

theorem Justified.bind {request : Call} {next : request.Answer → Io α} {rest : α → Io β}
    (justified : Justified sha3 pool files request next) :
    Justified sha3 pool files request fun answer => next answer >>= rest := by
  cases request with
  | store op =>
      cases op with
      | upsert now tie mime offer hash maxHistory =>
          cases offer with
          | record data =>
              obtain ⟨key, kept, follows⟩ := justified
              exact ⟨key, kept, fun outcome image real => (follows outcome image real).bind⟩
          | detached len => exact justified
      | updateTimestamp now id | setPinned id isPinned | deleteById id | wipe | getRowContent id
      | getRowLocation id => trivial
  | pathExists hash => exact AboutToPlace.bind justified
  | write hash data | rename source hash | copy source hash => exact justified
  | spool source data | removeSpool source | remove hash | read hash | openSpool source
  | readHandle handle limit | removeDirAll | createDirAll => trivial

theorem Proper.bind {program : Io α} {rest : α → Io β} (proper : Proper sha3 pool files program)
    (idle : ∀ value, Idle (rest value))
    (later : ∀ value files, Proper sha3 pool files (rest value)) :
    Proper sha3 pool files (program >>= rest) := by
  induction program generalizing files with
  | ret value => exact later value files
  | call request next ih =>
      obtain ⟨⟨justified, earned⟩, follows⟩ := proper
      refine ⟨⟨justified.bind, ?_⟩, fun answer credible => ih answer (follows answer credible)⟩
      intro answer hash relies
      exact (earned answer hash (relies.of_bind idle)).imp_left Relies.bind

/-- A call that promises nothing, before a program that relies on nothing. -/
theorem Proper.call {request : Call} {next : request.Answer → Io α}
    (justified : Justified sha3 pool files request next) (idle : ∀ answer, Idle (next answer))
    (later : ∀ answer, Plausible files request answer →
      Proper sha3 pool (files.after request) (next answer)) :
    Proper sha3 pool files (.call request next) :=
  ⟨⟨justified, fun answer hash relies => absurd relies (idle answer hash)⟩, later⟩

theorem remove_proper (hash : Str) : Proper sha3 pool files (FileCache.remove hash) :=
  .call trivial (fun _ => .ret _) fun _ _ => trivial

theorem remove_idle (hash : Str) : Idle (FileCache.remove hash) :=
  .call (fun _ none => none) fun _ => by simp

theorem removeMany_idle (hashes : List Str) : Idle (FileCache.removeMany hashes) := by
  cases hashes with
  | nil => exact .ret _
  | cons hash rest => exact .call (fun _ none => none) fun _ => by simp

theorem removeMany_proper (hashes : List Str) :
    Proper sha3 pool files (FileCache.removeMany hashes) := by
  induction hashes generalizing files with
  | nil => trivial
  | cons hash rest ih =>
      exact (remove_proper hash).bind (fun _ => removeMany_idle rest) fun _ _ => ih

theorem drop_proper (spooled : SpooledFile) : Proper sha3 pool files spooled.drop :=
  .call trivial (fun _ => .ret _) fun _ _ => trivial

theorem drop_idle (spooled : SpooledFile) : Idle spooled.drop := by
  rintro hash (detaches | ⟨_, _, call, isNext, _⟩)
  · exact detaches
  · cases isNext

theorem storeIfImage_idle (isImage : Bool) (hash : Str) (data : Bytes) :
    Idle (storeIfImage isImage hash data) := by
  cases isImage with
  | false => exact .ret _
  | true => exact .call (fun _ none => none) fun _ => by simp

theorem storeIfImage_proper (isImage : Bool) {hash : Str} {data : Bytes} (pooled : data ∈ pool)
    (key : hash = toHex (sha3 data)) :
    Proper sha3 pool files (storeIfImage isImage hash data) := by
  cases isImage with
  | false => trivial
  | true =>
      refine .call ⟨_, rfl, rfl⟩ ?_ ?_
      · rintro (_ | _)
        · exact .call (fun _ none => none) fun _ => by simp
        · exact .ret _
      · rintro (_ | _) _
        · exact .call ⟨pooled, key⟩ (fun _ => .ret _) fun _ _ => trivial
        · trivial

theorem insertWithHash_proper (now : Int) (tie : TieOrder) (mime : Str) {data : Slice} {hash : Str}
    (maxHistory : UInt64) (kept : Pooled pool data) (key : hash = toHex (sha3 data.bytes)) :
    Proper sha3 pool files (insertWithHash now tie mime data hash maxHistory) := by
  have files : ∀ (outcome : UpsertOutcome) (value : Int),
      Idle (do
        storeIfImage outcome.isImage hash data.bytes
        FileCache.removeMany outcome.expiredHashes
        pure (.ok value) : Io (Except String Int)) :=
    fun outcome value => (storeIfImage_idle _ _ _).bind fun _ =>
      (removeMany_idle _).bind fun _ => .ret _
  refine .call ⟨key, kept, ?_⟩ ?_ ?_
  · intro outcome image real
    change AboutToPlace hash (if outcome.realId = -1 then _ else _)
    rw [if_neg real, image]
    exact ⟨_, rfl, rfl⟩
  · rintro (message | outcome)
    · exact .ret _
    · change Idle (if outcome.realId = -1 then _ else _)
      split
      · exact .ret _
      · exact files outcome outcome.realId
  · rintro (message | outcome) _
    · trivial
    · change Proper sha3 pool _ (if outcome.realId = -1 then _ else _)
      split
      · trivial
      · refine (storeIfImage_proper _ kept.1 key).bind
          (fun _ => (removeMany_idle _).bind fun _ => .ret _) fun _ _ => ?_
        exact (removeMany_proper _).bind (fun _ => .ret _) fun _ _ => trivial

theorem insertWithHash_idle (now : Int) (tie : TieOrder) (mime : Str) (data : Slice) (hash : Str)
    (maxHistory : UInt64) : Idle (insertWithHash now tie mime data hash maxHistory) :=
  .call (fun _ none => none) fun _ => by simp

def insertChecked (now : Int) (tie : TieOrder) (mime hash : Str) (maxHistory : UInt64) :
    Except String Slice → Io (Except String Int)
  | .error message => pure (.error message)
  | .ok data => insertWithHash now tie mime data hash maxHistory

theorem insertChecked_idle (now : Int) (tie : TieOrder) (mime hash : Str) (maxHistory : UInt64)
    (checked : Except String Slice) : Idle (insertChecked now tie mime hash maxHistory checked) := by
  cases checked with
  | error message => exact .ret _
  | ok data => exact insertWithHash_idle now tie mime data hash maxHistory

theorem insertRead_proper (now : Int) (tie : TieOrder) (mime : Str) {spooled : SpooledFile}
    {data : Slice} (maxHistory : UInt64) (digest : spooled.digest = sha3 data.bytes)
    (held : files spooled.path = some data.bytes) (kept : Pooled pool data) :
    Proper sha3 pool files (insertRead now tie mime spooled maxHistory) := by
  have key : spooled.hexDigest = toHex (sha3 data.bytes) := by
    rw [← digest]
    rfl
  unfold insertRead readSpooled
  split
  · refine .call trivial ?_ ?_
    · rintro (message | handle)
      · exact .ret _
      · exact .call (fun _ none => none) fun _ => by simp
    · rintro (message | handle) opened
      · trivial
      have isData : handle = data.bytes := by
        have found := opened handle rfl
        rw [held] at found
        injection found with found
        exact found.symm
      refine .call trivial ?_ ?_
      · rintro (message | got)
        · exact .ret _
        · exact insertChecked_idle now tie mime spooled.hexDigest maxHistory (checkSpooled _ _ got)
      · rintro (message | got) read
        · trivial
        · rename_i small
          change Proper sha3 pool _ (insertChecked now tie mime spooled.hexDigest maxHistory
            (checkSpooled spooled.len small got))
          cases checked : checkSpooled spooled.len small got with
          | error message => trivial
          | ok slice =>
              obtain ⟨exact, bytes⟩ := checkSpooled_ok checked
              have whole : got = data.bytes.take (spooled.len.toNat + 1) := by
                rw [← isData]
                exact read got rfl
              have same : slice.bytes = data.bytes := by
                rw [bytes, whole]
                apply List.take_of_length_le
                rw [whole, List.length_take] at exact
                omega
              rw [Slice.eq_of_bytes same]
              exact insertWithHash_proper now tie mime maxHistory kept key
  · trivial

theorem insertRead_idle (now : Int) (tie : TieOrder) (mime : Str) (spooled : SpooledFile)
    (maxHistory : UInt64) : Idle (insertRead now tie mime spooled maxHistory) := by
  unfold insertRead readSpooled
  split
  · exact .call (fun _ none => none) fun _ => by simp
  · exact .ret _

theorem upsertAdopted_relies {now : Int} {tie : TieOrder} {mime : Str} {spooled : SpooledFile}
    {adoption : FileCache.Adoption} {maxHistory : UInt64}
    (relies : Relies hash (upsertAdopted now tie mime spooled adoption maxHistory)) :
    spooled.hexDigest = hash := by
  rcases relies with same | ⟨⟨_, impossible⟩, _⟩
  · exact same
  · cases impossible

theorem upsertAdopted_proper (now : Int) (tie : TieOrder) (mime : Str) {spooled : SpooledFile}
    (adoption : FileCache.Adoption) {data : Slice} (maxHistory : UInt64)
    (digest : spooled.digest = sha3 data.bytes) (len : spooled.len.toNat = data.bytes.length)
    (kept : Pooled pool data) :
    Proper sha3 pool files (upsertAdopted now tie mime spooled adoption maxHistory) := by
  refine .call ⟨data, kept, len, ?_⟩ ?_ ?_
  · rw [← digest]
    rfl
  · rintro (message | outcome)
    · cases adoption with
      | placed => exact (remove_idle _).bind fun _ => .ret _
      | present => exact .ret _
    · exact (removeMany_idle _).bind fun _ => .ret _
  · rintro (message | outcome) _
    · cases adoption with
      | placed => exact (remove_proper _).bind (fun _ => .ret _) fun _ _ => trivial
      | present => trivial
    · exact (removeMany_proper _).bind (fun _ => .ret _) fun _ _ => trivial

/-- Dropping the spool file keeps relying on the cache entry until the row is committed. -/
theorem dropThenUpsert_relies {now : Int} {tie : TieOrder} {mime : Str} {spooled : SpooledFile}
    {source : SpoolPath} {maxHistory : UInt64} {adoption : FileCache.Adoption}
    (relies : Relies hash (do
      let _ ← Program.ask (Call.removeSpool source)
      upsertAdopted now tie mime spooled adoption maxHistory : Io (Except String Int))) :
    spooled.hexDigest = hash := by
  rcases relies with impossible | ⟨_, _, call, isNext, detaches⟩
  · exact impossible.elim
  · cases isNext
    exact detaches

theorem not_relies {α : Type} {request : Call} {next : request.Answer → Io α} {hash : Str}
    (other : ∀ source, request ≠ .removeSpool source) (keeps : ¬ request.Detaches hash) :
    ¬ Relies hash (.call request next) := by
  rintro (detaches | ⟨⟨source, same⟩, _⟩)
  · exact keeps detaches
  · exact other source same

theorem dropThenUpsert_proper {now : Int} {tie : TieOrder} {mime : Str} {spooled : SpooledFile}
    {source : SpoolPath} {maxHistory : UInt64} {adoption : FileCache.Adoption}
    (upsert : ∀ files,
      Proper sha3 pool files (upsertAdopted now tie mime spooled adoption maxHistory)) :
    Proper sha3 pool files (do
      let _ ← Program.ask (Call.removeSpool source)
      upsertAdopted now tie mime spooled adoption maxHistory : Io (Except String Int)) := by
  refine ⟨⟨trivial, ?_⟩, fun _ _ => upsert files⟩
  intro answer name relies
  have same := upsertAdopted_relies relies
  exact .inl (.inr ⟨⟨source, rfl⟩, answer, _, rfl, same⟩)

theorem insertAdopted_proper (now : Int) (tie : TieOrder) (mime : Str) {spooled : SpooledFile}
    {data : Slice} (maxHistory : UInt64) (digest : spooled.digest = sha3 data.bytes)
    (len : spooled.len.toNat = data.bytes.length)
    (held : files spooled.path = some data.bytes) (kept : Pooled pool data) :
    Proper sha3 pool files (insertAdopted now tie mime spooled maxHistory) := by
  have upsert : ∀ adoption files,
      Proper sha3 pool files (upsertAdopted now tie mime spooled adoption maxHistory) :=
    fun adoption _ => upsertAdopted_proper now tie mime adoption maxHistory digest len kept
  have right : ∀ file, files spooled.path = some file →
      file ∈ pool ∧ spooled.hexDigest = toHex (sha3 file) := by
    intro file found
    rw [held] at found
    injection found with found
    rw [← found, ← digest]
    exact ⟨kept.1, rfl⟩
  have failed : ∀ (message : String), Idle (do
      spooled.drop
      pure (.error message) : Io (Except String Int)) :=
    fun message => (drop_idle spooled).bind fun _ => .ret _
  refine ⟨⟨⟨_, rfl, rfl⟩, ?_⟩, ?_⟩
  · rintro (_ | _) name relies
    · exact absurd relies (not_relies nofun id)
    · exact .inr ⟨rfl, dropThenUpsert_relies relies⟩
  rintro (_ | _) _
  · refine ⟨⟨right, ?_⟩, ?_⟩
    · rintro (message | _) name relies
      · exact absurd relies (not_relies nofun id)
      · exact .inr ⟨rfl, upsertAdopted_relies relies⟩
    · rintro (message | _) _
      · refine ⟨⟨right, ?_⟩, ?_⟩
        · rintro (message | _) name relies
          · exact absurd relies (not_relies nofun id)
          · exact .inr ⟨rfl, dropThenUpsert_relies relies⟩
        · rintro (message | _) _
          · refine Proper.call trivial (fun _ => failed _) fun _ _ => ?_
            exact (drop_proper spooled).bind (fun _ => .ret _) fun _ _ => trivial
          · exact dropThenUpsert_proper (upsert .placed)
      · exact upsert .placed _
  · exact dropThenUpsert_proper (upsert .present)

theorem insertAdopted_idle (now : Int) (tie : TieOrder) (mime : Str) (spooled : SpooledFile)
    (maxHistory : UInt64) : Idle (insertAdopted now tie mime spooled maxHistory) :=
  .call (fun _ none => none) fun _ => by simp

theorem insertSpooled_proper (now : Int) (tie : TieOrder) (mime : Str) {spooled : SpooledFile}
    {data : Slice} (maxHistory : UInt64) (digest : spooled.digest = sha3 data.bytes)
    (len : spooled.len.toNat = data.bytes.length)
    (held : files spooled.path = some data.bytes) (kept : Pooled pool data) :
    Proper sha3 pool files (insertSpooled now tie mime spooled maxHistory) := by
  unfold insertSpooled
  split
  · exact (drop_proper spooled).bind (fun _ => .ret _) fun _ _ => trivial
  · split
    · refine (insertRead_proper now tie mime maxHistory digest held kept).bind
        (fun _ => (drop_idle spooled).bind fun _ => .ret _) fun _ _ => ?_
      exact (drop_proper spooled).bind (fun _ => .ret _) fun _ _ => trivial
    · exact insertAdopted_proper now tie mime maxHistory digest len held kept

theorem insertSpooled_idle (now : Int) (tie : TieOrder) (mime : Str) (spooled : SpooledFile)
    (maxHistory : UInt64) : Idle (insertSpooled now tie mime spooled maxHistory) := by
  unfold insertSpooled
  split
  · exact (drop_idle spooled).bind fun _ => .ret _
  · split
    · exact (insertRead_idle _ _ _ _ _).bind fun _ => (drop_idle spooled).bind fun _ => .ret _
    · exact insertAdopted_idle _ _ _ _ _

theorem FacadeOp.idle (op : FacadeOp) {rest : Unit → Io Unit} :
    Idle (op.program sha3 >>= rest) := by
  cases op <;> exact .call (fun _ none => none) fun _ => by simp

theorem FacadeOp.proper (op : FacadeOp)
    (kept : ∀ data, op.payload = some data → Pooled pool data) :
    Proper sha3 pool files (op.program sha3) := by
  cases op with
  | insertWithHash now tie mime data maxHistory =>
      exact (insertWithHash_proper now tie mime maxHistory (kept data rfl) rfl).bind
        (fun _ => .ret _) fun _ _ => trivial
  | insertSpooled now tie mime source data maxHistory =>
      have fits := data.fits
      have size : UInt64.size = 2 ^ 64 := rfl
      have len : (FacadeOp.spooledFile sha3 source data).len.toNat = data.bytes.length :=
        UInt64.toNat_ofNat_of_lt' (by omega)
      refine .call trivial (fun _ => ?_) fun _ _ => ?_
      · exact (insertSpooled_idle _ _ _ _ _).bind fun _ => .ret _
      · refine (insertSpooled_proper now tie mime maxHistory rfl len ?_ (kept data rfl)).bind
          (fun _ => .ret _) fun _ _ => trivial
        exact Function.update_self source (some data.bytes) files
  | deleteById id =>
      refine .call trivial ?_ ?_
      · rintro (message | ⟨deleted, _ | hash⟩)
        · exact .ret _
        · exact .ret _
        · exact (remove_idle hash).bind fun _ => .ret _
      · rintro (message | ⟨deleted, _ | hash⟩) _
        · trivial
        · trivial
        · exact (remove_proper hash).bind (fun _ => .ret _) fun _ _ => trivial
  | wipe =>
      refine .call trivial ?_ ?_
      · rintro (message | _)
        · exact .ret _
        · exact .call (fun _ none => none) fun _ => by simp
      · rintro (message | _) _
        · trivial
        · refine .call trivial ?_ ?_
          · rintro (message | _)
            · exact .ret _
            · exact .call (fun _ none => none) fun _ => by simp
          · rintro (message | _) _
            · trivial
            · exact .call trivial (fun _ => .ret _) fun _ _ => trivial
  | setPinById id isPinned => exact .call trivial (fun _ => .ret _) fun _ _ => trivial
  | updateTimestamp now id => exact .call trivial (fun _ => .ret _) fun _ _ => trivial
  | getContentById id =>
      refine .call trivial ?_ ?_
      · rintro (_ | ⟨mime, _ | data, hash⟩)
        · exact .ret _
        · exact .call (fun _ none => none) fun _ => by simp
        · exact .ret _
      · rintro (_ | ⟨mime, _ | data, hash⟩) _
        · trivial
        · exact .call trivial (fun _ => .ret _) fun _ _ => trivial
        · trivial

theorem session_idle (ops : List FacadeOp) : Idle (session sha3 ops) := by
  cases ops with
  | nil => exact .ret _
  | cons op rest => exact op.idle

theorem session_proper {ops : List FacadeOp}
    (kept : ∀ op ∈ ops, ∀ data, op.payload = some data → Pooled pool data) :
    Proper sha3 pool files (session sha3 ops) := by
  induction ops generalizing files with
  | nil => trivial
  | cons op rest ih =>
      refine (op.proper (kept op List.mem_cons_self)).bind (fun _ => session_idle rest) ?_
      exact fun _ _ => ih fun other member => kept other (List.mem_cons_of_mem _ member)

end

end Y4p
