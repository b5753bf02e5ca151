import Y4p.Storage.Roads

/-!
Rows and files after the daemon and the CLI have both finished, in every order of
their calls.
-/

namespace Y4p

open Programs

-- The CLI does anything but spool; its `insert_raw` is `insert_with_hash` of the digest.
def FacadeOp.ofCli : FacadeOp → Prop
  | .insertSpooled .. => False
  | _ => True

abbrev Processes : Type := Pair Call Call.Answer Unit (World × Nat)

section
variable (sha3 : Bytes → Bytes)

def started (daemon cli : List FacadeOp) : Processes where
  first := session sha3 daemon
  second := session sha3 cli
  state := (World.empty, 0)

def PlacesOk (environment : Environment) (turn : Turn) (pair : Processes) : Prop :=
  ∀ request next, pair.mover turn = .call request next →
    request.PlacedOk (Call.step sha3 environment request pair.state).1

end

def TurnOrderly (turn : Turn) (pair : Processes) : Prop :=
  ∀ request next, pair.mover turn = .call request next →
    Orderly (pair.partner turn) pair.state.1 request

def Call.spools : Call → Bool
  | .spool .. | .openSpool _ => true
  | _ => false

section
variable (sha3 : Bytes → Bytes) (pool : Set Bytes)

structure Shared (pair : Processes) : Prop where
  coherent : Coherent sha3 pool pair.first pair.second pair.state.1
  spooler : ∃ files, Proper sha3 pool files pair.first ∧
    ∀ source data, pair.state.1.spool source = some data → files source = some data
  other : ∀ files, Proper sha3 pool files pair.second
  spoolless : pair.second.Issues fun call => call.spools = false

end

section
variable {sha3 : Bytes → Bytes} {pool : Set Bytes} {sql : Nat → WriteFaults}

theorem reliable_may (request : Call) (state : World × Nat) :
    request.May sha3 (fun _ _ _ => False) state.1
      (Call.step sha3 (.reliable sql) request state).1
      (Call.step sha3 (.reliable sql) request state).2.1 :=
  Call.step_may fun failure hit => by cases hit

theorem Call.May.credible {request : Call} {world after : World} {answer : request.Answer}
    {files : SpoolFiles} (may : request.May sha3 (fun _ _ _ => False) world answer after)
    (bound : ∀ source data, world.spool source = some data → files source = some data) :
    Plausible files request answer := by
  rcases may with ⟨_, ran⟩ | ⟨_, failed, _⟩
  · cases request with
    | openSpool source =>
        intro handle opened
        exact bound source handle ((Call.run_openSpool ran).1 handle opened)
    | readHandle handle limit =>
        intro data read
        cases ran
        cases read
        rfl
    | _ => trivial
  · exact failed.elim

theorem SpoolFiles.after_of_not_spools {files : SpoolFiles} {request : Call}
    (spoolless : request.spools = false) : files.after request = files := by
  cases request with
  | spool source data => cases spoolless
  | _ => rfl

/-- A program that spools nothing is proper whatever the spool holds, and stays so. -/
theorem Proper.spoolless {request : Call} {next : request.Answer → Io Unit}
    (proper : ∀ files, Proper sha3 pool files (.call request next)) (spoolless : request.spools = false)
    {world after : World} {answer : request.Answer}
    (may : request.May sha3 (fun _ _ _ => False) world answer after) :
    ∀ files, Proper sha3 pool files (next answer) := by
  intro files
  have follows := (proper files).2 answer (by
    cases request with
    | openSpool source => cases spoolless
    | readHandle handle limit => exact may.credible (fun _ _ found => found)
    | _ => trivial)
  change Proper sha3 pool (files.after request) _ at follows
  rw [SpoolFiles.after_of_not_spools spoolless] at follows
  exact follows

theorem Shared.takeFirst {pair : Processes} (shared : Shared sha3 pool pair)
    (placed : PlacesOk sha3 (.reliable sql) .first pair) (orderly : TurnOrderly .first pair) :
    Shared sha3 pool (pair.take (Call.step sha3 (.reliable sql)) .first) := by
  obtain ⟨first, second, state⟩ := pair
  obtain ⟨files, proper, bound⟩ := shared.spooler
  cases first with
  | ret value => exact shared
  | call request next =>
      obtain ⟨⟨justified, earned⟩, follows⟩ := proper
      have may := @reliable_may sha3 sql request state
      exact ⟨shared.coherent.turn justified earned bound may (placed request next rfl)
        (orderly request next rfl),
        ⟨_, follows _ (may.credible bound), may.spool_bound bound⟩, shared.other, shared.spoolless⟩

theorem Shared.takeSecond {pair : Processes} (shared : Shared sha3 pool pair)
    (placed : PlacesOk sha3 (.reliable sql) .second pair) (orderly : TurnOrderly .second pair) :
    Shared sha3 pool (pair.take (Call.step sha3 (.reliable sql)) .second) := by
  obtain ⟨first, second, state⟩ := pair
  obtain ⟨files, proper, bound⟩ := shared.spooler
  cases second with
  | ret value => exact shared
  | call request next =>
      obtain ⟨spoolless, later⟩ := shared.spoolless
      have may := @reliable_may sha3 sql request state
      obtain ⟨⟨justified, earned⟩, _⟩ := shared.other state.1.spool
      have coherent := shared.coherent.swap.turn justified earned (fun _ _ found => found) may
        (placed request next rfl) (orderly request next rfl)
      refine ⟨coherent.swap, ⟨files, proper, ?_⟩, Proper.spoolless shared.other spoolless may,
        later _⟩
      have kept := may.spool_bound bound
      rw [SpoolFiles.after_of_not_spools spoolless] at kept
      exact kept

theorem FacadeOp.ofCli_issues {op : FacadeOp} (ofCli : op.ofCli) :
    (op.program sha3).Issues fun call => call.spools = false := by
  have removes : ∀ hashes,
      (FileCache.removeMany hashes).Issues fun call => call.spools = false := by
    intro hashes
    induction hashes with
    | nil => trivial
    | cons hash rest ih => exact ⟨rfl, fun _ => ih⟩
  cases op with
  | insertWithHash now tie mime data maxHistory =>
      refine ⟨rfl, ?_⟩
      rintro (message | outcome)
      · trivial
      · apply Program.Issues.bind
        · change Program.Issues _ (if outcome.realId = -1 then _ else _)
          split
          · trivial
          · have stores : (storeIfImage outcome.isImage (toHex (sha3 data.bytes)) data.bytes).Issues
                fun call => call.spools = false := by
              cases outcome.isImage with
              | false => trivial
              | true =>
                  refine ⟨rfl, ?_⟩
                  rintro (_ | _)
                  · exact ⟨rfl, fun _ => trivial⟩
                  · trivial
            exact stores.bind fun _ => (removes _).bind fun _ => trivial
        · exact fun _ => trivial
  | deleteById id =>
      refine ⟨rfl, ?_⟩
      rintro (message | ⟨deleted, _ | hash⟩)
      · trivial
      · trivial
      · exact ⟨rfl, fun _ => trivial⟩
  | wipe =>
      refine ⟨rfl, ?_⟩
      rintro (message | _)
      · trivial
      · refine ⟨rfl, ?_⟩
        rintro (message | _)
        · trivial
        · exact ⟨rfl, fun _ => trivial⟩
  | insertSpooled now tie mime source data maxHistory => exact ofCli.elim
  | setPinById id isPinned => exact ⟨rfl, fun _ => trivial⟩
  | updateTimestamp now id => exact ⟨rfl, fun _ => trivial⟩
  | getContentById id =>
      refine ⟨rfl, ?_⟩
      rintro (_ | ⟨mime, _ | content, hash⟩)
      · trivial
      · exact ⟨rfl, fun file => by cases file <;> trivial⟩
      · trivial

theorem session_issues {ops : List FacadeOp} (ofCli : ∀ op ∈ ops, op.ofCli) :
    (session sha3 ops).Issues fun call => call.spools = false := by
  induction ops with
  | nil => trivial
  | cons op rest ih =>
      refine (FacadeOp.ofCli_issues (ofCli op List.mem_cons_self)).bind fun _ => ih ?_
      exact fun other member => ofCli other (List.mem_cons_of_mem _ member)

end

/-- If no placing of a file fails, and files are removed only when no row needs them, or the
other process is about to place them, and it relies on none of them, then every row has its
complete file once both processes have finished. -/
theorem processes_filesComplete (sha3 : Bytes → Bytes) (sql : Nat → WriteFaults)
    (daemon cli : List FacadeOp) (noCollision : Set.InjOn sha3 (sessionPool (daemon ++ cli)))
    (ofCli : ∀ op ∈ cli, op.ofCli) (schedule : List Turn)
    (finished : ((started sha3 daemon cli).run (Call.step sha3 (.reliable sql)) schedule).finished)
    (places : ∀ taken ∈ Pair.turns (Call.step sha3 (.reliable sql)) schedule
      (started sha3 daemon cli), PlacesOk sha3 (.reliable sql) taken.1 taken.2)
    (orderly : ∀ taken ∈ Pair.turns (Call.step sha3 (.reliable sql)) schedule
      (started sha3 daemon cli), TurnOrderly taken.1 taken.2) :
    FilesComplete sha3
      ((started sha3 daemon cli).run (Call.step sha3 (.reliable sql)) schedule).state.1 := by
  let pool := sessionPool (daemon ++ cli)
  have start : Shared sha3 pool (started sha3 daemon cli) := by
    refine ⟨⟨⟨fun _ => [], .empty⟩, ?_, ?_, ?_⟩, ⟨fun _ => none, ?_, ?_⟩, fun files => ?_, ?_⟩
    · intro hash file found
      cases found
    · intro row member
      exact absurd member List.not_mem_nil
    · rintro hash (relies | relies)
      · exact absurd relies (session_idle daemon hash)
      · exact absurd relies (session_idle cli hash)
    · exact session_proper fun op member data =>
        sessionPool_pooled (List.mem_append_left _ member)
    · intro source data found
      cases found
    · exact session_proper fun op member data =>
        sessionPool_pooled (List.mem_append_right _ member)
    · exact session_issues ofCli
  have kept : ∀ turn pair, Shared sha3 pool pair →
      (PlacesOk sha3 (.reliable sql) turn pair ∧ TurnOrderly turn pair) →
      Shared sha3 pool (pair.take (Call.step sha3 (.reliable sql)) turn) := by
    rintro (_ | _) pair shared ⟨placed, orderly⟩
    · exact shared.takeFirst placed orderly
    · exact shared.takeSecond placed orderly
  have shared := Pair.run_keeps kept start fun taken member =>
    ⟨places taken member, orderly taken member⟩
  obtain ⟨firstDone, secondDone⟩ := finished
  obtain ⟨payload, recorded⟩ := shared.coherent.recorded
  intro row member detached
  have keyed := recorded.keyed row member
  have found := (shared.coherent.covered row member detached _ keyed).resolve_right (by
    rintro (⟨call, isNext, _⟩ | ⟨call, isNext, _⟩)
    · rw [firstDone] at isNext
      cases isNext
    · rw [secondDone] at isNext
      cases isNext)
  obtain ⟨file, entry⟩ := Option.isSome_iff_exists.mp found
  obtain ⟨pooled, key⟩ := shared.coherent.right _ file entry
  refine ⟨_, file, keyed, entry, key.symm, ?_⟩
  have same := noCollision pooled (recorded.pooled row member) (toHex_injective key).symm
  rw [same]
  exact (recorded.sized row member).symm

def Call.isError : (call : Call) → call.Answer → Bool
  | .store (.upsert ..), .error _ | .store (.deleteById _), .error _ | .store .wipe, .error _ => true
  | .write .., .error _ | .rename .., .error _ | .copy .., .error _ | .removeSpool _, .error _
  | .remove _, .error _ | .removeDirAll, .error _ | .createDirAll, .error _ => true
  | _, _ => false

-- The CLI deletes row 1; the daemon stores the same image again and finds its file still
-- there; only then does the CLI unlink it.
def lateUnlink : List Turn :=
  [.first, .first, .first, .second, .first, .first, .second]

theorem processes_filesComplete_counterexample :
    let daemon := [sampleImageOp 1000, sampleImageOp 1001]
    let step := Call.step sampleSha3 (.reliable fun _ => .none)
    let ended := (started sampleSha3 daemon [.deleteById 1]).run step lateUnlink
    ended.finished ∧
      (∀ taken ∈ Pair.turns step lateUnlink (started sampleSha3 daemon [.deleteById 1]),
        ∀ request next, taken.2.mover taken.1 = .call request next →
          request.isError (step request taken.2.state).1 = false) ∧
      ¬ FilesComplete sampleSha3 ended.state.1 := by
  refine ⟨⟨rfl, rfl⟩, ?_, fun complete => ?_⟩
  · simp only [lateUnlink, Pair.turns, List.forall_mem_cons]
    refine ⟨?_, ?_, ?_, ?_, ?_, ?_, ?_, List.forall_mem_nil _⟩
    all_goals
      intro request next same
      cases same
      rfl
  · obtain ⟨hash, file, named, found, _⟩ := complete _ List.mem_cons_self ⟨rfl, rfl⟩
    have isHash : toHex (sampleSha3 sampleImage) = hash := Option.some.inj named
    subst isHash
    cases found

theorem processes_filesComplete_sample :
    FilesComplete sampleSha3 ((started sampleSha3 [sampleImageOp 1000] [.deleteById 1]).run
      (Call.step sampleSha3 (.reliable fun _ => .none))
      [.first, .second, .first, .first, .second]).state.1 := by
  refine processes_filesComplete sampleSha3 _ _ _ sampleSha3_injective.injOn ?_ _ ⟨rfl, rfl⟩ ?_ ?_
  · intro op member
    rw [List.mem_singleton.mp member]
    trivial
  · simp only [Pair.turns, List.forall_mem_cons]
    refine ⟨?_, ?_, ?_, ?_, ?_, List.forall_mem_nil _⟩
    all_goals
      intro request next same
      cases same
      trivial
  · simp only [Pair.turns, List.forall_mem_cons]
    refine ⟨?_, ?_, ?_, ?_, ?_, List.forall_mem_nil _⟩
    all_goals
      intro request next same
      cases same
    · trivial
    · trivial
    · trivial
    · trivial
    · exact ⟨.inl fun row member => absurd member List.not_mem_nil, fun relies => relies⟩

end Y4p
