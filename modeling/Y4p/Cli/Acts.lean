import Y4p.Cli.Commands
import Y4p.Storage.Identity

/-!
What a command line does to the store and sends to the daemon, while the daemon and other commands
go on using the store: its calls are logged, and each of them is due by what came before it.
-/

namespace Y4p

open Programs

-- Other processes run operations on the store, and do what they like with the files.
def Elsewhere (sha3 : Bytes → Bytes) (world after : World) : Prop :=
  ∃ attempts : List Attempt, after.db = runStore sha3 attempts world.db

theorem Elsewhere.continues {sha3 : Bytes → Bytes} {world after : World}
    (elsewhere : Elsewhere sha3 world after) (sound : Sound sha3 world.db) :
    Sound sha3 after.db ∧ Continues world.db after.db := by
  obtain ⟨attempts, ran⟩ := elsewhere
  rw [ran]
  exact ⟨runStore_sound attempts sound, runStore_continues attempts sound⟩

-- A listing that fails on its way ends early.
def CliCall.Answers (sha3 : Bytes → Bytes) :
    (call : CliCall) → World → call.Answer → World → Prop
  | .storage call, world, answer, after => call.May sha3 (fun _ _ _ => True) world answer after
  | .fetchMetadata limit, world, answer, after =>
      (∃ tie, answer <+: fetchMetadataUpTo tie world.db limit) ∧ after = world
  | _, world, _, after => after = world

structure Made where
  call : CliCall
  met : World
  answer : call.Answer
  left : World

structure Scene where
  world : World
  made : List Made

def CliCall.May (sha3 : Bytes → Bytes) (call : CliCall) (scene : Scene) (answer : call.Answer)
    (after : Scene) : Prop :=
  ∃ met left, Elsewhere sha3 scene.world met ∧ call.Answers sha3 met answer left ∧
    after = ⟨left, scene.made ++ [⟨call, met, answer, left⟩]⟩

def CliCall.writes : CliCall → Bool
  | .storage (.store (.getRowContent _)) | .storage (.store (.getRowLocation _)) => false
  | .storage (.store _) => true
  | _ => false

def CliCall.sends : CliCall → Bool
  | .writeAll _ => true
  | _ => false

def Unwritten (made : List Made) : Prop :=
  ∀ entry ∈ made, entry.call.writes = false

def Unsent (made : List Made) : Prop :=
  ∀ entry ∈ made, entry.call.sends = false

def CliCall.Quiet : CliCall → Prop
  | .storage (.store (.getRowContent _)) => True
  | .storage (.store _) | .writeAll _ => False
  | _ => True

theorem CliCall.Quiet.silent {call : CliCall} (quiet : call.Quiet) :
    call.writes = false ∧ call.sends = false := by
  cases call with
  | writeAll frame => cases quiet
  | storage request =>
      cases request with
      | store op =>
          cases op with
          | getRowContent id => exact ⟨rfl, rfl⟩
          | _ => cases quiet
      | _ => exact ⟨rfl, rfl⟩
  | _ => exact ⟨rfl, rfl⟩

def subcommandOf (args : List Str) : Option Subcommand :=
  if args.length < 2 ∨ hasFlag args "--help".toList "-h".toList ∨
      hasFlag args "--version".toList "-V".toList ∨ isOption (args.getD 1 []) then none
  else subcommands.lookup (args.getD 1 [])

def Subcommand.Accepts : Subcommand → ArgContext → Prop
  | .delete, ctx | .pin, ctx | .unpin, ctx =>
      ctx.unknownFlags = [] ∧ (ctx.raw || ctx.full || ctx.force || ctx.verbose) = false
  | .copyTo, ctx => ctx.unknownFlags = [] ∧ (ctx.raw || ctx.full || ctx.force) = false
  | .store, ctx =>
      ctx.unknownFlags = [] ∧ (ctx.raw || ctx.full || ctx.force) = false ∧
        ctx.positionals.length ≤ 1
  | .wipe, ctx =>
      ctx.unknownFlags = [] ∧ (ctx.raw || ctx.full || ctx.verbose) = false ∧
        ctx.positionals = [] ∧ ctx.force = true
  | _, ctx =>
      ctx.unknownFlags = [] ∧
        (ctx.raw || ctx.full || ctx.force || ctx.verbose || ctx.useId) = false ∧
        ctx.positionals = []

def Subcommand.signals : Subcommand → Option Command
  | .status => some .status
  | .pause => some .pause
  | .resume => some .resume
  | _ => none

def Invocation.storing (run : Invocation) (args : List Str) (buffer : Slice) : StoreOp :=
  .upsert run.now run.tie ((ArgContext.parse args).positionals.head?.getD defaultMime)
    (.record buffer) (toHex (run.sha3 buffer.bytes)) run.maxHistory

section
variable (run : Invocation) (args : List Str)

def Runs (subcommand : Subcommand) : Prop :=
  subcommandOf args = some subcommand ∧ subcommand.Accepts (ArgContext.parse args)

def Designates (seen : Db) (id : Int) : Prop :=
  let ctx := ArgContext.parse args
  ∃ input, ctx.positionals.head? = some input ∧
    ∃ tie, resolveTargetId tie run.maxHistory input ctx.useId seen = .ok id

-- The id that is spelled, or the one listed at the index when the command looked.
inductive Targets (made : List Made) (id : Int) : Prop where
  | spelled : (ArgContext.parse args).useId = true → (∀ seen, Designates run args seen id) →
      Targets made id
  | listed {seen answer left} : (ArgContext.parse args).useId = false →
      ⟨.fetchMetadata run.maxHistory, seen, answer, left⟩ ∈ made →
      Designates run args seen.db id → Targets made id

def GivenIn (made : List Made) (buffer : Slice) : Prop :=
  ∃ met left, ⟨.readStdin, met, some buffer, left⟩ ∈ made

def StoredAs (made : List Made) (buffer : Slice) (id : Int) : Prop :=
  GivenIn made buffer ∧ 0 ≤ id ∧ ∃ met left, ∃ outcome : UpsertOutcome, outcome.realId = id ∧
    ⟨.storage (.store (run.storing args buffer)), met, .ok outcome, left⟩ ∈ made

-- What a command line calls for, once it has made these calls.
inductive Due (made : List Made) : CliCall → Prop where
  | quiet {call} : call.Quiet → Due made call
  | deletes {id} : Runs args .delete → Targets run args made id → Unwritten made →
      Due made (.storage (.store (.deleteById id)))
  | pins {id} : Runs args .pin → Targets run args made id → Unwritten made →
      Due made (.storage (.store (.setPinned id true)))
  | unpins {id} : Runs args .unpin → Targets run args made id → Unwritten made →
      Due made (.storage (.store (.setPinned id false)))
  | copies {id} : Runs args .copyTo → Targets run args made id → Unwritten made →
      Due made (.storage (.store (.updateTimestamp run.now id)))
  | stores {buffer} : Runs args .store → GivenIn made buffer → buffer.bytes ≠ [] →
      Unwritten made → Due made (.storage (.store (run.storing args buffer)))
  | wipes : Runs args .wipe → Unwritten made → Due made (.storage (.store .wipe))
  | restores {id} : Runs args .copyTo → Targets run args made id → Unsent made →
      Due made (.writeAll (Invocation.restoreFrame id))
  | synchronises {buffer id} : Runs args .store → StoredAs run args made buffer id →
      Unsent made → Due made (.writeAll (Invocation.restoreFrame id))
  | signals {subcommand command} : Runs args subcommand → subcommand.signals = some command →
      Unsent made → Due made (.writeAll command.frame)

inductive Log (start : World) : List Made → World → Prop where
  | nil : Log start [] start
  | snoc {made world entry} : Log start made world → Elsewhere run.sha3 world entry.met →
      entry.call.Answers run.sha3 entry.met entry.answer entry.left →
      Due run args made entry.call → Log start (made ++ [entry]) entry.left

end

section
variable {run : Invocation} {args : List Str} {start : World} {scene : Scene} {α β : Type}
variable {made after : List Made} {id : Int}

def QuietSince (made after : List Made) : Prop :=
  ∃ calls : List Made, after = made ++ calls ∧ ∀ entry ∈ calls, entry.call.Quiet

theorem QuietSince.refl (made : List Made) : QuietSince made made :=
  ⟨[], (List.append_nil made).symm, by simp⟩

theorem QuietSince.trans {last : List Made} (first : QuietSince made after)
    (second : QuietSince after last) : QuietSince made last := by
  obtain ⟨early, rfl, quietEarly⟩ := first
  obtain ⟨late, rfl, quietLate⟩ := second
  refine ⟨early ++ late, List.append_assoc _ _ _, fun entry member => ?_⟩
  exact (List.mem_append.mp member).elim (quietEarly entry) (quietLate entry)

theorem QuietSince.one {entry : Made} (quiet : entry.call.Quiet) : QuietSince made (made ++ [entry]) :=
  ⟨[entry], rfl, by simpa using quiet⟩

theorem QuietSince.subset (quietly : QuietSince made after) : made ⊆ after := by
  obtain ⟨calls, rfl, _⟩ := quietly
  exact List.subset_append_left made calls

theorem Unwritten.nil : Unwritten [] := by
  simp [Unwritten]

theorem Unsent.nil : Unsent [] := by
  simp [Unsent]

theorem Unwritten.quietly (unwritten : Unwritten made) (quietly : QuietSince made after) :
    Unwritten after := by
  obtain ⟨calls, rfl, quiet⟩ := quietly
  intro entry member
  rcases List.mem_append.mp member with before | since
  · exact unwritten entry before
  · exact (quiet entry since).silent.1

theorem Unsent.quietly (unsent : Unsent made) (quietly : QuietSince made after) : Unsent after := by
  obtain ⟨calls, rfl, quiet⟩ := quietly
  intro entry member
  rcases List.mem_append.mp member with before | since
  · exact unsent entry before
  · exact (quiet entry since).silent.2

theorem Unwritten.snoc {entry : Made} (unwritten : Unwritten made)
    (silent : entry.call.writes = false) : Unwritten (made ++ [entry]) := by
  intro other member
  rcases List.mem_append.mp member with before | last
  · exact unwritten other before
  · rw [List.mem_singleton.mp last]
    exact silent

theorem Unsent.snoc {entry : Made} (unsent : Unsent made) (silent : entry.call.sends = false) :
    Unsent (made ++ [entry]) := by
  intro other member
  rcases List.mem_append.mp member with before | last
  · exact unsent other before
  · rw [List.mem_singleton.mp last]
    exact silent

theorem Targets.mono (targets : Targets run args made id) (subset : made ⊆ after) :
    Targets run args after id := by
  cases targets with
  | spelled byId designates => exact .spelled byId designates
  | listed byIndex looked designates => exact .listed byIndex (subset looked) designates

theorem GivenIn.mono {buffer : Slice} (given : GivenIn made buffer) (subset : made ⊆ after) :
    GivenIn after buffer := by
  obtain ⟨met, left, read⟩ := given
  exact ⟨met, left, subset read⟩

theorem StoredAs.mono {buffer : Slice} (stored : StoredAs run args made buffer id)
    (subset : made ⊆ after) : StoredAs run args after buffer id := by
  obtain ⟨given, positive, met, left, outcome, named, made⟩ := stored
  exact ⟨given.mono subset, positive, met, left, outcome, named, subset made⟩

abbrev Logged (run : Invocation) (args : List Str) (start : World) (scene : Scene) : Prop :=
  Log run args start scene.made scene.world

abbrev Ends (run : Invocation) (args : List Str) (start : World) (program : CliProgram α)
    (post : α → List Made → Prop) (scene : Scene) : Prop :=
  program.Ensures (CliCall.May run.sha3) (Logged run args start)
    (fun value after => Logged run args start after ∧ post value after.made) scene

theorem Ends.bind {program : CliProgram α} {rest : α → CliProgram β}
    {middle : α → List Made → Prop} {post : β → List Made → Prop}
    (first : Ends run args start program middle scene)
    (second : ∀ value after, Logged run args start after → middle value after.made →
      Ends run args start (rest value) post after) :
    Ends run args start (program >>= rest) post scene :=
  Program.Ensures.bind (first.mono fun value after ended => second value after ended.1 ended.2)

theorem Ends.weaken {program : CliProgram α} {first second : α → List Made → Prop}
    (ends : Ends run args start program first scene)
    (weaker : ∀ value made, first value made → second value made) :
    Ends run args start program second scene :=
  ends.mono fun value after ended => ⟨ended.1, weaker value after.made ended.2⟩

/-- One call that is due. -/
theorem call_ends {call : CliCall} {rest : call.Answer → CliProgram α}
    {post : α → List Made → Prop} (logged : Logged run args start scene)
    (due : Due run args scene.made call)
    (later : ∀ met answer left, call.Answers run.sha3 met answer left →
      Log run args start (scene.made ++ [⟨call, met, answer, left⟩]) left →
      Ends run args start (rest answer) post
        ⟨left, scene.made ++ [⟨call, met, answer, left⟩]⟩) :
    Ends run args start (.call call rest) post scene := by
  rintro answer _ ⟨met, left, before, answers, rfl⟩
  have next : Log run args start (scene.made ++ [⟨call, met, answer, left⟩]) left :=
    .snoc logged before answers due
  exact ⟨next, later met answer left answers next⟩

theorem ask_ends {call : CliCall} {rest : call.Answer → CliProgram α}
    {post : α → List Made → Prop} (logged : Logged run args start scene)
    (due : Due run args scene.made call)
    (later : ∀ met answer left, call.Answers run.sha3 met answer left →
      Log run args start (scene.made ++ [⟨call, met, answer, left⟩]) left →
      Ends run args start (rest answer) post
        ⟨left, scene.made ++ [⟨call, met, answer, left⟩]⟩) :
    Ends run args start (Program.ask call >>= rest) post scene :=
  call_ends logged due later

theorem quiet_ends {program : CliProgram α} (logged : Logged run args start scene)
    (quiet : program.Issues CliCall.Quiet) :
    Ends run args start program (fun _ => QuietSince scene.made) scene := by
  refine Program.Ensures.of_issues quiet ?_ (⟨logged, .refl _⟩ :
    Logged run args start scene ∧ QuietSince scene.made scene.made)
  rintro call before answer _ silent ⟨log, quietly⟩ ⟨met, left, since, answers, rfl⟩
  have next : Log run args start (before.made ++ [⟨call, met, answer, left⟩]) left :=
    .snoc log since answers (.quiet silent)
  exact ⟨next, next, quietly.trans (.one silent)⟩

theorem quiet_done {program : CliProgram α} (logged : Logged run args start scene)
    (quiet : program.Issues CliCall.Quiet) :
    Ends run args start program (fun _ _ => True) scene :=
  (quiet_ends logged quiet).weaken fun _ _ _ => trivial

def Concludes (ending : Ending) (made : List Made) : Prop :=
  ending = .returns .none ∨ Unwritten made

theorem quiet_concludes {program : CliProgram Ending} (quiet : program.Issues CliCall.Quiet) :
    Ends run args start program Concludes ⟨start, []⟩ :=
  (quiet_ends .nil quiet).weaken fun _ _ quietly => .inr (Unwritten.nil.quietly quietly)

theorem Ends.done {program : CliProgram Unit} {post : Unit → List Made → Prop}
    (ends : Ends run args start program post scene) :
    Ends run args start (do program; done : CliProgram Ending) Concludes scene :=
  ends.bind fun _ _ logged _ => ⟨logged, .inl rfl⟩

theorem Call.quiet {call : Call} (file : call.isStore = false) : (CliCall.storage call).Quiet := by
  cases call with
  | store op => cases file
  | _ => trivial

theorem ask_quiet (call : CliCall) (quiet : call.Quiet) {rest : call.Answer → CliProgram α}
    (later : ∀ answer, (rest answer).Issues CliCall.Quiet) :
    (Program.ask call >>= rest).Issues CliCall.Quiet :=
  ⟨quiet, later⟩

theorem printIf_quiet (verbose : Bool) (text : Str) :
    (Invocation.printIf verbose text).Issues CliCall.Quiet := by
  cases verbose
  · trivial
  · exact ⟨trivial, fun _ => trivial⟩

structure Poised (run : Invocation) (args : List Str) (start : World) (scene : Scene) (id : Int) :
    Prop where
  logged : Logged run args start scene
  targets : Targets run args scene.made id
  unwritten : Unwritten scene.made
  unsent : Unsent scene.made

theorem resolveTargetId_ends {input : Str}
    (given : (ArgContext.parse args).positionals.head? = some input) :
    Ends run args start (run.resolveTargetId input (ArgContext.parse args).useId)
      (fun result made => QuietSince [] made ∧ ∀ id, result = .ok id → Targets run args made id)
      ⟨start, []⟩ := by
  have designates : ∀ seen id tie,
      resolveTargetId tie run.maxHistory input (ArgContext.parse args).useId seen = .ok id →
        Designates run args seen id :=
    fun seen id tie found => ⟨input, given, tie, found⟩
  unfold resolveTargetId at designates
  unfold Invocation.resolveTargetId
  cases parsed : parseI64 input with
  | none => exact ⟨.nil, .refl _, by rintro _ ⟨⟩⟩
  | some val =>
      simp only [parsed] at designates
      by_cases negative : val.value < 0
      · simp only [negative, if_true]
        exact ⟨.nil, .refl _, by rintro _ ⟨⟩⟩
      simp only [if_neg negative] at designates ⊢
      cases byId : (ArgContext.parse args).useId with
      | true =>
          simp only [byId, if_true] at designates ⊢
          refine ⟨.nil, .refl _, ?_⟩
          rintro id same
          cases same
          exact .spelled byId fun seen => designates seen _ .byRowid rfl
      | false =>
          simp only [byId, if_false, Bool.false_eq_true] at designates ⊢
          refine ask_ends .nil (.quiet trivial) ?_
          rintro seen (rows : List MetaRow) left ⟨⟨tie, part⟩, rfl⟩ logged
          dsimp only
          have quietly : QuietSince [] [(⟨.fetchMetadata run.maxHistory, left, rows, left⟩ : Made)] :=
            .one trivial
          cases listed : rows[val.value.toNat]? with
          | none => exact ⟨logged, quietly, by rintro _ ⟨⟩⟩
          | some row =>
              refine ⟨logged, quietly, ?_⟩
              rintro id same
              cases same
              obtain ⟨rest, whole⟩ := part
              have inside : val.value.toNat < rows.length :=
                (List.getElem?_eq_some_iff.mp listed).1
              have found : (fetchMetadataUpTo tie left.db run.maxHistory)[val.value.toNat]? =
                  some row := by
                rw [← whole]
                exact (List.getElem?_append_left inside).trans listed
              have named := designates left.db row.id tie (by rw [found])
              exact .listed byId (List.mem_singleton.mpr rfl) named

/-- Before it acts, a command on one record has only looked the record up. -/
theorem withTarget_ends {refused : ArgContext → Bool} {unsupported missing : Str}
    {act : ArgContext → Int → CliProgram Unit}
    (acts : ∀ id scene, (ArgContext.parse args).unknownFlags = [] →
      refused (ArgContext.parse args) = false → Poised run args start scene id →
      Ends run args start (act (ArgContext.parse args) id) (fun _ _ => True) scene) :
    Ends run args start (run.withTarget args refused unsupported missing act) (fun _ _ => True)
      ⟨start, []⟩ := by
  have printed : ∀ text, (errorLine text).Issues CliCall.Quiet :=
    fun text => ⟨trivial, fun _ => trivial⟩
  unfold Invocation.withTarget
  dsimp only
  split
  · exact quiet_done .nil (printed _)
  rename_i accepted
  rw [not_or, not_not, Bool.not_eq_true] at accepted
  split
  · exact quiet_done .nil (printed _)
  rename_i input given
  refine (resolveTargetId_ends given).bind ?_
  rintro result after logged ⟨quietly, resolved⟩
  cases result with
  | error e => exact quiet_done logged (printed _)
  | ok id =>
      exact acts id after accepted.1 accepted.2
        ⟨logged, resolved id rfl, Unwritten.nil.quietly quietly, Unsent.nil.quietly quietly⟩

theorem deleteRun_ends (named : subcommandOf args = some .delete) :
    Ends run args start (run.deleteRun args) (fun _ _ => True) ⟨start, []⟩ := by
  refine withTarget_ends fun id scene known accepted poised => ?_
  refine call_ends poised.logged
    (.deletes ⟨named, known, accepted⟩ poised.targets poised.unwritten) ?_
  intro met answer left _ logged
  refine quiet_done logged ?_
  cases answer with
  | error e => exact ⟨trivial, fun _ => trivial⟩
  | ok found =>
      obtain ⟨deleted, hash⟩ := found
      cases hash with
      | none => cases deleted <;> exact ⟨trivial, fun _ => trivial⟩
      | some hash => cases deleted <;> exact ⟨trivial, fun _ => ⟨trivial, fun _ => trivial⟩⟩

theorem setPinState_ends {subcommand : Subcommand} {isPinned : Bool} (cmdName : Str)
    (named : subcommandOf args = some subcommand)
    (flags : subcommand.Accepts = Subcommand.Accepts .pin)
    (pins : ∀ made id, Runs args subcommand → Targets run args made id → Unwritten made →
      Due run args made (.storage (.store (.setPinned id isPinned)))) :
    Ends run args start (run.setPinState args isPinned cmdName) (fun _ _ => True)
      ⟨start, []⟩ := by
  refine withTarget_ends fun id scene known accepted poised => ?_
  refine call_ends poised.logged
    (pins _ _ ⟨named, flags ▸ ⟨known, accepted⟩⟩ poised.targets poised.unwritten) ?_
  intro met answer left _ logged
  refine quiet_done logged ?_
  cases answer with
  | error e => exact ⟨trivial, fun _ => trivial⟩
  | ok found => cases found <;> exact ⟨trivial, fun _ => trivial⟩

theorem resolveTargetId_quiet (input : Str) (useId : Bool) :
    (run.resolveTargetId input useId).Issues CliCall.Quiet := by
  unfold Invocation.resolveTargetId
  split
  · trivial
  split
  · trivial
  split
  · trivial
  refine ask_quiet (.fetchMetadata _) trivial fun (rows : List MetaRow) => ?_
  split <;> trivial

theorem contentOrFile_files (found : Option (Str × Option Bytes × Str)) :
    (contentOrFile found).Issues fun call => call.isStore = false := by
  match found with
  | none => trivial
  | some (mime, some data, hash) => trivial
  | some (mime, none, hash) => exact ⟨rfl, fun _ => trivial⟩

theorem getContentById_quiet (id : Int) : (facade (getContentById id)).Issues CliCall.Quiet :=
  ⟨trivial, fun found => (contentOrFile_files found).lift fun _ file => Call.quiet file⟩

theorem showRun_quiet : (run.showRun args).Issues CliCall.Quiet := by
  unfold Invocation.showRun Invocation.withTarget
  dsimp only
  split
  · exact ⟨trivial, fun _ => trivial⟩
  split
  · exact ⟨trivial, fun _ => trivial⟩
  refine (resolveTargetId_quiet _ _).bind fun resolved => ?_
  split
  · exact ⟨trivial, fun _ => trivial⟩
  refine (getContentById_quiet _).bind fun content => ?_
  split
  · exact ⟨trivial, fun _ => trivial⟩
  split <;> exact ⟨trivial, fun _ => trivial⟩

theorem copyToRun_ends (named : subcommandOf args = some .copyTo) :
    Ends run args start (run.copyToRun args) (fun _ _ => True) ⟨start, []⟩ := by
  refine withTarget_ends fun id scene known accepted poised => ?_
  have runs : Runs args .copyTo := ⟨named, known, accepted⟩
  refine call_ends poised.logged (.copies runs poised.targets poised.unwritten) ?_
  intro met touched left _ logged
  refine call_ends logged (.quiet trivial) fun asked connected last _ logged => ?_
  cases connected with
  | false => exact quiet_done logged ⟨trivial, fun _ => trivial⟩
  | true =>
      refine call_ends logged (.restores runs ?_ ?_) ?_
      · exact (poised.targets.mono (List.subset_append_left _ _)).mono (List.subset_append_left _ _)
      · exact (poised.unsent.snoc rfl).snoc rfl
      rintro told (written : Bool) told' _ logged
      refine quiet_done logged ?_
      change Program.Issues _ (ite _ _ _)
      split
      · exact ⟨trivial, fun _ => trivial⟩
      · trivial

theorem files_ends {γ : Type} {program : Io β}
    (files : program.Issues fun call => call.isStore = false) {rest : β → Io γ}
    {last : γ → CliProgram α} {post : α → List Made → Prop}
    (logged : Logged run args start scene)
    (later : ∀ value after, Logged run args start after → QuietSince scene.made after.made →
      Ends run args start (facade (rest value) >>= last) post after) :
    Ends run args start (facade (program >>= rest) >>= last) post scene := by
  change Ends run args start ((facade (program.bind rest)).bind last) post scene
  induction program generalizing scene with
  | ret value => exact later value scene logged (.refl _)
  | call request next ih =>
      have quiet := Call.quiet files.1
      refine call_ends logged (.quiet quiet) fun met answer left _ logged => ?_
      refine ih answer (files.2 answer) logged fun value after logged quietly => ?_
      exact later value after logged (QuietSince.trans (.one quiet) quietly)

theorem synchronise_ends {buffer : Slice} (runs : Runs args .store)
    (logged : Logged run args start scene) (stored : StoredAs run args scene.made buffer id)
    (unsent : Unsent scene.made) :
    Ends run args start (Invocation.synchronise id) (fun _ _ => True) scene := by
  refine call_ends logged (.quiet trivial) fun met connected left _ logged => ?_
  cases connected with
  | false => exact ⟨logged, trivial⟩
  | true =>
      refine call_ends logged (.synchronises runs (stored.mono (List.subset_append_left _ _))
        (unsent.quietly (.one trivial))) ?_
      exact fun _ _ _ _ logged => ⟨logged, trivial⟩

theorem storeBuffer_ends {buffer : Slice} (verbose : Bool) (runs : Runs args .store)
    (logged : Logged run args start scene) (given : GivenIn scene.made buffer)
    (filled : buffer.bytes ≠ []) (unwritten : Unwritten scene.made)
    (unsent : Unsent scene.made) :
    Ends run args start (run.storeBuffer
      ((ArgContext.parse args).positionals.head?.getD defaultMime) verbose buffer)
      (fun _ _ => True) scene := by
  refine call_ends logged (.stores runs given filled unwritten) ?_
  intro met answer left _ logged
  cases answer with
  | error e => exact quiet_done logged ⟨trivial, fun _ => trivial⟩
  | ok outcome =>
      change Ends run args start (facade (ite _ _ _) >>= _) _ _
      by_cases skipped : outcome.realId = -1
      · rw [if_pos skipped]
        exact quiet_done logged (printIf_quiet verbose _)
      rw [if_neg skipped]
      have subset := List.subset_append_left scene.made
        [⟨.storage (.store (run.storing args buffer)), met, .ok outcome, left⟩]
      refine files_ends (storeIfImage_issues _ _ _) logged fun _ imaged logged kept => ?_
      refine files_ends (removeMany_issues _) logged fun _ cleaned logged kept' => ?_
      have quietly := kept.trans kept'
      change Ends run args start (ite _ _ _) _ cleaned
      by_cases positive : 0 ≤ outcome.realId
      · rw [if_pos positive]
        have stored : StoredAs run args cleaned.made buffer outcome.realId :=
          ⟨(given.mono subset).mono quietly.subset, positive, met, left, outcome, rfl,
            quietly.subset (List.mem_append_right _ (List.mem_singleton.mpr rfl))⟩
        have silent := (unsent.snoc rfl).quietly quietly
        refine (quiet_ends logged (printIf_quiet verbose _)).bind fun _ saved logged more => ?_
        refine (synchronise_ends runs logged (stored.mono more.subset)
          (silent.quietly more)).bind fun _ last logged _ => ?_
        exact quiet_done logged (printIf_quiet verbose _)
      · rw [if_neg positive]
        exact quiet_done logged (printIf_quiet verbose _)

theorem storeRun_ends (named : subcommandOf args = some .store) :
    Ends run args start (run.storeRun args) (fun _ _ => True) ⟨start, []⟩ := by
  unfold Invocation.storeRun
  dsimp only
  split
  · exact quiet_done .nil ⟨trivial, fun _ => trivial⟩
  rename_i accepted
  rw [not_or, not_not, Bool.not_eq_true] at accepted
  split
  · exact quiet_done .nil ⟨trivial, fun _ => trivial⟩
  rename_i single
  refine call_ends .nil (.quiet trivial) fun met stdin left _ logged => ?_
  cases stdin with
  | none => exact quiet_done logged ⟨trivial, fun _ => trivial⟩
  | some buffer =>
      change Ends run args start (ite _ _ _) _ _
      have quietly : QuietSince [] [(⟨.readStdin, met, some buffer, left⟩ : Made)] := .one trivial
      by_cases empty : buffer.bytes = []
      · rw [if_pos empty]
        exact quiet_done logged (printIf_quiet _ _)
      · rw [if_neg empty]
        exact storeBuffer_ends _ ⟨named, accepted.1, accepted.2, Nat.not_lt.mp single⟩ logged
          ⟨met, left, List.mem_singleton.mpr rfl⟩ empty (Unwritten.nil.quietly quietly)
          (Unsent.nil.quietly quietly)

theorem wipeRun_concludes (named : subcommandOf args = some .wipe) :
    Ends run args start (Invocation.wipeRun args) Concludes ⟨start, []⟩ := by
  have line : ∀ text ending,
      (do errorLine text; pure ending : CliProgram Ending).Issues CliCall.Quiet :=
    fun text ending => ⟨trivial, fun _ => trivial⟩
  unfold Invocation.wipeRun
  dsimp only
  split
  · exact quiet_concludes (line _ _)
  rename_i accepted
  rw [not_or, not_not, Bool.not_eq_true] at accepted
  split
  · exact quiet_concludes (line _ _)
  rename_i bare
  rw [not_not] at bare
  split
  · exact quiet_concludes ⟨trivial, fun _ => line _ _⟩
  rename_i forced
  have runs : Runs args .wipe := ⟨named, accepted.1, accepted.2, bare, by simpa using forced⟩
  refine call_ends .nil (.wipes runs Unwritten.nil) fun met answer left _ logged => ?_
  have printed : ∀ {scene} (last : CliProgram Unit), last.Issues CliCall.Quiet →
      Logged run args start scene →
      Ends run args start (do last; done : CliProgram Ending) Concludes scene :=
    fun last quiet logged => (quiet_done logged quiet).done
  cases answer with
  | error e => exact printed (errorLine _) ⟨trivial, fun _ => trivial⟩ logged
  | ok value =>
      refine call_ends logged (.quiet trivial) fun met removed left _ logged => ?_
      cases removed with
      | error e => exact printed (printLine _) ⟨trivial, fun _ => trivial⟩ logged
      | ok value =>
          refine call_ends logged (.quiet trivial) fun met created left _ logged => ?_
          exact printed (printLine _) ⟨trivial, fun _ => trivial⟩ logged

/-- A frame and nothing else, if a daemon listens. -/
theorem signals_ends {subcommand : Subcommand} {command : Command} (runs : Runs args subcommand)
    (signals : subcommand.signals = some command) {refused failed sent : CliProgram Ending}
    (quietRefused : refused.Issues CliCall.Quiet) (quietFailed : failed.Issues CliCall.Quiet)
    (quietSent : sent.Issues CliCall.Quiet) :
    Ends run args start (do
      let connected : Bool ← Program.ask CliCall.connect
      if !connected then refused
      else do
        let written : Bool ← Program.ask (CliCall.writeAll command.frame)
        if !written then failed else sent) Concludes ⟨start, []⟩ := by
  have unwritten : ∀ {program : CliProgram Ending} {scene}, program.Issues CliCall.Quiet →
      Logged run args start scene → Unwritten scene.made →
      Ends run args start program Concludes scene :=
    fun quiet logged unwritten => (quiet_ends logged quiet).weaken
      fun _ _ quietly => .inr (unwritten.quietly quietly)
  refine call_ends .nil (.quiet trivial) fun met connected left _ logged => ?_
  have quietly : QuietSince [] [(⟨.connect, met, connected, left⟩ : Made)] := .one trivial
  have before := Unwritten.nil.quietly quietly
  cases connected with
  | false => exact unwritten quietRefused logged before
  | true =>
      refine call_ends logged (.signals runs signals (Unsent.nil.quietly quietly)) ?_
      intro told written told' _ logged
      cases written with
      | false => exact unwritten quietFailed logged (before.snoc rfl)
      | true => exact unwritten quietSent logged (before.snoc rfl)

theorem signalRun_concludes {subcommand : Subcommand} {command : Command} (name message : Str)
    (named : subcommandOf args = some subcommand)
    (flags : subcommand.Accepts = Subcommand.Accepts .pause)
    (signals : subcommand.signals = some command) :
    Ends run args start (Invocation.signalRun args name command message) Concludes
      ⟨start, []⟩ := by
  have line : ∀ text ending,
      (do errorLine text; pure ending : CliProgram Ending).Issues CliCall.Quiet :=
    fun text ending => ⟨trivial, fun _ => trivial⟩
  unfold Invocation.signalRun
  dsimp only
  split
  · exact quiet_concludes (line _ _)
  rename_i accepted
  rw [not_or, not_not, Bool.not_eq_true] at accepted
  split
  · exact quiet_concludes (line _ _)
  rename_i bare
  rw [not_not] at bare
  exact signals_ends ⟨named, flags ▸ ⟨accepted.1, accepted.2, bare⟩⟩ signals (line _ _) (line _ _)
    ⟨trivial, fun _ => trivial⟩

theorem statusRun_concludes (named : subcommandOf args = some .status) :
    Ends run args start (Invocation.statusRun args) Concludes ⟨start, []⟩ := by
  have line : ∀ text ending,
      (do errorLine text; pure ending : CliProgram Ending).Issues CliCall.Quiet :=
    fun text ending => ⟨trivial, fun _ => trivial⟩
  unfold Invocation.statusRun
  dsimp only
  split
  · exact quiet_concludes (line _ _)
  rename_i accepted
  rw [not_or, not_not, Bool.not_eq_true] at accepted
  split
  · exact quiet_concludes (line _ _)
  rename_i bare
  rw [not_not] at bare
  refine signals_ends ⟨named, accepted.1, accepted.2, bare⟩ rfl (line _ _) (line _ _) ?_
  refine ask_quiet .readToString trivial fun (read : Option Str) => ?_
  change Program.Issues _ (ite _ _ _)
  split
  · exact line _ _
  · exact ⟨trivial, fun _ => trivial⟩

theorem listRun_quiet : (run.listRun args).Issues CliCall.Quiet := by
  unfold Invocation.listRun
  dsimp only
  split
  · exact ⟨trivial, fun _ => trivial⟩
  split
  · exact ⟨trivial, fun _ => trivial⟩
  split
  · exact ⟨trivial, fun _ => trivial⟩
  refine ask_quiet (.fetchMetadata _) trivial fun (allItems : List MetaRow) => ?_
  refine ask_quiet .getTotalCount trivial fun totalStored => ?_
  split
  · exact printIf_quiet _ _
  · exact ⟨trivial, fun _ => trivial⟩

theorem searchRun_quiet : (run.searchRun args).Issues CliCall.Quiet := by
  have searched : ∀ valid,
      (run.searchValid (ArgContext.parse args) valid).Issues CliCall.Quiet := by
    intro valid
    refine ask_quiet (.searchMetadata _ _) trivial fun (results : List (Nat × MetaRow)) => ?_
    refine ask_quiet .getTotalCount trivial fun totalStored => ?_
    split <;> exact ⟨trivial, fun _ => trivial⟩
  unfold Invocation.searchRun
  dsimp only
  split
  · exact ⟨trivial, fun _ => trivial⟩
  split
  · exact ⟨trivial, fun _ => ⟨trivial, fun _ => trivial⟩⟩
  refine ask_quiet (.validateKeywords _) trivial fun (found : List Str × List Str) => ?_
  split
  · exact ⟨trivial, fun _ => trivial⟩
  split
  · exact ⟨trivial, fun _ => searched _⟩
  · exact searched _

theorem daemonRun_quiet : (Invocation.daemonRun args).Issues CliCall.Quiet := by
  unfold Invocation.daemonRun
  dsimp only
  split
  · exact ⟨trivial, fun _ => trivial⟩
  split
  · exact ⟨trivial, fun _ => ⟨trivial, fun _ => trivial⟩⟩
  · exact ⟨trivial, fun _ => (printIf_quiet _ _).bind fun _ => trivial⟩

theorem pasteFromRun_quiet : (Invocation.pasteFromRun args).Issues CliCall.Quiet := by
  unfold Invocation.pasteFromRun
  dsimp only
  split
  · exact ⟨trivial, fun _ => trivial⟩
  split
  · exact ⟨trivial, fun _ => trivial⟩
  · trivial

theorem dispatch_concludes {subcommand : Subcommand} (named : subcommandOf args = some subcommand) :
    Ends run args start (run.dispatch args subcommand) Concludes ⟨start, []⟩ := by
  cases subcommand with
  | daemon =>
      refine quiet_concludes (daemonRun_quiet.bind fun verbose => ?_)
      cases verbose <;> trivial
  | list => exact quiet_concludes (listRun_quiet.bind fun _ => trivial)
  | search => exact quiet_concludes (searchRun_quiet.bind fun _ => trivial)
  | «show» => exact quiet_concludes (showRun_quiet.bind fun _ => trivial)
  | copyTo => exact (copyToRun_ends named).done
  | store => exact (storeRun_ends named).done
  | delete => exact (deleteRun_ends named).done
  | wipe => exact wipeRun_concludes named
  | pin => exact (setPinState_ends _ named rfl fun _ _ => .pins).done
  | unpin => exact (setPinState_ends _ named rfl fun _ _ => .unpins).done
  | pasteFrom =>
      refine quiet_concludes (pasteFromRun_quiet.bind fun mime => ?_)
      cases mime <;> trivial
  | status => exact statusRun_concludes named
  | pause => exact signalRun_concludes _ _ named rfl rfl
  | resume => exact signalRun_concludes _ _ named rfl rfl
  | help => exact quiet_concludes ⟨trivial, fun _ => trivial⟩
  | version => exact quiet_concludes ⟨trivial, fun _ => trivial⟩

/-- Every call of a command line is due when it is made. -/
theorem handleCommand_concludes (run : Invocation) (args : List Str) (start : World) :
    Ends run args start (run.handleCommand args) Concludes ⟨start, []⟩ := by
  unfold Invocation.handleCommand
  dsimp only
  split
  · exact quiet_concludes ⟨trivial, fun _ => trivial⟩
  rename_i unhelped
  rw [not_or] at unhelped
  split
  · exact quiet_concludes ⟨trivial, fun _ => trivial⟩
  rename_i unversioned
  split
  · exact quiet_concludes ⟨trivial, fun _ => ⟨trivial, fun _ => trivial⟩⟩
  rename_i command
  split
  · rename_i subcommand listed
    refine dispatch_concludes ?_
    rw [subcommandOf, if_neg]
    · exact listed
    · simp only [not_or]
      exact ⟨unhelped.1, unhelped.2, unversioned, command⟩
  · exact quiet_concludes ⟨trivial, fun _ => ⟨trivial, fun _ => trivial⟩⟩

end

section
variable {run : Invocation} {args : List Str} {start world : World} {made : List Made}

theorem Log.split (log : Log run args start made world) {before rest : List Made} {entry : Made}
    (split : made = before ++ entry :: rest) :
    ∃ past, Log run args start before past ∧ Elsewhere run.sha3 past entry.met ∧
      entry.call.Answers run.sha3 entry.met entry.answer entry.left ∧
      Due run args before entry.call := by
  induction log generalizing rest with
  | nil => cases before <;> cases split
  | @snoc early past last logged elsewhere answers due ih =>
      rcases rest.eq_nil_or_concat with rfl | ⟨rest, final, rfl⟩
      · obtain ⟨rfl, same⟩ := List.append_inj' split rfl
        cases same
        exact ⟨past, logged, elsewhere, answers, due⟩
      · rw [List.concat_eq_append, ← List.cons_append, ← List.append_assoc] at split
        exact ih (List.append_inj' split rfl).1

theorem Due.unwritten {call : CliCall} (due : Due run args made call)
    (writes : call.writes = true) : Unwritten made := by
  cases due with
  | quiet quiet =>
      rw [quiet.silent.1] at writes
      cases writes
  | deletes _ _ unwritten | pins _ _ unwritten | unpins _ _ unwritten | copies _ _ unwritten
  | stores _ _ _ unwritten | wipes _ unwritten => exact unwritten
  | restores | synchronises | signals => cases writes

theorem Due.unsent {call : CliCall} (due : Due run args made call)
    (sends : call.sends = true) : Unsent made := by
  cases due with
  | quiet quiet =>
      rw [quiet.silent.2] at sends
      cases sends
  | restores _ _ unsent | synchronises _ _ unsent | signals _ _ unsent => exact unsent
  | _ => cases sends

theorem Log.once (log : Log run args start made world) {counts : CliCall → Bool}
    (first : ∀ {made call}, Due run args made call → counts call = true →
      ∀ entry ∈ made, counts entry.call = false) :
    (made.filter fun entry => counts entry.call).length ≤ 1 := by
  induction log with
  | nil => exact Nat.zero_le 1
  | @snoc early past last _ _ _ due ih =>
      rw [List.filter_append, List.length_append]
      cases counted : counts last.call with
      | false => simpa [counted] using ih
      | true =>
          have none : (early.filter fun entry => counts entry.call) = [] := by
            refine List.filter_eq_nil_iff.mpr fun entry member => ?_
            rw [first due counted entry member]
            exact Bool.false_ne_true
          rw [none, List.length_nil, Nat.zero_add]
          exact List.length_filter_le _ [last]

theorem CliCall.Answers.store {op : StoreOp} {met left : World} {answer : op.Result}
    (answers : (CliCall.storage (.store op)).Answers run.sha3 met answer left) :
    ∃ db, op.Effect run.sha3 met.db answer db ∧ left = met.withDb db := by
  change (Call.store op).May run.sha3 (fun _ _ _ => True) met answer left at answers
  exact answers.store

theorem CliCall.Answers.kept {call : CliCall} {met left : World} {answer : call.Answer}
    (answers : call.Answers run.sha3 met answer left) (reads : call.writes = false) :
    left.db = met.db := by
  cases call with
  | storage request =>
      change request.May run.sha3 (fun _ _ _ => True) met answer left at answers
      cases request with
      | store op =>
          obtain ⟨db, effect, rfl⟩ := answers.store
          cases op with
          | getRowContent id => exact effect.2
          | getRowLocation id => exact effect
          | _ => cases reads
      | _ => exact answers.db_eq rfl
  | fetchMetadata limit => exact congrArg World.db answers.2
  | _ => exact congrArg World.db answers

theorem CliCall.Answers.lasts {call : CliCall} {met left : World} {answer : call.Answer}
    (answers : call.Answers run.sha3 met answer left) (sound : Sound run.sha3 met.db) :
    Sound run.sha3 left.db ∧ Continues met.db left.db := by
  cases writes : call.writes with
  | false =>
      rw [answers.kept writes]
      exact ⟨sound, .refl _⟩
  | true =>
      cases call with
      | storage request =>
          cases request with
          | store op =>
              obtain ⟨db, effect, rfl⟩ := CliCall.Answers.store answers
              have soundAfter := effect.sound sound
              exact ⟨soundAfter, effect.continues sound.1 soundAfter.1⟩
          | _ => cases writes
      | _ => cases writes

/-- What the command met and left at any call goes on to where it is now. -/
theorem Log.continues (log : Log run args start made world) (sound : Sound run.sha3 start.db) :
    Sound run.sha3 world.db ∧ ∀ entry ∈ made,
      Continues entry.met.db world.db ∧ Continues entry.left.db world.db := by
  induction log with
  | nil => exact ⟨sound, by simp⟩
  | @snoc early past last _ elsewhere answers _ ih =>
      obtain ⟨soundPast, continues⟩ := ih
      obtain ⟨soundMet, since⟩ := elsewhere.continues soundPast
      obtain ⟨soundLeft, own⟩ := answers.lasts soundMet
      refine ⟨soundLeft, fun entry member => ?_⟩
      rcases List.mem_append.mp member with before | now
      · obtain ⟨met, left⟩ := continues entry before
        exact ⟨(met.trans since).trans own, (left.trans since).trans own⟩
      · rw [List.mem_singleton.mp now]
        exact ⟨own, .refl _⟩

theorem Designates.listed {seen : Db} {id : Int} (designates : Designates run args seen id)
    (byIndex : (ArgContext.parse args).useId = false) : ∃ row ∈ seen.clipboard, row.id = id := by
  obtain ⟨input, _, tie, resolved⟩ := designates
  unfold resolveTargetId at resolved
  split at resolved
  · cases resolved
  rw [byIndex] at resolved
  split at resolved
  · cases resolved
  simp only [Bool.false_eq_true, if_false] at resolved
  split at resolved
  · rename_i shown listed
    cases resolved
    have member := List.mem_of_getElem? listed
    rw [fetchMetadataUpTo, sqlLimit_eq_take] at member
    obtain ⟨row, present, rfl⟩ := List.mem_map.mp (List.mem_of_mem_take member)
    exact ⟨row, (fetchMetadata_perm tie seen).mem_iff.mp present, rfl⟩
  · cases resolved

inductive Intended (run : Invocation) (args : List Str) (made : List Made) (row : Row) : Prop where
  | spelled : (ArgContext.parse args).useId = true →
      (∀ seen, Designates run args seen row.id) → Intended run args made row
  | listed {seen answer left old} : (ArgContext.parse args).useId = false →
      ⟨.fetchMetadata run.maxHistory, seen, answer, left⟩ ∈ made →
      Designates run args seen.db row.id → old ∈ seen.db.clipboard → SameRecord old row →
      Intended run args made row

theorem Intended.mono {after : List Made} {row : Row} (named : Intended run args made row)
    (subset : made ⊆ after) : Intended run args after row := by
  cases named with
  | spelled byId designates => exact .spelled byId designates
  | listed byIndex looked designates present same =>
      exact .listed byIndex (subset looked) designates present same

theorem Intended.same {row other : Row} (named : Intended run args made row)
    (same : SameRecord row other) : Intended run args made other := by
  cases named with
  | spelled byId designates => exact .spelled byId (by rw [same.id]; exact designates)
  | listed byIndex looked designates present old =>
      exact .listed byIndex looked (by rw [same.id]; exact designates) present (old.trans same)

/-- Whoever has the id of the target now is the record that the target stood for. -/
theorem Targets.intended {met : Db} {row : Row} (targets : Targets run args made row.id)
    (continues : ∀ entry ∈ made, Continues entry.met.db met) (present : row ∈ met.clipboard) :
    Intended run args made row := by
  cases targets with
  | spelled byId designates => exact .spelled byId designates
  | @listed seen _ _ byIndex looked designates =>
      rcases (continues _ looked).rows row present with ⟨old, before, same, _⟩ | late
      · exact .listed byIndex looked designates before same
      · obtain ⟨old, before, same⟩ := designates.listed byIndex
        have issued := (seen.db.idsIssued old before).2
        have later : seen.db.sequence < row.id := late
        omega

def Altered (met left : Db) (row : Row) : Prop :=
  ¬ (row ∈ met.clipboard ↔ row ∈ left.clipboard)

theorem altered_map {met left : Db} {id : Int} {change : Row → Row}
    (mapped : left.clipboard = met.clipboard.map change)
    (fixes : ∀ row, row.id ≠ id → change row = row) (keeps : ∀ row, SameRecord row (change row))
    {row : Row} (altered : Altered met left row) :
    row.id = id ∧ ∃ old ∈ met.clipboard, SameRecord old row := by
  rw [Altered, mapped] at altered
  by_cases present : row ∈ met.clipboard
  · refine ⟨?_, row, present, .refl row⟩
    by_contra other
    exact altered ⟨fun _ => List.mem_map.mpr ⟨row, present, fixes row other⟩, fun _ => present⟩
  · by_cases made : row ∈ met.clipboard.map change
    · obtain ⟨old, before, rfl⟩ := List.mem_map.mp made
      refine ⟨?_, old, before, keeps old⟩
      by_contra other
      rw [fixes old (by rw [← (keeps old).id]; exact other)] at present
      exact present before
    · exact absurd (iff_of_false present made) altered

theorem attempts_altered {α : Type} {value : α} {met changed left : Db} {id : Int}
    {result : Except String α} {row : Row} (attempts : Attempts met value changed result left)
    (altered : Altered met left row)
    (done : Altered met changed row → row.id = id ∧ ∃ old ∈ met.clipboard, SameRecord old row) :
    row.id = id ∧ ∃ old ∈ met.clipboard, SameRecord old row := by
  rcases attempts with ⟨_, _, rfl⟩ | ⟨_, rfl⟩
  · exact absurd Iff.rfl altered
  · exact done altered

theorem altered_dropped {met : Db} {id : Int} {row : Row}
    (altered : Altered met (met.dropped id) row) :
    row.id = id ∧ ∃ old ∈ met.clipboard, SameRecord old row := by
  rw [Altered, dropped_clipboard, List.mem_filter] at altered
  by_cases present : row ∈ met.clipboard
  · refine ⟨?_, row, present, .refl row⟩
    by_contra other
    exact altered ⟨fun _ => ⟨present, by simp [other]⟩, fun _ => present⟩
  · exact absurd (iff_of_false present fun kept => present kept.1) altered

-- What a command line does: each call is due, at most one writes and at most one sends, and unless
-- it stores or wipes no record changes but the one that its target stands for.
structure SparesOthers (run : Invocation) (args : List Str) (made : List Made) : Prop where
  due : ∀ before entry rest, made = before ++ entry :: rest → Due run args before entry.call
  writesOnce : (made.filter fun entry => entry.call.writes).length ≤ 1
  sendsOnce : (made.filter fun entry => entry.call.sends).length ≤ 1
  reads : ∀ entry ∈ made, entry.call.writes = false → entry.left.db = entry.met.db
  spares : ∀ entry ∈ made, ∀ row, Altered entry.met.db entry.left.db row →
    Runs args .store ∨ Runs args .wipe ∨ Intended run args made row

theorem Due.spares {call : CliCall} {met left : World} {answer : call.Answer} {row : Row}
    (due : Due run args made call) (answers : call.Answers run.sha3 met answer left)
    (continues : ∀ entry ∈ made, Continues entry.met.db met.db)
    (altered : Altered met.db left.db row) :
    Runs args .store ∨ Runs args .wipe ∨ Intended run args made row := by
  have unaltered : left.db = met.db →
      Runs args .store ∨ Runs args .wipe ∨ Intended run args made row := by
    intro same
    rw [Altered, same] at altered
    exact absurd Iff.rfl altered
  have named : ∀ {id}, Targets run args made id →
      (row.id = id ∧ ∃ old ∈ met.db.clipboard, SameRecord old row) →
      Runs args .store ∨ Runs args .wipe ∨ Intended run args made row := by
    rintro id targets ⟨rfl, old, present, same⟩
    rw [same.id] at targets
    exact .inr (.inr ((targets.intended continues present).same same))
  cases due with
  | quiet quiet => exact unaltered (answers.kept quiet.silent.1)
  | restores | synchronises | signals => exact unaltered (answers.kept rfl)
  | stores runs => exact .inl runs
  | wipes runs => exact .inr (.inl runs)
  | deletes _ targets =>
      obtain ⟨db, effect, rfl⟩ := CliCall.Answers.store answers
      exact named targets (attempts_altered effect altered altered_dropped)
  | pins _ targets | unpins _ targets =>
      obtain ⟨db, effect, rfl⟩ := CliCall.Answers.store answers
      exact named targets (attempts_altered effect altered
        (altered_map rfl (fun _ other => if_neg other) (SameRecord.pin _ _)))
  | copies _ targets =>
      obtain ⟨db, effect, rfl⟩ := CliCall.Answers.store answers
      exact named targets (attempts_altered effect altered
        (altered_map rfl (fun _ other => if_neg other) (SameRecord.touch _ _)))

theorem Log.spares (log : Log run args start made world) (sound : Sound run.sha3 start.db) :
    SparesOthers run args made where
  due := by
    intro before entry rest split
    obtain ⟨_, _, _, _, due⟩ := log.split split
    exact due
  writesOnce := log.once fun due => due.unwritten
  sendsOnce := log.once fun due => due.unsent
  reads := by
    intro entry member reads
    obtain ⟨before, rest, split⟩ := List.append_of_mem member
    obtain ⟨_, _, _, answers, _⟩ := log.split split
    exact answers.kept reads
  spares := by
    intro entry member row altered
    obtain ⟨before, rest, split⟩ := List.append_of_mem member
    obtain ⟨past, early, elsewhere, answers, due⟩ := log.split split
    obtain ⟨soundPast, continues⟩ := early.continues sound
    obtain ⟨_, since⟩ := elsewhere.continues soundPast
    refine (due.spares answers (fun looked listed =>
      (continues looked listed).1.trans since) altered).imp_right (Or.imp_right fun named => ?_)
    exact named.mono (split ▸ List.subset_append_left _ _)

end

def sampleRun : Invocation where
  sha3 := sampleSha3
  tie := .byRowid
  width := ⟨fun _ => some 1, List.length⟩
  maxHistory := 256
  now := 2000
  clock := 2000

end Y4p
