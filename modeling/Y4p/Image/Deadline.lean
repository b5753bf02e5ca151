import Y4p.Image.Watchdog

/-!
What the deadline of a filter run covers: the watchdog against helpers of the child that outlive
it and keep a pipe that a worker waits on.
-/

namespace Y4p

structure Process.Within (process wide : Process) : Prop where
  stdin : process.stdin = true → wide.stdin = true
  stdout : process.stdout = true → wide.stdout = true
  stderr : process.stderr = true → wide.stderr = true
  inGroup : process.inGroup = true → wide.inGroup = true

theorem Process.Within.refl (process : Process) : process.Within process :=
  ⟨id, id, id, id⟩

theorem Process.narrow_within (process : Process) (kept : Holding) (leader : Bool) :
    Process.Within { process.narrow kept with leader := leader } process where
  stdin held := (Bool.and_eq_true_iff.mp held).1
  stdout held := (Bool.and_eq_true_iff.mp held).1
  stderr held := (Bool.and_eq_true_iff.mp held).1
  inGroup held := (Bool.and_eq_true_iff.mp held).1

namespace FilterRun

variable {T : Type} {run next : FilterRun T}

def FeederBlocked (run : FilterRun T) : Prop :=
  (∃ total size rest, run.feeder = some (.writing total size rest) ∧ rest ≠ []) ∧
    run.stdin.room = 0

def DrainerBlocked (run : FilterRun T) : Prop :=
  run.draining = true ∧ run.stderr.buffered = []

def Blocks (run : FilterRun T) (process : Process) : Prop :=
  (process.stdin = true ∧ run.FeederBlocked) ∨ (process.stderr = true ∧ run.DrainerBlocked)

def Engages (run : FilterRun T) (process : Process) : Prop :=
  (process.stdin = true ∧ run.feeding = true) ∨ (process.stderr = true ∧ run.draining = true)

def Joining (run : FilterRun T) : Prop :=
  match run.caller with
  | .joiningFeeder .. | .joiningDrainer .. | .joiningWatchdog .. | .leaving _ => True
  | _ => False

structure Covered (run : FilterRun T) : Prop where
  alert : ∀ process ∈ run.processes, process.inGroup = true → run.Blocks process →
    run.watch = .running
  joined : run.Joining → ∀ process ∈ run.processes, process.inGroup = true → ¬ run.Blocks process

-- When the watchdog is stood down, those of the group whom a worker is engaged with have kept
-- stdout as well.
def Releases (run : FilterRun T) (action : FilterAction T) : Prop :=
  ∀ reply relayed, action = .caller reply → run.caller = .standing relayed →
    run.watch = .running → ∀ process ∈ run.processes, process.inGroup = true →
      run.Engages process → process.stdout = true

theorem Blocks.engages {process : Process} (blocks : run.Blocks process) : run.Engages process := by
  refine blocks.imp (fun ⟨held, blocked⟩ => ⟨held, ?_⟩) fun ⟨held, blocked⟩ => ⟨held, blocked.1⟩
  obtain ⟨⟨total, size, rest, phase, _⟩, _⟩ := blocked
  unfold feeding
  rw [phase]

theorem stepCaller_processes (reply : CallerReply T) :
    (run.stepCaller reply).processes.Sublist run.processes := by
  unfold FilterRun.stepCaller
  cases phase : run.caller
  case killing | abandoning | abandonKilling => exact List.filter_sublist
  all_goals
    dsimp only
    repeat' split
    all_goals exact List.Sublist.refl _

theorem stepWatchdog_processes : run.stepWatchdog.processes.Sublist run.processes := by
  unfold FilterRun.stepWatchdog
  repeat' split
  case h_5 => exact List.filter_sublist
  all_goals exact List.Sublist.refl _

theorem stepFeeder_processes (reply : SourceReply) :
    (run.stepFeeder reply).processes = run.processes := by
  unfold FilterRun.stepFeeder
  repeat' split
  all_goals rfl

theorem stepDrainer_processes (fails : Bool) :
    (run.stepDrainer fails).processes = run.processes := by
  unfold FilterRun.stepDrainer
  dsimp only
  repeat' split
  all_goals rfl

theorem stepProcess_within {index : Nat} {change : Process → FilterRun T}
    (changed : ∀ wide ∈ run.processes, ∀ process ∈ (change wide).processes,
      process ∈ run.processes ∨ process.Within wide) :
    ∀ process ∈ (run.stepProcess index change).processes,
      ∃ wide ∈ run.processes, process.Within wide := by
  refine stepProcess_kept (motive := fun next => ∀ process ∈ next.processes,
    ∃ wide ∈ run.processes, process.Within wide) ?_ ?_
  · exact fun process member => ⟨process, member, .refl process⟩
  · intro wide found process member
    rcases changed wide found process member with earlier | narrowed
    · exact ⟨process, earlier, .refl process⟩
    · exact ⟨wide, found, narrowed⟩

/-- Nobody ever comes by a pipe end, or into the group, but from one who had it. -/
theorem step_within (action : FilterAction T) :
    ∀ process ∈ (run.step action).processes, ∃ wide ∈ run.processes, process.Within wide := by
  have still : (run.step action).processes ⊆ run.processes →
      ∀ process ∈ (run.step action).processes, ∃ wide ∈ run.processes, process.Within wide :=
    fun subset process member => ⟨process, subset member, .refl process⟩
  cases action with
  | caller reply => exact still (stepCaller_processes reply).subset
  | watchdog => exact still stepWatchdog_processes.subset
  | feeder reply => exact still fun _ member => stepFeeder_processes reply ▸ member
  | drainer fails => exact still fun _ member => stepDrainer_processes fails ▸ member
  | expire => exact still fun _ member => member
  | exit index code =>
      exact stepProcess_within fun _ _ process member => .inl (List.mem_of_mem_eraseIdx member)
  | fork index kept =>
      refine stepProcess_within fun wide _ process member => ?_
      rcases List.mem_append.mp member with earlier | last
      · exact .inl earlier
      · rw [List.mem_singleton.mp last]
        exact .inr (wide.narrow_within kept false)
  | narrow index kept =>
      refine stepProcess_within fun wide _ process member => ?_
      rcases List.mem_or_eq_of_mem_set member with earlier | last
      · exact .inl earlier
      · rw [last]
        exact .inr (wide.narrow_within kept wide.leader)
  | consume index count =>
      refine stepProcess_within fun _ _ process member => .inl ?_
      split at member <;> exact member
  | complain index bytes =>
      refine stepProcess_within fun _ _ process member => .inl ?_
      split at member <;> exact member

theorem stepCaller_workers (reply : CallerReply T) (feeder : run.caller ≠ .spawningFeeder)
    (drainer : run.caller ≠ .spawningDrainer) :
    (run.stepCaller reply).feeder = run.feeder ∧ (run.stepCaller reply).drainer = run.drainer := by
  unfold FilterRun.stepCaller
  cases phase : run.caller
  case spawningFeeder => exact absurd phase feeder
  case spawningDrainer => exact absurd phase drainer
  all_goals
    dsimp only
    repeat' split
    all_goals exact ⟨rfl, rfl⟩

theorem stepWatchdog_workers :
    run.stepWatchdog.feeder = run.feeder ∧ run.stepWatchdog.drainer = run.drainer := by
  unfold FilterRun.stepWatchdog
  repeat' split
  all_goals exact ⟨rfl, rfl⟩

theorem stepFeeder_engaged (reply : SourceReply) :
    ((run.stepFeeder reply).feeding = true → run.feeding = true) ∧
      (run.stepFeeder reply).drainer = run.drainer := by
  unfold FilterRun.stepFeeder
  split
  · rename_i phase
    refine ⟨fun _ => by unfold feeding; rw [phase], ?_⟩
    repeat' split
    all_goals rfl
  · rename_i phase
    refine ⟨fun _ => by unfold feeding; rw [phase], ?_⟩
    repeat' split
    all_goals rfl
  · exact ⟨id, rfl⟩

theorem stepDrainer_engaged (fails : Bool) :
    (run.stepDrainer fails).feeder = run.feeder ∧
      ((run.stepDrainer fails).draining = true → run.draining = true) := by
  unfold FilterRun.stepDrainer
  split
  · rename_i phase
    refine ⟨?_, fun _ => by unfold draining; rw [phase]⟩
    dsimp only
    repeat' split
    all_goals rfl
  · exact ⟨rfl, id⟩

theorem feeding_of_same (same : next.feeder = run.feeder) : next.feeding = run.feeding := by
  unfold feeding
  rw [same]

theorem draining_of_same (same : next.drainer = run.drainer) : next.draining = run.draining := by
  unfold draining
  rw [same]

def Lags (run next : FilterRun T) : Prop :=
  (next.feeding = true → run.feeding = true) ∧ (next.draining = true → run.draining = true)

theorem lags_of_same (same : next.feeder = run.feeder ∧ next.drainer = run.drainer) :
    run.Lags next := by
  unfold Lags
  rw [feeding_of_same same.1, draining_of_same same.2]
  exact ⟨id, id⟩

theorem step_lags (action : FilterAction T) (feeder : run.caller ≠ .spawningFeeder)
    (drainer : run.caller ≠ .spawningDrainer) : run.Lags (run.step action) := by
  cases action with
  | caller reply => exact lags_of_same (stepCaller_workers reply feeder drainer)
  | watchdog => exact lags_of_same stepWatchdog_workers
  | feeder reply =>
      obtain ⟨fed, drained⟩ := @stepFeeder_engaged T run reply
      exact ⟨fed, (draining_of_same drained ▸ id : _ → _)⟩
  | drainer fails =>
      obtain ⟨fed, drained⟩ := @stepDrainer_engaged T run fails
      exact ⟨(feeding_of_same fed ▸ id : _ → _), drained⟩
  | expire => exact lags_of_same ⟨rfl, rfl⟩
  | exit | fork | narrow =>
      exact stepProcess_kept (motive := run.Lags) ⟨id, id⟩ fun _ _ => lags_of_same ⟨rfl, rfl⟩
  | consume | complain =>
      refine stepProcess_kept (motive := run.Lags) ⟨id, id⟩ fun _ _ => ?_
      split <;> exact lags_of_same ⟨rfl, rfl⟩

def GroupGone (run : FilterRun T) : Prop :=
  ∀ process ∈ run.processes, process.inGroup = false

def Relayed (run : FilterRun T) : Except RelayFailure T → Prop
  | .ok _ => ∀ process ∈ run.processes, process.stdout = false
  | .error _ => run.GroupGone

def DeadlineFits (run : FilterRun T) : Prop :=
  match run.caller with
  | .takingPipes | .spawningFeeder | .spawningDrainer | .spawningWatchdog | .abandoning _
  | .returned _ => True
  | .draining | .killing _ | .reaping .. | .joiningFeeder .. | .joiningDrainer ..
  | .joiningWatchdog .. => run.watchdog ≠ none
  | .waiting relayed | .finishing relayed | .standing relayed =>
      run.watchdog ≠ none ∧ run.Relayed relayed
  | .abandonKilling _ | .abandonReaping _ => run.GroupGone
  | .leaving _ => run.watchdog ≠ none ∨ run.GroupGone

structure Bounded (run : FilterRun T) : Prop where
  guarded : run.Guarded
  timeout : run.timeout.isSome = true
  caller : run.DeadlineFits
  finished : run.watch = .finished → ∀ process ∈ run.processes, process.inGroup = true →
    ¬ run.Engages process
  fired : run.watch = .timedOut ∨ run.watchdog = some .signalled → run.GroupGone

theorem GroupGone.step (gone : run.GroupGone)
    (within : ∀ process ∈ next.processes, ∃ wide ∈ run.processes, process.Within wide) :
    next.GroupGone := by
  intro process member
  obtain ⟨wide, found, narrowed⟩ := within process member
  by_contra grouped
  rw [Bool.not_eq_false] at grouped
  have outside := gone wide found
  rw [narrowed.inGroup grouped] at outside
  cases outside

theorem Relayed.step {relayed : Except RelayFailure T} (ended : run.Relayed relayed)
    (within : ∀ process ∈ next.processes, ∃ wide ∈ run.processes, process.Within wide) :
    next.Relayed relayed := by
  cases relayed with
  | error failure => exact GroupGone.step ended within
  | ok drained =>
      intro process member
      obtain ⟨wide, found, narrowed⟩ := within process member
      by_contra held
      rw [Bool.not_eq_false] at held
      have closed := ended wide found
      rw [narrowed.stdout held] at closed
      cases closed

theorem killGroup_gone (sender : Sender) : (run.killGroup sender).GroupGone := by
  intro process member
  have left := (List.mem_filter.mp member).2
  rw [Bool.not_eq_true'] at left
  exact left

theorem DeadlineFits.aside (fits : run.DeadlineFits) (caller : next.caller = run.caller)
    (watched : run.watchdog ≠ none → next.watchdog ≠ none)
    (within : ∀ process ∈ next.processes, ∃ wide ∈ run.processes, process.Within wide) :
    next.DeadlineFits := by
  unfold DeadlineFits at fits ⊢
  rw [caller]
  cases phase : run.caller <;> rw [phase] at fits
  case draining | killing | reaping | joiningFeeder | joiningDrainer | joiningWatchdog =>
    exact watched fits
  case waiting | finishing | standing =>
    exact ⟨watched fits.1, fits.2.step within⟩
  case abandonKilling | abandonReaping => exact fits.step within
  case leaving => exact fits.imp watched fun gone => gone.step within
  all_goals trivial

theorem relay_deadline {relayed : Except RelayFailure T} (watched : run.watchdog ≠ none)
    (ended : run.Relayed relayed) : (run.relay relayed).DeadlineFits := by
  unfold relay
  rw [if_neg watched]
  cases relayed <;> exact ⟨watched, ended⟩

theorem DeadlineFits.stepCaller (fits : run.DeadlineFits) (timeout : run.timeout.isSome = true)
    (reply : CallerReply T) : (run.stepCaller reply).DeadlineFits := by
  have before := fits
  unfold DeadlineFits at fits
  unfold FilterRun.stepCaller
  cases phase : run.caller <;> rw [phase] at fits <;> dsimp only at fits ⊢
  case takingPipes => split <;> trivial
  case spawningFeeder =>
    split
    · split <;> trivial
    · trivial
  case spawningDrainer => split <;> trivial
  case spawningWatchdog =>
    rw [if_pos timeout]
    split
    · trivial
    · exact nofun
  case draining =>
    split
    · exact fits
    · split
      · exact before
      · rename_i closed
        refine relay_deadline fits fun process member => ?_
        by_contra held
        rw [Bool.not_eq_false] at held
        exact closed (List.any_eq_true.mpr ⟨process, member, held⟩)
    · exact before
  case killing failure => exact relay_deadline fits (killGroup_gone .relay)
  case waiting relayed =>
    split
    · exact before
    · exact fits
  case finishing relayed =>
    split
    · exact fits
    · exact before
  case standing relayed => exact fits.1
  case reaping relayed timedOut =>
    split
    · exact fits
    · exact before
  case joiningFeeder relayed timedOut status =>
    split
    · exact fits
    · exact fits
    · exact before
  case joiningDrainer relayed timedOut status fed =>
    split
    · exact fits
    · exact before
  case joiningWatchdog relayed timedOut status fed captured =>
    split
    · exact .inl fits
    · exact .inl fits
    · exact before
  case abandoning error => exact killGroup_gone .reaper
  case abandonKilling error =>
    exact GroupGone.step fits fun process member =>
      ⟨process, (List.mem_filter.mp member).1, .refl process⟩
  case abandonReaping error =>
    split
    · exact .inr fits
    · exact before
  case leaving result =>
    split
    · exact before
    · trivial
  case returned result => exact before

theorem step_finished (action : FilterAction T) (finished : (run.step action).watch = .finished) :
    run.watch = .finished ∨ ∃ reply relayed, action = .caller reply ∧
      run.caller = .standing relayed ∧ run.watch = .running := by
  have aside : (∀ reply, action ≠ .caller reply) → action ≠ .watchdog →
      (run.step action).watch = run.watch :=
    fun caller watchdog => (step_aside action caller watchdog).watch
  cases action with
  | caller reply =>
      by_cases standing : ∃ relayed, run.caller = .standing relayed
      · obtain ⟨relayed, phase⟩ := standing
        by_cases running : run.watch = .running
        · exact .inr ⟨reply, relayed, rfl, phase, running⟩
        · change (run.stepCaller reply).watch = .finished at finished
          unfold FilterRun.stepCaller at finished
          rw [phase] at finished
          exact .inl ((if_neg running).symm.trans finished)
      · exact .inl ((stepCaller_watch reply fun relayed phase =>
          standing ⟨relayed, phase⟩).symm.trans finished)
  | watchdog =>
      by_cases signalled : run.watchdog = some .signalled
      · change run.stepWatchdog.watch = .finished at finished
        unfold FilterRun.stepWatchdog at finished
        rw [signalled] at finished
        cases finished
      · exact .inl ((stepWatchdog_watch signalled).symm.trans finished)
  | _ => exact .inl ((aside nofun nofun).symm.trans finished)

theorem stepCaller_timedOut (reply : CallerReply T)
    (timedOut : (run.stepCaller reply).watch = .timedOut) : run.watch = .timedOut := by
  by_cases standing : ∃ relayed, run.caller = .standing relayed
  · obtain ⟨relayed, phase⟩ := standing
    unfold FilterRun.stepCaller at timedOut
    rw [phase] at timedOut
    dsimp only at timedOut
    split at timedOut
    · cases timedOut
    · exact timedOut
  · exact (stepCaller_watch reply fun relayed phase =>
      standing ⟨relayed, phase⟩).symm.trans timedOut

theorem stepCaller_signalled (reply : CallerReply T)
    (signalled : (run.stepCaller reply).watchdog = some .signalled) :
    run.watchdog = some .signalled := by
  revert signalled
  unfold FilterRun.stepCaller
  cases phase : run.caller
  all_goals
    dsimp only
    repeat' split
    all_goals first | exact id | exact nofun

theorem stepWatchdog_fired
    (fired : run.stepWatchdog.watch = .timedOut ∨ run.stepWatchdog.watchdog = some .signalled) :
    (run.watch = .timedOut ∨ run.watchdog = some .signalled) ∨ run.stepWatchdog.GroupGone := by
  revert fired
  unfold FilterRun.stepWatchdog
  cases phase : run.watchdog with
  | none =>
      rintro (late | signalled)
      · exact .inl (.inl late)
      · cases phase.symm.trans signalled
  | some supervisor =>
      cases supervisor with
      | killing => exact fun _ => .inr (killGroup_gone .watchdog)
      | signalled => exact fun _ => .inl (.inr rfl)
      | starting | parked | checking | deciding | ended =>
          dsimp only
          repeat' split
          all_goals
            rintro (late | signalled)
            · exact .inl (.inl late)
            · first | cases signalled | cases phase.symm.trans signalled

theorem step_fired (action : FilterAction T)
    (fired : (run.step action).watch = .timedOut ∨ (run.step action).watchdog = some .signalled) :
    (run.watch = .timedOut ∨ run.watchdog = some .signalled) ∨ (run.step action).GroupGone := by
  have aside : (∀ reply, action ≠ .caller reply) → action ≠ .watchdog →
      run.Aside (run.step action) := step_aside action
  cases action with
  | caller reply => exact .inl (fired.imp (stepCaller_timedOut reply) (stepCaller_signalled reply))
  | watchdog => exact stepWatchdog_fired fired
  | _ =>
      obtain ⟨_, _, watchdog, watch, _⟩ := aside nofun nofun
      exact .inl (fired.imp watch.symm.trans watchdog.symm.trans)

theorem stepWatchdog_watched (watched : run.watchdog ≠ none) :
    run.stepWatchdog.watchdog ≠ none := by
  unfold FilterRun.stepWatchdog
  repeat' split
  all_goals first | exact watched | exact nofun

theorem stepCaller_timeout (reply : CallerReply T) :
    (run.stepCaller reply).timeout = run.timeout := by
  unfold FilterRun.stepCaller
  cases phase : run.caller
  all_goals
    dsimp only
    repeat' split
    all_goals rfl

theorem step_timeout (action : FilterAction T) : (run.step action).timeout = run.timeout := by
  have aside : (∀ reply, action ≠ .caller reply) → action ≠ .watchdog →
      (run.step action).timeout = run.timeout :=
    fun caller watchdog => (step_aside action caller watchdog).timeout
  cases action with
  | caller reply => exact stepCaller_timeout reply
  | watchdog =>
      change run.stepWatchdog.timeout = run.timeout
      unfold FilterRun.stepWatchdog
      repeat' split
      all_goals rfl
  | _ => exact aside nofun nofun

theorem Bounded.step_caller (kept : run.Bounded) (action : FilterAction T) :
    (run.step action).DeadlineFits := by
  have within := @step_within T run action
  have aside : (∀ reply, action ≠ .caller reply) → action ≠ .watchdog →
      run.Aside (run.step action) := step_aside action
  cases action with
  | caller reply => exact kept.caller.stepCaller kept.timeout reply
  | watchdog =>
      refine kept.caller.aside ?_ stepWatchdog_watched within
      change run.stepWatchdog.caller = run.caller
      unfold FilterRun.stepWatchdog
      repeat' split
      all_goals rfl
  | _ =>
      obtain ⟨_, caller, watchdog, _⟩ := aside nofun nofun
      exact kept.caller.aside caller (watchdog ▸ id) within

theorem Bounded.step (kept : run.Bounded) {action : FilterAction T}
    (releases : run.Releases action) : (run.step action).Bounded := by
  have within := @step_within T run action
  refine ⟨kept.guarded.step action, (step_timeout action).symm ▸ kept.timeout,
    kept.step_caller action, ?_, ?_⟩
  · intro finished process member grouped engages
    obtain ⟨wide, found, narrowed⟩ := within process member
    have started := step_finished action finished
    obtain ⟨feeder, drainer⟩ : run.caller ≠ .spawningFeeder ∧ run.caller ≠ .spawningDrainer := by
      rcases started with earlier | ⟨_, _, _, phase, _⟩
      · refine ⟨fun phase => ?_, fun phase => ?_⟩
        all_goals
          have fits := kept.guarded.caller
          unfold CallerFits at fits
          rw [phase] at fits
          rw [kept.guarded.idle fits.1] at earlier
          cases earlier
      · rw [phase]
        exact ⟨nofun, nofun⟩
    have lags := step_lags action feeder drainer
    have engaged : run.Engages wide :=
      engages.imp (And.imp narrowed.stdin lags.1) (And.imp narrowed.stderr lags.2)
    rcases started with earlier | ⟨reply, relayed, same, phase, running⟩
    · exact kept.finished earlier wide found (narrowed.inGroup grouped) engaged
    · have fits := kept.caller
      unfold DeadlineFits at fits
      rw [phase] at fits
      have held := releases reply relayed same phase running wide found (narrowed.inGroup grouped)
        engaged
      cases relayed with
      | ok drained =>
          rw [fits.2 wide found] at held
          cases held
      | error failure =>
          have outside := fits.2 wide found
          rw [narrowed.inGroup grouped] at outside
          cases outside
  · intro fired
    rcases step_fired action fired with before | gone
    · exact (kept.fired before).step within
    · exact gone

theorem Bounded.covered (kept : run.Bounded) : run.Covered := by
  have alert : ∀ process ∈ run.processes, process.inGroup = true → run.Blocks process →
      run.watch = .running := by
    intro process member grouped blocks
    cases watch : run.watch with
    | running => rfl
    | finished => exact absurd blocks.engages (kept.finished watch process member grouped)
    | timedOut =>
        have outside := kept.fired (.inl watch) process member
        rw [grouped] at outside
        cases outside
  refine ⟨alert, fun joining process member grouped blocks => ?_⟩
  have running := alert process member grouped blocks
  have stood : ∀ timedOut, run.watchdog ≠ none → ¬ run.Stood timedOut :=
    fun _ watched stands => stands.2 watched running
  have safe := kept.guarded.caller
  have fits := kept.caller
  unfold Joining at joining
  unfold CallerFits at safe
  unfold DeadlineFits at fits
  cases phase : run.caller <;> rw [phase] at joining safe fits <;> try exact joining
  case joiningFeeder | joiningDrainer | joiningWatchdog => exact stood _ fits safe
  case leaving =>
    obtain ⟨timedOut, stands, _⟩ := safe
    rcases fits with watched | gone
    · exact stood _ watched stands
    · have outside := gone process member
      rw [grouped] at outside
      cases outside

def Meets : FilterRun T → List (FilterAction T) → Prop
  | _, [] => True
  | run, action :: rest => run.Releases action ∧ (run.step action).Meets rest

theorem Bounded.steps {actions : List (FilterAction T)} (kept : run.Bounded)
    (meets : run.Meets actions) : (run.steps actions).Bounded := by
  induction actions generalizing run with
  | nil => exact kept
  | cons action rest ih => exact ih (kept.step meets.1) meets.2

theorem Meets.take {before after : List (FilterAction T)} (meets : run.Meets (before ++ after)) :
    run.Meets before := by
  induction before generalizing run with
  | nil => trivial
  | cons action rest ih => exact ⟨meets.1, ih meets.2⟩

theorem Guarded.meets (kept : run.Guarded) (stopped : run.watch ≠ .running)
    (actions : List (FilterAction T)) : run.Meets actions := by
  induction actions generalizing run with
  | nil => trivial
  | cons action rest ih =>
      refine ⟨fun _ _ _ _ running => absurd running stopped, ih (kept.step action) ?_⟩
      rw [kept.watch_stays stopped action]
      exact stopped

theorem bounded_start {timeout : Nat} {streamed : Bool}
    {descriptorLen stdinCapacity stderrCapacity : Nat} :
    (start T (some timeout) streamed descriptorLen stdinCapacity stderrCapacity).Bounded where
  guarded := guarded_start
  timeout := rfl
  caller := trivial
  finished := nofun
  fired := by rintro (late | signalled) <;> contradiction

structure Continues (run next : FilterRun T) : Prop where
  processes : next.processes = run.processes
  watch : next.watch = run.watch

theorem Continues.trans {last : FilterRun T} (first : run.Continues next)
    (second : next.Continues last) : run.Continues last where
  processes := second.processes.trans first.processes
  watch := second.watch.trans first.watch

theorem stepDrainer_reads {kept rest : Bytes} {byte : UInt8}
    (phase : run.drainer = some (.reading kept)) (left : run.stderr.buffered = byte :: rest) :
    run.stepDrainer false =
      { run with
        drainer := some (.reading
          (kept ++ ((byte :: rest).take 4096).take (pipelineStderrCapBytes - kept.length)))
        stderr := { run.stderr with buffered := (byte :: rest).drop 4096 } } := by
  unfold FilterRun.stepDrainer
  rw [phase]
  dsimp only
  rw [left]
  exact if_neg Bool.false_ne_true

/-- A drainer that goes on reads the pipe empty. -/
theorem drainer_blocks (busy : run.draining = true) :
    ∃ more, (run.steps more).DrainerBlocked ∧ run.Continues (run.steps more) := by
  generalize size : run.stderr.buffered.length = length
  induction length using Nat.strongRecOn generalizing run with
  | ind length ih =>
      cases left : run.stderr.buffered with
      | nil => exact ⟨[], ⟨busy, left⟩, ⟨rfl, rfl⟩⟩
      | cons byte rest =>
          unfold draining at busy
          split at busy
          · rename_i kept phase
            have reads := stepDrainer_reads phase left
            have shorter : ((byte :: rest).drop 4096).length < length := by
              rw [← size, left, List.length_drop, List.length_cons]
              omega
            obtain ⟨more, blocked, same⟩ :=
              @ih _ shorter (run.stepDrainer false) (by rw [reads]; rfl) (by rw [reads])
            refine ⟨.drainer false :: more, blocked, Continues.trans ?_ same⟩
            rw [reads]
            exact ⟨rfl, rfl⟩
          · cases busy
          · cases busy

theorem stepFeeder_writes {total size : Nat} {rest : Bytes}
    (phase : run.feeder = some (.writing total size rest))
    (held : (run.processes.any fun process => process.stdin) = true) :
    run.stepFeeder .interrupted =
      { run with
        feeder :=
          match rest.drop run.stdin.room with
          | [] => some (.reading (total + size))
          | left => some (.writing total size left)
        stdin := { run.stdin with buffered := run.stdin.buffered ++ rest.take run.stdin.room } } := by
  unfold FilterRun.stepFeeder
  rw [phase]
  exact if_pos held

theorem stepFeeder_takes {total : Nat} (phase : run.feeder = some (.reading total)) :
    run.stepFeeder (.data [0]) = { run with feeder := some (.writing total 1 [0]) } := by
  unfold FilterRun.stepFeeder
  rw [phase]
  rfl

/-- A feeder whose source does not end fills the pipe, one byte at a time if need be. -/
theorem reading_blocks {total : Nat} (phase : run.feeder = some (.reading total))
    (held : (run.processes.any fun process => process.stdin) = true) :
    ∃ more, (run.steps more).FeederBlocked ∧ run.Continues (run.steps more) := by
  generalize size : run.stdin.room = room
  induction room generalizing run total with
  | zero =>
      have takes := stepFeeder_takes phase
      refine ⟨[.feeder (.data [0])], ?_⟩
      change (run.stepFeeder (.data [0])).FeederBlocked ∧
        run.Continues (run.stepFeeder (.data [0]))
      rw [takes]
      exact ⟨⟨⟨total, 1, [0], rfl, nofun⟩, size⟩, ⟨rfl, rfl⟩⟩
  | succ room ih =>
      have takes := stepFeeder_takes phase
      generalize taken : ({ run with feeder := some (.writing total 1 [0]) } : FilterRun T) = next
        at takes
      have writes := @stepFeeder_writes T next total 1 [0] (by rw [← taken])
        (by rw [← taken]; exact held)
      have room_next : next.stdin.room = room + 1 := by rw [← taken]; exact size
      rw [room_next, List.drop_succ_cons, List.drop_nil] at writes
      generalize written : next.stepFeeder .interrupted = last at writes
      have smaller : last.stdin.room = room := by
        rw [writes]
        unfold Pipe.room at room_next ⊢
        dsimp only
        rw [List.length_append, List.take_succ_cons, List.take_nil, List.length_singleton]
        omega
      obtain ⟨more, blocked, same⟩ := @ih last (total + 1) (by rw [writes])
        (by rw [writes, ← taken]; exact held) smaller
      refine ⟨.feeder (.data [0]) :: .feeder .interrupted :: more, ?_⟩
      change (((run.stepFeeder (.data [0])).stepFeeder .interrupted).steps more).FeederBlocked ∧
        run.Continues (((run.stepFeeder (.data [0])).stepFeeder .interrupted).steps more)
      rw [takes, written]
      refine ⟨blocked, Continues.trans ?_ same⟩
      rw [writes, ← taken]
      exact ⟨rfl, rfl⟩

theorem feeder_blocks (busy : run.feeding = true)
    (held : (run.processes.any fun process => process.stdin) = true) :
    ∃ more, (run.steps more).FeederBlocked ∧ run.Continues (run.steps more) := by
  unfold feeding at busy
  split at busy
  · exact reading_blocks (by assumption) held
  · rename_i total size rest phase
    have writes := stepFeeder_writes phase held
    cases left : rest.drop run.stdin.room with
    | nil =>
        rw [left] at writes
        generalize written : run.stepFeeder .interrupted = next at writes
        obtain ⟨more, blocked, same⟩ := @reading_blocks T next (total + size)
          (by rw [writes]) (by rw [writes]; exact held)
        refine ⟨.feeder .interrupted :: more, ?_⟩
        change ((run.stepFeeder .interrupted).steps more).FeederBlocked ∧
          run.Continues ((run.stepFeeder .interrupted).steps more)
        rw [written]
        refine ⟨blocked, Continues.trans ?_ same⟩
        rw [writes]
        exact ⟨rfl, rfl⟩
    | cons byte others =>
        rw [left] at writes
        refine ⟨[.feeder .interrupted], ?_⟩
        change (run.stepFeeder .interrupted).FeederBlocked ∧
          run.Continues (run.stepFeeder .interrupted)
        rw [writes]
        refine ⟨⟨⟨total, size, byte :: others, rfl, nofun⟩, ?_⟩, ⟨rfl, rfl⟩⟩
        have long : run.stdin.room ≤ rest.length := by
          by_contra short
          rw [List.drop_eq_nil_of_le (by omega)] at left
          cases left
        unfold Pipe.room at long ⊢
        dsimp only
        rw [List.length_append, List.length_take]
        omega
  · cases busy
  · cases busy

/-- Stood down with a worker engaged, the run may end up waiting for ever. -/
theorem standing_lost {action : FilterAction T} (engaged : ¬ run.Releases action) :
    (run.step action).watch = .finished ∧
      ∃ more, ¬ ((run.step action).steps more).Covered := by
  unfold Releases at engaged
  push Not at engaged
  obtain ⟨reply, relayed, rfl, phase, running, process, member, grouped, engages, _⟩ := engaged
  have stands : run.step (.caller reply) =
      { run with
        watch := .finished, lock := none, answered := some false,
        caller := .reaping relayed false } := by
    change run.stepCaller reply = _
    unfold FilterRun.stepCaller
    rw [phase]
    dsimp only
    rw [if_pos running]
    rfl
  rw [stands]
  refine ⟨rfl, ?_⟩
  generalize stood : ({ run with
        watch := .finished, lock := none, answered := some false,
        caller := .reaping relayed false } : FilterRun T) = next
  have watch : next.watch = .finished := stood ▸ rfl
  have found : process ∈ next.processes := stood ▸ member
  have uncovered : ∀ more, next.Continues (next.steps more) → (next.steps more).Blocks process →
      ¬ (next.steps more).Covered := by
    intro more same blocks covered
    have alert := covered.alert process (same.processes ▸ found) grouped blocks
    rw [same.watch, watch] at alert
    cases alert
  rcases engages with ⟨held, busy⟩ | ⟨held, busy⟩
  · obtain ⟨more, blocked, same⟩ := @feeder_blocks T next (stood ▸ busy)
      (List.any_eq_true.mpr ⟨process, found, held⟩)
    exact ⟨more, uncovered more same (.inl ⟨held, blocked⟩)⟩
  · obtain ⟨more, blocked, same⟩ := @drainer_blocks T next (stood ▸ busy)
    exact ⟨more, uncovered more same (.inr ⟨held, blocked⟩)⟩

theorem not_meets {actions : List (FilterAction T)} (fails : ¬ run.Meets actions) :
    ∃ before action after, actions = before ++ action :: after ∧
      ¬ (run.steps before).Releases action := by
  induction actions generalizing run with
  | nil => exact absurd trivial fails
  | cons action rest ih =>
      by_cases releases : run.Releases action
      · obtain ⟨before, other, after, shape, fails⟩ := ih fun meets => fails ⟨releases, meets⟩
        exact ⟨action :: before, other, after, by rw [shape]; rfl, fails⟩
      · exact ⟨[], action, rest, rfl, releases⟩

/-- The deadline covers a run exactly if, when the watchdog is stood down, whoever of the group
keeps a worker engaged has kept stdout too. -/
theorem deadline_covers (timeout : Nat) (streamed : Bool)
    (descriptorLen stdinCapacity stderrCapacity : Nat) (actions : List (FilterAction T)) :
    let run := start T (some timeout) streamed descriptorLen stdinCapacity stderrCapacity
    (run.Meets actions →
        ∀ before after, actions = before ++ after → (run.steps before).Covered) ∧
      (run.Meets actions ↔
        ∀ before after, actions = before ++ after → (run.steps before).watch = .finished →
          ∀ more, ((run.steps before).steps more).Covered) := by
  intro run
  have start : run.Bounded := bounded_start
  have reached : ∀ before after, actions = before ++ after → run.Meets actions →
      (run.steps before).Bounded := by
    rintro before after rfl meets
    exact start.steps meets.take
  refine ⟨fun meets before after shape => (reached before after shape meets).covered, ?_, ?_⟩
  · intro meets before after shape finished more
    have kept := reached before after shape meets
    have rest := kept.guarded.meets (finished ▸ nofun) more
    exact (kept.steps rest).covered
  · intro covered
    by_contra fails
    obtain ⟨before, action, after, shape, engaged⟩ := not_meets fails
    obtain ⟨finished, more, uncovered⟩ := standing_lost engaged
    have split : actions = (before ++ [action]) ++ after := by rw [shape]; simp
    have last : run.steps (before ++ [action]) = (run.steps before).step action :=
      List.foldl_concat ..
    have safe := covered (before ++ [action]) after split (last ▸ finished) more
    rw [last] at safe
    exact uncovered safe

def forkingRun (kept : Holding) : List (FilterAction Unit) :=
  [.caller .proceeds, .caller .proceeds, .caller .proceeds, .caller .proceeds, .fork 0 kept,
    .exit 0 (some 0)]

def concludingRun : List (FilterAction Unit) :=
  [.caller (.drained (.ok ())), .caller .proceeds, .caller .proceeds, .caller .proceeds,
    .caller .proceeds, .caller .proceeds]

-- The helper has no pipe, and outlives the run.
def outlivedRun : List (FilterAction Unit) :=
  forkingRun { stdin := false, stdout := false, stderr := false, inGroup := true } ++ concludingRun

-- The helper keeps stdout and stderr, and is killed at the deadline.
def overdueRun : List (FilterAction Unit) :=
  forkingRun { stdin := false, stdout := true, stderr := true, inGroup := true } ++
    [.caller (.drained (.ok ())), .expire, .watchdog, .watchdog, .watchdog, .watchdog, .watchdog] ++
    concludingRun

theorem deadline_covers_sample :
    let run := start Unit (some 1) false 0 0 8
    ((run.steps outlivedRun).processes.length = 1 ∧ (run.steps outlivedRun).watch = .finished ∧
      (run.steps outlivedRun).Covered) ∧
    (run.steps overdueRun).watch = .timedOut ∧ (run.steps overdueRun).Covered := by
  have outlived : (start Unit (some 1) false 0 0 8).Meets outlivedRun := by
    refine ⟨nofun, nofun, nofun, nofun, nofun, nofun, nofun, nofun, nofun, ?_, nofun, nofun,
      trivial⟩
    intro reply relayed same phase running process member grouped engages
    rw [List.mem_singleton.mp member] at engages
    rcases engages with ⟨held, _⟩ | ⟨held, _⟩
    · cases held
    · cases held
  have overdue : (start Unit (some 1) false 0 0 8).Meets overdueRun := by
    refine ⟨nofun, nofun, nofun, nofun, nofun, nofun, nofun, nofun, nofun, nofun, nofun, nofun,
      nofun, nofun, nofun, nofun, ?_, nofun, nofun, trivial⟩
    intro reply relayed same phase running
    cases running
  refine ⟨⟨rfl, rfl, ?_⟩, rfl, ?_⟩
  · exact (deadline_covers 1 false 0 0 8 _).1 outlived _ [] (List.append_nil _).symm
  · exact (deadline_covers 1 false 0 0 8 _).1 overdue _ [] (List.append_nil _).symm

/-- A helper that lets go of stdout and keeps stderr outlives the child: the caller waits to join
the drainer, and the watchdog has been stood down. -/
theorem deadline_covers_counterexample :
    ¬ ((start Unit (some 1) false 0 0 8).steps
      [.caller .proceeds, .caller .proceeds, .caller .proceeds, .caller .proceeds,
        .fork 0 { stdin := false, stdout := false, stderr := true, inGroup := true },
        .exit 0 (some 0), .caller (.drained (.ok ())), .caller .proceeds, .caller .proceeds,
        .caller .proceeds, .caller .proceeds, .caller .proceeds]).Covered := by
  intro covered
  exact covered.joined trivial _ List.mem_cons_self rfl (.inr ⟨rfl, rfl, rfl⟩)

end FilterRun

end Y4p
