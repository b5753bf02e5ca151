import Y4p.Image.Pipeline

/-!
The watchdog of a filter run: in every interleaving of its thread with the calling thread, the
workers and the child's processes, no signal goes to a reaped child.
-/

namespace Y4p.FilterRun

variable {T : Type} {run next : FilterRun T}

def Unreaped (run : FilterRun T) : Prop :=
  ∀ code, run.child ≠ .reaped code

def Stood (run : FilterRun T) (timedOut : Bool) : Prop :=
  (timedOut = true ↔ run.watch = .timedOut) ∧ (run.watchdog ≠ none → run.watch ≠ .running)

def CallerFits (run : FilterRun T) : Prop :=
  match run.caller with
  | .takingPipes | .spawningFeeder | .spawningDrainer | .spawningWatchdog
  | .abandoning _ | .abandonKilling _ | .abandonReaping _ => run.watchdog = none ∧ run.Unreaped
  | .draining | .killing _ => run.Unreaped
  | .waiting _ | .finishing _ => run.watchdog ≠ none ∧ run.Unreaped
  | .standing _ => run.watchdog ≠ none ∧ run.Unreaped ∧ run.lock = some .caller
  | .reaping _ timedOut => run.Unreaped ∧ run.Stood timedOut
  | .joiningFeeder _ timedOut _ | .joiningDrainer _ timedOut _ _
  | .joiningWatchdog _ timedOut _ _ _ => run.Stood timedOut
  | .leaving result | .returned result =>
      ∃ timedOut, run.Stood timedOut ∧
        ((∃ limit, result = .error (.timeout limit)) ↔ timedOut = true)

def WatchdogFits (run : FilterRun T) : Prop :=
  match run.watchdog with
  | none => run.watch = .running
  | some .starting | some .parked => True
  | some .checking | some .deciding => run.lock = some .watchdog
  | some .killing | some .signalled => run.lock = some .watchdog ∧ run.watch = .running
  | some .ended => run.watch ≠ .running

def KilledByWatchdog (run : FilterRun T) : Prop :=
  ∃ signal ∈ run.signals, signal.sender = .watchdog

structure Guarded (run : FilterRun T) : Prop where
  caller : run.CallerFits
  watchdog : run.WatchdogFits
  unreaped : ∀ signal ∈ run.signals, ∀ code, signal.child ≠ .reaped code
  fired : run.KilledByWatchdog ↔ run.watch = .timedOut ∨ run.watchdog = some .signalled
  answers : ∀ answer, run.answered = some answer →
    (answer = true ↔ run.watch = .timedOut) ∧ run.watch ≠ .running

theorem exit_unreaped {state : ChildState} (before : ∀ code, state ≠ .reaped code)
    (code other : Option Int) : state.exit code ≠ .reaped other := by
  cases state with
  | running => exact nofun
  | zombie earlier => exact nofun
  | reaped earlier => exact absurd rfl (before earlier)

theorem killGroup_unreaped (unreaped : run.Unreaped) (sender : Sender) :
    (run.killGroup sender).Unreaped := by
  unfold Unreaped killGroup
  dsimp only
  split
  · exact exit_unreaped unreaped none
  · exact unreaped

theorem signals_unreaped {signals : List Signal}
    (before : ∀ signal ∈ signals, ∀ code, signal.child ≠ .reaped code) {child : ChildState}
    (unreaped : ∀ code, child ≠ .reaped code) (sender : Sender) :
    ∀ signal ∈ signals ++ [{ sender := sender, child := child }], ∀ code,
      signal.child ≠ .reaped code := by
  intro signal member
  rcases List.mem_append.mp member with earlier | last
  · exact before signal earlier
  · rw [List.mem_singleton.mp last]
    exact unreaped

theorem sent_snoc {signals : List Signal} {sender : Sender} (other : sender ≠ .watchdog)
    (child : ChildState) :
    (∃ signal ∈ signals ++ [{ sender := sender, child := child }],
        Signal.sender signal = .watchdog) ↔
      ∃ signal ∈ signals, Signal.sender signal = .watchdog := by
  simp only [List.mem_append, List.mem_singleton, or_and_right, exists_or, exists_eq_left,
    or_iff_left other]

theorem Guarded.proceed (kept : run.Guarded) (watchdog : next.watchdog = run.watchdog)
    (watch : next.watch = run.watch) (lock : next.lock = run.lock)
    (signals : next.signals = run.signals) (answered : next.answered = run.answered)
    (fits : next.CallerFits) : next.Guarded := by
  refine ⟨fits, ?_, ?_, ?_, ?_⟩
  · unfold WatchdogFits
    rw [watchdog, watch, lock]
    exact kept.watchdog
  · rw [signals]
    exact kept.unreaped
  · unfold KilledByWatchdog
    rw [signals, watch, watchdog]
    exact kept.fired
  · rw [answered, watch]
    exact kept.answers

structure Aside (run next : FilterRun T) : Prop where
  timeout : next.timeout = run.timeout
  caller : next.caller = run.caller
  watchdog : next.watchdog = run.watchdog
  watch : next.watch = run.watch
  lock : next.lock = run.lock
  signals : next.signals = run.signals
  answered : next.answered = run.answered
  child : run.Unreaped → next.Unreaped

theorem Guarded.aside (kept : run.Guarded) (aside : run.Aside next) : next.Guarded := by
  refine kept.proceed aside.watchdog aside.watch aside.lock aside.signals aside.answered ?_
  have fits := kept.caller
  have child := aside.child
  unfold CallerFits Stood at fits ⊢
  rw [aside.caller, aside.watchdog, aside.watch, aside.lock]
  cases phase : run.caller <;> rw [phase] at fits
  case takingPipes | spawningFeeder | spawningDrainer | spawningWatchdog | abandoning
    | abandonKilling | abandonReaping | waiting | finishing => exact fits.imp_right child
  case draining | killing => exact child fits
  case standing => exact ⟨fits.1, child fits.2.1, fits.2.2⟩
  case reaping => exact fits.imp_left child
  all_goals exact fits

theorem Guarded.sends {sender : Sender} (kept : run.Guarded)
    (unreaped : run.Unreaped) (other : sender ≠ .watchdog)
    (watchdog : next.watchdog = run.watchdog) (watch : next.watch = run.watch)
    (lock : next.lock = run.lock)
    (signals : next.signals = run.signals ++ [{ sender := sender, child := run.child }])
    (answered : next.answered = run.answered) (fits : next.CallerFits) : next.Guarded := by
  refine ⟨fits, ?_, ?_, ?_, ?_⟩
  · unfold WatchdogFits
    rw [watchdog, watch, lock]
    exact kept.watchdog
  · rw [signals]
    exact signals_unreaped kept.unreaped unreaped sender
  · unfold KilledByWatchdog
    rw [signals, watch, watchdog, sent_snoc other]
    exact kept.fired
  · rw [answered, watch]
    exact kept.answers

theorem relay_fits {relayed : Except RelayFailure T} (unreaped : run.Unreaped)
    (idle : run.watchdog = none → run.watch = .running) : (run.relay relayed).CallerFits := by
  unfold relay
  split
  · rename_i alone
    refine ⟨unreaped, iff_of_false nofun ?_, fun watched => absurd alone watched⟩
    change run.watch ≠ .timedOut
    rw [idle alone]
    exact nofun
  · rename_i watched
    exact ⟨watched, unreaped⟩

theorem Guarded.idle (kept : run.Guarded) (alone : run.watchdog = none) : run.watch = .running := by
  have fits := kept.watchdog
  unfold WatchdogFits at fits
  rw [alone] at fits
  exact fits

theorem Guarded.unlocked (kept : run.Guarded) (free : run.lock ≠ some .watchdog) :
    (run.watchdog = none ∧ run.watch = .running) ∨ run.watchdog = some .starting ∨
      run.watchdog = some .parked ∨ (run.watchdog = some .ended ∧ run.watch ≠ .running) := by
  have fits := kept.watchdog
  unfold WatchdogFits at fits
  cases phase : run.watchdog with
  | none =>
      rw [phase] at fits
      exact .inl ⟨rfl, fits⟩
  | some supervisor =>
      rw [phase] at fits
      cases supervisor with
      | starting => exact .inr (.inl rfl)
      | parked => exact .inr (.inr (.inl rfl))
      | ended => exact .inr (.inr (.inr ⟨rfl, fits⟩))
      | checking | deciding => exact absurd fits free
      | killing | signalled => exact absurd fits.1 free

theorem conclude_timeout {relayed : Except RelayFailure T} {timedOut : Bool} {status : Option Int}
    {fed : Option (Except FeedFailure Nat)} {captured : Bytes} :
    (∃ limit, run.conclude relayed timedOut status fed captured = .error (.timeout limit)) ↔
      timedOut = true := by
  unfold conclude
  refine ⟨?_, ?_⟩
  · rintro ⟨limit, same⟩
    by_contra inTime
    rw [if_neg inTime] at same
    split at same
    · cases same
    · cases same
    · split at same
      · cases same
      · cases same
      · split at same <;> cases same
  · intro late
    rw [if_pos late]
    exact ⟨_, rfl⟩

/-- `finish` takes the lock: the watchdog is outside of it. -/
theorem Guarded.locks {relayed : Except RelayFailure T} (kept : run.Guarded)
    (watched : run.watchdog ≠ none) (unreaped : run.Unreaped) (free : run.lock = none) :
    ({ run with lock := some .caller, caller := .standing relayed } : FilterRun T).Guarded := by
  refine ⟨⟨watched, unreaped, rfl⟩, ?_, kept.unreaped, kept.fired, kept.answers⟩
  unfold WatchdogFits
  rcases kept.unlocked (free ▸ nofun) with ⟨phase, idle⟩ | phase | phase | ⟨phase, fired⟩
  · rw [phase]
    exact idle
  · rw [phase]
    trivial
  · rw [phase]
    trivial
  · rw [phase]
    exact fired

/-- `finish` settles the watch, and answers for whom. -/
theorem Guarded.standsDown {relayed : Except RelayFailure T} {watch : WatchState}
    (kept : run.Guarded) (watched : run.watchdog ≠ none) (unreaped : run.Unreaped)
    (locked : run.lock = some .caller)
    (settled : watch = if run.watch = .running then .finished else run.watch) :
    ({ run with
      watch := watch, lock := none, answered := some (decide (watch = .timedOut)),
      caller := .reaping relayed (decide (watch = .timedOut)) } : FilterRun T).Guarded := by
  have stopped : watch ≠ .running := by
    rw [settled]
    split
    · exact nofun
    · assumption
  have fired : watch = .timedOut ↔ run.watch = .timedOut := by
    rw [settled]
    split
    · rename_i still
      exact iff_of_false nofun (still ▸ nofun)
    · rfl
  refine ⟨⟨unreaped, decide_eq_true_iff, fun _ => stopped⟩, ?_, kept.unreaped, ?_, ?_⟩
  · unfold WatchdogFits
    rcases kept.unlocked (locked ▸ nofun) with ⟨phase, _⟩ | phase | phase | ⟨phase, _⟩
    · exact absurd phase watched
    · rw [phase]
      trivial
    · rw [phase]
      trivial
    · rw [phase]
      exact stopped
  · exact kept.fired.trans (or_congr_left fired.symm)
  · intro answer same
    cases same
    exact ⟨decide_eq_true_iff, stopped⟩

theorem Guarded.stepCaller (kept : run.Guarded) (reply : CallerReply T) :
    (run.stepCaller reply).Guarded := by
  have fits := kept.caller
  unfold CallerFits at fits
  unfold FilterRun.stepCaller
  cases phase : run.caller <;> rw [phase] at fits <;> dsimp only at fits ⊢
  case takingPipes => split <;> exact kept.proceed rfl rfl rfl rfl rfl fits
  case spawningFeeder =>
    split
    · split <;> exact kept.proceed rfl rfl rfl rfl rfl fits
    · exact kept.proceed rfl rfl rfl rfl rfl fits
  case spawningDrainer => split <;> exact kept.proceed rfl rfl rfl rfl rfl fits
  case spawningWatchdog =>
    split
    · split
      · exact kept.proceed rfl rfl rfl rfl rfl fits
      · refine ⟨fits.2, trivial, kept.unreaped, ?_, kept.answers⟩
        have fired := kept.fired
        rw [fits.1] at fired
        exact fired.trans (or_congr_right (iff_of_false nofun nofun))
    · exact kept.proceed rfl rfl rfl rfl rfl fits.2
  case draining =>
    split
    · exact kept.proceed rfl rfl rfl rfl rfl fits
    · split
      · exact kept
      · exact kept.proceed rfl rfl rfl rfl rfl (relay_fits fits kept.idle)
    · exact kept
  case killing failure =>
    exact kept.sends fits (show Sender.relay ≠ .watchdog from nofun) rfl rfl rfl rfl rfl
      (relay_fits (killGroup_unreaped fits _) kept.idle)
  case waiting relayed =>
    split
    · exact kept
    · exact kept.proceed rfl rfl rfl rfl rfl fits
  case finishing relayed =>
    split
    · rename_i free
      exact kept.locks fits.1 fits.2 free
    · exact kept
  case standing relayed => exact kept.standsDown fits.1 fits.2.1 fits.2.2 rfl
  case reaping relayed timedOut =>
    split
    · exact kept.proceed rfl rfl rfl rfl rfl fits.2
    · exact kept
  case joiningFeeder relayed timedOut status =>
    split
    · exact kept.proceed rfl rfl rfl rfl rfl fits
    · exact kept.proceed rfl rfl rfl rfl rfl fits
    · exact kept
  case joiningDrainer relayed timedOut status fed =>
    split
    · exact kept.proceed rfl rfl rfl rfl rfl fits
    · exact kept
  case joiningWatchdog relayed timedOut status fed captured =>
    split
    · exact kept.proceed rfl rfl rfl rfl rfl ⟨timedOut, fits, conclude_timeout⟩
    · exact kept.proceed rfl rfl rfl rfl rfl ⟨timedOut, fits, conclude_timeout⟩
    · exact kept
  case abandoning error =>
    exact kept.sends fits.2 (show Sender.reaper ≠ .watchdog from nofun) rfl rfl rfl rfl rfl
      ⟨fits.1, killGroup_unreaped fits.2 .reaper⟩
  case abandonKilling error =>
    exact kept.sends fits.2 (show Sender.reaper ≠ .watchdog from nofun) rfl rfl rfl rfl rfl
      ⟨fits.1, exit_unreaped fits.2 none⟩
  case abandonReaping error =>
    split
    · have idle := kept.idle fits.1
      refine kept.proceed rfl rfl rfl rfl rfl
        ⟨false, ⟨iff_of_false nofun ?_, fun watched => absurd fits.1 watched⟩,
          iff_of_false nofun nofun⟩
      change run.watch ≠ .timedOut
      rw [idle]
      exact nofun
    · exact kept
  case leaving result =>
    split
    · exact kept
    · exact kept.proceed rfl rfl rfl rfl rfl fits
  case returned result => exact kept

theorem Guarded.supervised (kept : run.Guarded) (watched : run.watchdog ≠ none)
    (caller : next.caller = run.caller) (stays : next.watchdog ≠ none)
    (child : run.Unreaped → next.Unreaped)
    (lock : run.lock = some .caller → next.lock = some .caller)
    (watch : run.watch ≠ .running → next.watch = run.watch) : next.CallerFits := by
  have fits := kept.caller
  have stood : ∀ timedOut, run.Stood timedOut → next.Stood timedOut := by
    intro timedOut stands
    have stopped := stands.2 watched
    refine ⟨?_, fun _ => ?_⟩
    · rw [watch stopped]
      exact stands.1
    · rw [watch stopped]
      exact stopped
  unfold CallerFits at fits ⊢
  rw [caller]
  cases phase : run.caller <;> rw [phase] at fits
  case takingPipes | spawningFeeder | spawningDrainer | spawningWatchdog | abandoning
    | abandonKilling | abandonReaping => exact absurd fits.1 watched
  case draining | killing => exact child fits
  case waiting | finishing => exact ⟨stays, child fits.2⟩
  case standing => exact ⟨stays, child fits.2.1, lock fits.2.2⟩
  case reaping => exact fits.imp child (stood _)
  case joiningFeeder | joiningDrainer | joiningWatchdog => exact stood _ fits
  case leaving | returned => exact fits.imp fun _ facts => facts.imp_left (stood _)

theorem Guarded.alert (kept : run.Guarded) (watched : run.watchdog ≠ none)
    (running : run.watch = .running) : run.Unreaped := by
  have fits := kept.caller
  have stood : ∀ timedOut, ¬ run.Stood timedOut := fun _ stands => stands.2 watched running
  unfold CallerFits at fits
  cases phase : run.caller <;> rw [phase] at fits
  case takingPipes | spawningFeeder | spawningDrainer | spawningWatchdog | abandoning
    | abandonKilling | abandonReaping | waiting | finishing => exact fits.2
  case draining | killing => exact fits
  case standing => exact fits.2.1
  case reaping => exact fits.1
  case joiningFeeder | joiningDrainer | joiningWatchdog => exact absurd fits (stood _)
  case leaving | returned => exact fits.elim fun _ facts => absurd facts.1 (stood _)

theorem Guarded.turns (kept : run.Guarded) {before after : Supervisor} {lock : Option Party}
    (phase : run.watchdog = some before) (quiet : before ≠ .signalled) (still : after ≠ .signalled)
    (lock' : run.lock = some .caller → lock = some .caller)
    (fits : WatchdogFits { run with watchdog := some after, lock := lock }) :
    Guarded { run with watchdog := some after, lock := lock } := by
  refine ⟨?_, fits, kept.unreaped, ?_, kept.answers⟩
  · exact kept.supervised (phase ▸ nofun) rfl nofun id lock' fun _ => rfl
  · refine kept.fired.trans (or_congr_right (iff_of_false ?_ ?_))
    · rw [phase]
      exact fun same => quiet (Option.some.inj same)
    · exact fun same => still (Option.some.inj same)

theorem Guarded.stepWatchdog (kept : run.Guarded) : run.stepWatchdog.Guarded := by
  have fits := kept.watchdog
  unfold WatchdogFits at fits
  unfold FilterRun.stepWatchdog
  cases phase : run.watchdog with
  | none => exact kept
  | some supervisor =>
      rw [phase] at fits
      cases supervisor with
      | starting | parked =>
          dsimp only
          split
          · rename_i free
            exact kept.turns phase nofun nofun (free ▸ nofun) rfl
          · exact kept
      | checking =>
          dsimp only
          split
          · exact kept.turns phase nofun nofun id fits
          · exact kept.turns phase nofun nofun (fits ▸ nofun) trivial
      | deciding =>
          dsimp only
          split
          · rename_i running
            exact kept.turns phase nofun nofun id ⟨fits, running⟩
          · rename_i stopped
            exact kept.turns phase nofun nofun (fits ▸ nofun) stopped
      | killing =>
          have watched : run.watchdog ≠ none := phase ▸ nofun
          have unreaped := kept.alert watched fits.2
          refine ⟨?_, ⟨fits.1, fits.2⟩, ?_, ?_, kept.answers⟩
          · exact kept.supervised watched rfl nofun
              (fun unreaped => killGroup_unreaped unreaped .watchdog) id fun _ => rfl
          · exact signals_unreaped kept.unreaped unreaped .watchdog
          · exact iff_of_true ⟨_, List.mem_append_right _ List.mem_cons_self, rfl⟩ (.inr rfl)
      | signalled =>
          have watched : run.watchdog ≠ none := phase ▸ nofun
          refine ⟨?_, nofun, kept.unreaped, ?_, ?_⟩
          · exact kept.supervised watched rfl nofun id
              (fun held => absurd (fits.1.symm.trans held) nofun)
              fun stopped => absurd fits.2 stopped
          · exact iff_of_true (kept.fired.mpr (.inr phase)) (.inl rfl)
          · exact fun answer same => absurd fits.2 (kept.answers answer same).2
      | ended => exact kept

theorem stepProcess_kept {motive : FilterRun T → Prop} {index : Nat}
    {change : Process → FilterRun T} (same : motive run)
    (changed : ∀ process ∈ run.processes, motive (change process)) :
    motive (run.stepProcess index change) := by
  unfold stepProcess
  split
  · rename_i found
    exact changed _ (List.mem_of_getElem? found)
  · exact same

theorem step_aside (action : FilterAction T) (caller : ∀ reply, action ≠ .caller reply)
    (watchdog : action ≠ .watchdog) : run.Aside (run.step action) := by
  have same : run.Aside run := ⟨rfl, rfl, rfl, rfl, rfl, rfl, rfl, id⟩
  cases action with
  | caller reply => exact absurd rfl (caller reply)
  | watchdog => exact absurd rfl watchdog
  | feeder reply =>
      unfold FilterRun.step stepFeeder
      dsimp only
      repeat' split
      all_goals exact ⟨rfl, rfl, rfl, rfl, rfl, rfl, rfl, id⟩
  | drainer fails =>
      unfold FilterRun.step stepDrainer
      dsimp only
      repeat' split
      all_goals exact ⟨rfl, rfl, rfl, rfl, rfl, rfl, rfl, id⟩
  | expire => exact ⟨rfl, rfl, rfl, rfl, rfl, rfl, rfl, id⟩
  | exit index code =>
      refine stepProcess_kept same fun process _ => ?_
      refine ⟨rfl, rfl, rfl, rfl, rfl, rfl, rfl, fun unreaped => ?_⟩
      unfold Unreaped
      dsimp only
      split
      · exact exit_unreaped unreaped code
      · exact unreaped
  | fork | narrow =>
      exact stepProcess_kept same fun _ _ => ⟨rfl, rfl, rfl, rfl, rfl, rfl, rfl, id⟩
  | consume | complain =>
      refine stepProcess_kept same fun process _ => ?_
      split
      · exact ⟨rfl, rfl, rfl, rfl, rfl, rfl, rfl, id⟩
      · exact same

theorem Guarded.step (kept : run.Guarded) (action : FilterAction T) : (run.step action).Guarded := by
  cases action with
  | caller reply => exact kept.stepCaller reply
  | watchdog => exact kept.stepWatchdog
  | _ => exact kept.aside (step_aside _ nofun nofun)

theorem guarded_start {timeout : Option Nat} {streamed : Bool}
    {descriptorLen stdinCapacity stderrCapacity : Nat} :
    (start T timeout streamed descriptorLen stdinCapacity stderrCapacity).Guarded where
  caller := ⟨rfl, nofun⟩
  watchdog := rfl
  unreaped := nofun
  fired := iff_of_false (fun ⟨_, member, _⟩ => nomatch member) <| by
    rintro (late | sent) <;> contradiction
  answers := nofun

theorem Guarded.steps (kept : run.Guarded) (actions : List (FilterAction T)) :
    (run.steps actions).Guarded := by
  induction actions generalizing run with
  | nil => exact kept
  | cons action rest ih => exact ih (kept.step action)

theorem stepCaller_watch (reply : CallerReply T)
    (elsewhere : ∀ relayed, run.caller ≠ .standing relayed) :
    (run.stepCaller reply).watch = run.watch := by
  unfold FilterRun.stepCaller
  cases phase : run.caller
  case standing relayed => exact absurd phase (elsewhere relayed)
  all_goals
    dsimp only
    repeat' split
    all_goals rfl

theorem stepWatchdog_watch (quiet : run.watchdog ≠ some .signalled) :
    run.stepWatchdog.watch = run.watch := by
  unfold FilterRun.stepWatchdog
  repeat' split
  case h_6 => contradiction
  all_goals rfl

theorem Guarded.watch_stays (kept : run.Guarded) (stopped : run.watch ≠ .running)
    (action : FilterAction T) : (run.step action).watch = run.watch := by
  cases action with
  | caller reply =>
      by_cases standing : ∃ relayed, run.caller = .standing relayed
      · obtain ⟨relayed, phase⟩ := standing
        change (run.stepCaller reply).watch = run.watch
        unfold FilterRun.stepCaller
        rw [phase]
        exact if_neg stopped
      · exact stepCaller_watch reply fun relayed phase => standing ⟨relayed, phase⟩
  | watchdog =>
      refine stepWatchdog_watch fun phase => stopped ?_
      have fits := kept.watchdog
      unfold WatchdogFits at fits
      rw [phase] at fits
      exact fits.2
  | _ => exact Aside.watch (step_aside _ nofun nofun)

theorem Guarded.watch_lasts (kept : run.Guarded) (stopped : run.watch ≠ .running)
    (actions : List (FilterAction T)) : (run.steps actions).watch = run.watch := by
  induction actions generalizing run with
  | nil => rfl
  | cons action rest ih =>
      have stays := kept.watch_stays stopped action
      exact (ih (kept.step action) (stays ▸ stopped)).trans stays

theorem Guarded.fired_of_stopped (kept : run.Guarded) (stopped : run.watch ≠ .running) :
    run.KilledByWatchdog ↔ run.watch = .timedOut := by
  refine kept.fired.trans (or_iff_left fun phase => stopped ?_)
  have fits := kept.watchdog
  unfold WatchdogFits at fits
  rw [phase] at fits
  exact fits.2

structure WatchdogSafe (run : FilterRun T) : Prop where
  unreaped : ∀ signal ∈ run.signals, ∀ code, signal.child ≠ .reaped code
  lasting : run.watch ≠ .running → ∀ actions, (run.steps actions).watch = run.watch
  answers : ∀ answer, run.answered = some answer → (answer = true ↔ run.KilledByWatchdog)
  ends : ∀ result, run.caller = .returned result →
    ((∃ limit, result = .error (.timeout limit)) ↔ run.KilledByWatchdog)

/-- In every reachable state, whichever way the threads and the processes have taken turns. -/
theorem watchdog_safe (timeout : Option Nat) (streamed : Bool)
    (descriptorLen stdinCapacity stderrCapacity : Nat) (actions : List (FilterAction T)) :
    ((start T timeout streamed descriptorLen stdinCapacity stderrCapacity).steps
      actions).WatchdogSafe := by
  have kept : ((start T timeout streamed descriptorLen stdinCapacity stderrCapacity).steps
      actions).Guarded := guarded_start.steps actions
  revert kept
  generalize (start T timeout streamed descriptorLen stdinCapacity stderrCapacity).steps
    actions = run
  intro kept
  refine ⟨kept.unreaped, fun stopped more => kept.watch_lasts stopped more, ?_, ?_⟩
  · intro answer same
    obtain ⟨late, stopped⟩ := kept.answers answer same
    exact late.trans (kept.fired_of_stopped stopped).symm
  · intro result phase
    have fits := kept.caller
    unfold CallerFits at fits
    rw [phase] at fits
    obtain ⟨timedOut, stands, timeout⟩ := fits
    rw [timeout, stands.1]
    by_cases watched : run.watchdog = none
    · rw [kept.fired, watched]
      exact (or_iff_left nofun).symm
    · exact (kept.fired_of_stopped (stands.2 watched)).symm

end Y4p.FilterRun
