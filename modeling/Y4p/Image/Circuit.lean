import Mathlib.Data.List.Perm.Basic
import Y4p.Image.Breaker

/-!
A circuit breaker shared by any number of callers: every order in which they acquire,
resolve and drop permits, at any times.
-/

namespace Y4p

structure BreakerReport where
  met : CircuitBreaker.Inner
  canary : Bool
  outcome : PermitOutcome
  tripped : Bool
  recovered : Bool

structure OutstandingPermit where
  permit : Permit
  since : Nat

structure Circuit where
  breaker : CircuitBreaker
  permits : List OutstandingPermit
  reports : List BreakerReport

-- Every call takes the breaker's lock for all it does. `index` finds an unresolved permit.
inductive CircuitAction where
  | acquireAt (now : Instant)
  | resolveAt (index : Nat) (outcome : PermitOutcome) (now : Instant)
  | drop (index : Nat) (now : Instant)

namespace Circuit

def start (threshold : UInt32) (cooldown : Nat) : Circuit where
  breaker := .new threshold cooldown
  permits := []
  reports := []

def acquireAt (now : Instant) (circuit : Circuit) : Circuit :=
  match circuit.breaker.acquireAt now with
  | (some permit, breaker) =>
      { circuit with
        breaker := breaker
        permits := circuit.permits ++ [{ permit := permit, since := circuit.reports.length }] }
  | (none, breaker) => { circuit with breaker := breaker }

def settle (index : Nat) (outcome : PermitOutcome)
    (resolve : Permit → CircuitBreaker → (Bool × Bool) × CircuitBreaker) (circuit : Circuit) :
    Circuit :=
  match circuit.permits[index]? with
  | none => circuit
  | some outstanding =>
      let ((tripped, recovered), breaker) := resolve outstanding.permit circuit.breaker
      { breaker := breaker
        permits := circuit.permits.eraseIdx index
        reports :=
          { met := circuit.breaker.inner, canary := outstanding.permit.canary, outcome := outcome,
            tripped := tripped, recovered := recovered } :: circuit.reports }

def step (circuit : Circuit) : CircuitAction → Circuit
  | .acquireAt now => circuit.acquireAt now
  | .resolveAt index outcome now =>
      circuit.settle index outcome fun permit => permit.resolveAt outcome now
  | .drop index now => circuit.settle index .failure fun permit => permit.drop now

def run (circuit : Circuit) (actions : List CircuitAction) : Circuit :=
  actions.foldl step circuit

def canaries (circuit : Circuit) : Nat :=
  circuit.permits.countP fun outstanding => outstanding.permit.canary

end Circuit

namespace BreakerReport

def applied (report : BreakerReport) : Bool :=
  match report.met, report.canary with
  | .closed _, false | .halfOpen true, true => true
  | _, _ => false

def resets (report : BreakerReport) : Bool :=
  report.applied && report.outcome = .success

def counts (report : BreakerReport) : Bool :=
  report.applied && !report.canary && report.outcome = .failure

end BreakerReport

def Circuit.failures (circuit : Circuit) : Nat :=
  (circuit.reports.takeWhile fun report => !report.resets).countP BreakerReport.counts

section
variable {permit : Permit} {breaker : CircuitBreaker} {failures : UInt32} {now : Instant}

theorem acquireAt_threshold (now : Instant) (breaker : CircuitBreaker) :
    (breaker.acquireAt now).2.threshold = breaker.threshold ∧
      (breaker.acquireAt now).2.cooldown = breaker.cooldown := by
  unfold CircuitBreaker.acquireAt
  split
  · exact ⟨rfl, rfl⟩
  · split <;> exact ⟨rfl, rfl⟩
  · exact ⟨rfl, rfl⟩
  · exact ⟨rfl, rfl⟩

theorem resolveAt_regular_success (closed : breaker.inner = .closed failures)
    (regular : permit.canary = false) :
    permit.resolveAt .success now breaker =
      ((false, false), { breaker with inner := .closed 0 }) := by
  unfold Permit.resolveAt CircuitBreaker.resolve
  rw [closed, regular]

theorem resolveAt_regular_release (closed : breaker.inner = .closed failures)
    (regular : permit.canary = false) :
    permit.resolveAt .release now breaker = ((false, false), breaker) := by
  unfold Permit.resolveAt CircuitBreaker.resolve
  rw [closed, regular]

theorem resolveAt_regular_failure (closed : breaker.inner = .closed failures)
    (regular : permit.canary = false) :
    permit.resolveAt .failure now breaker =
      if breaker.threshold.toNat ≤ failures.toNat + 1 then
        ((true, false), { breaker with inner := .opened (now + breaker.cooldown) })
      else ((false, false), { breaker with inner := .closed (failures + 1) }) := by
  have saturates : breaker.threshold.toNat ≤ min (failures.toNat + 1) (2 ^ 32 - 1) ↔
      breaker.threshold.toNat ≤ failures.toNat + 1 := by
    have bound := breaker.threshold.toNat_lt
    omega
  unfold Permit.resolveAt CircuitBreaker.resolve
  rw [closed, regular]
  dsimp only
  simp only [saturates]

theorem resolveAt_canary (probing : breaker.inner = .halfOpen true) (canary : permit.canary = true)
    (outcome : PermitOutcome) :
    permit.resolveAt outcome now breaker =
      match outcome with
      | .success => ((false, true), { breaker with inner := .closed 0 })
      | .failure => ((true, false), { breaker with inner := .opened (now + breaker.cooldown) })
      | .release => ((false, false), { breaker with inner := .halfOpen false }) := by
  unfold Permit.resolveAt CircuitBreaker.resolve
  rw [probing, canary]
  cases outcome <;> rfl

/-- A regular report is heard in the closed state only. -/
theorem resolveAt_regular_ignored (moved : ∀ failures, breaker.inner ≠ .closed failures)
    (regular : permit.canary = false) (outcome : PermitOutcome) :
    permit.resolveAt outcome now breaker = ((false, false), breaker) := by
  unfold Permit.resolveAt CircuitBreaker.resolve
  rw [regular]
  cases inner : breaker.inner with
  | closed failures => exact absurd inner (moved failures)
  | opened untilInstant => rfl
  | halfOpen probe => cases probe <;> rfl

end

namespace Circuit

variable {circuit : Circuit} {threshold : Nat}

@[simp] theorem failures_cons (report : BreakerReport) (reports : List BreakerReport)
    (breaker : CircuitBreaker) (permits : List OutstandingPermit) :
    failures { breaker := breaker, permits := permits, reports := report :: reports } =
      if report.resets then 0
      else
        failures { breaker := breaker, permits := permits, reports := reports } +
          if report.counts then 1 else 0 := by
  unfold failures
  rw [List.takeWhile_cons]
  cases report.resets with
  | true => rfl
  | false => exact List.countP_cons

theorem canaries_eraseIdx {permits : List OutstandingPermit} {index : Nat}
    {outstanding : OutstandingPermit} (found : permits[index]? = some outstanding) :
    permits.countP (fun other => other.permit.canary) =
      (permits.eraseIdx index).countP (fun other => other.permit.canary) +
        if outstanding.permit.canary then 1 else 0 := by
  obtain ⟨inside, rfl⟩ := List.getElem?_eq_some_iff.mp found
  rw [← (List.getElem_cons_eraseIdx_perm inside).countP_eq, List.countP_cons]

structure Kept (threshold cooldown : Nat) (circuit : Circuit) : Prop where
  limit : circuit.breaker.threshold.toNat = threshold
  positive : 0 < threshold
  rest : circuit.breaker.cooldown = cooldown
  probe : circuit.canaries = if circuit.breaker.inner = .halfOpen true then 1 else 0
  counted : ∀ failures, circuit.breaker.inner = .closed failures →
    failures.toNat < threshold ∧ failures.toNat = circuit.failures

variable {cooldown : Nat}

theorem Kept.canary_probing (kept : circuit.Kept threshold cooldown)
    {outstanding : OutstandingPermit} (member : outstanding ∈ circuit.permits)
    (canary : outstanding.permit.canary = true) : circuit.breaker.inner = .halfOpen true := by
  have some : 0 < circuit.canaries := List.countP_pos_iff.mpr ⟨outstanding, member, canary⟩
  by_contra moved
  rw [kept.probe, if_neg moved] at some
  exact absurd some (Nat.lt_irrefl 0)

theorem Kept.acquireAt (kept : circuit.Kept threshold cooldown) (now : Instant) :
    (circuit.acquireAt now).Kept threshold cooldown := by
  have probe := kept.probe
  unfold canaries at probe
  obtain ⟨limit, rest⟩ := acquireAt_threshold now circuit.breaker
  unfold Circuit.acquireAt
  cases acquired : circuit.breaker.acquireAt now with
  | mk admitted breaker =>
      rw [acquired] at limit rest
      unfold CircuitBreaker.acquireAt at acquired
      cases inner : circuit.breaker.inner with
      | closed failures =>
          rw [inner] at acquired probe
          cases acquired
          refine ⟨kept.limit, kept.positive, kept.rest, ?_, kept.counted⟩
          simp only [canaries, List.countP_append, probe, inner]
          rfl
      | opened untilInstant =>
          rw [inner] at acquired probe
          dsimp only at acquired
          split at acquired
          · cases acquired
            refine ⟨(congrArg _ limit).trans kept.limit, kept.positive, rest.trans kept.rest, ?_,
              nofun⟩
            simp only [canaries, List.countP_append, probe]
            rfl
          · cases acquired
            exact kept
      | halfOpen probing =>
          rw [inner] at acquired probe
          cases probing with
          | true =>
              cases acquired
              exact kept
          | false =>
              cases acquired
              refine ⟨(congrArg _ limit).trans kept.limit, kept.positive, rest.trans kept.rest, ?_,
                nofun⟩
              simp only [canaries, List.countP_append, probe]
              rfl

section
variable {index : Nat} {outstanding : OutstandingPermit}

theorem Kept.settle_canary (kept : circuit.Kept threshold cooldown)
    (found : circuit.permits[index]? = some outstanding)
    (canary : outstanding.permit.canary = true) (outcome : PermitOutcome) (now : Instant) :
    (circuit.settle index outcome fun permit => permit.resolveAt outcome now).Kept threshold
      cooldown := by
  have left := canaries_eraseIdx found
  have probe := kept.probe
  have probing := kept.canary_probing (List.mem_of_getElem? found) canary
  unfold canaries at probe
  rw [probing, if_pos rfl, left, canary, if_pos rfl] at probe
  have none : (circuit.permits.eraseIdx index).countP (fun other => other.permit.canary) = 0 :=
    Nat.succ.inj probe
  unfold Circuit.settle
  rw [found]
  dsimp only
  rw [canary, probing, resolveAt_canary probing canary]
  cases outcome with
  | success =>
      refine ⟨kept.limit, kept.positive, kept.rest, none, fun failures closed => ?_⟩
      cases closed
      rw [failures_cons]
      exact ⟨kept.positive, rfl⟩
  | failure => exact ⟨kept.limit, kept.positive, kept.rest, none, nofun⟩
  | release => exact ⟨kept.limit, kept.positive, kept.rest, none, nofun⟩

theorem Kept.settle_counted (kept : circuit.Kept threshold cooldown)
    (found : circuit.permits[index]? = some outstanding)
    (regular : outstanding.permit.canary = false) {failures : UInt32}
    (inner : circuit.breaker.inner = .closed failures) (outcome : PermitOutcome) (now : Instant) :
    (circuit.settle index outcome fun permit => permit.resolveAt outcome now).Kept threshold
      cooldown := by
  have left := canaries_eraseIdx found
  have probe := kept.probe
  unfold canaries at probe
  rw [regular, if_neg Bool.false_ne_true, Nat.add_zero] at left
  rw [left, inner, if_neg nofun] at probe
  obtain ⟨below, counted⟩ := kept.counted failures inner
  unfold Circuit.settle
  rw [found]
  dsimp only
  rw [regular, inner]
  cases outcome with
  | success =>
      rw [resolveAt_regular_success inner regular]
      refine ⟨kept.limit, kept.positive, kept.rest, probe, fun other closed => ?_⟩
      cases closed
      rw [failures_cons]
      exact ⟨Nat.zero_lt_of_lt below, rfl⟩
  | release =>
      rw [resolveAt_regular_release inner regular]
      refine ⟨kept.limit, kept.positive, kept.rest, ?_, fun other closed => ?_⟩
      · rw [inner, if_neg nofun]
        exact probe
      · rw [inner] at closed
        cases closed
        rw [failures_cons]
        exact ⟨below, counted⟩
  | failure =>
      rw [resolveAt_regular_failure inner regular]
      split
      · exact ⟨kept.limit, kept.positive, kept.rest, probe, nofun⟩
      · rename_i few
        rw [kept.limit] at few
        have bound := circuit.breaker.threshold.toNat_lt
        rw [kept.limit] at bound
        have next : (failures + 1).toNat = failures.toNat + 1 := by
          rw [UInt32.toNat_add]
          exact Nat.mod_eq_of_lt (by change failures.toNat + 1 < _; omega)
        refine ⟨kept.limit, kept.positive, kept.rest, probe, fun other closed => ?_⟩
        cases closed
        rw [failures_cons, next, counted]
        exact ⟨by omega, rfl⟩

theorem Kept.settle_ignored (kept : circuit.Kept threshold cooldown)
    (found : circuit.permits[index]? = some outstanding)
    (regular : outstanding.permit.canary = false)
    (closed : ∀ failures, circuit.breaker.inner ≠ .closed failures) (outcome : PermitOutcome)
    (now : Instant) :
    (circuit.settle index outcome fun permit => permit.resolveAt outcome now).Kept threshold
      cooldown := by
  have left := canaries_eraseIdx found
  have probe := kept.probe
  unfold canaries at probe
  rw [regular, if_neg Bool.false_ne_true, Nat.add_zero] at left
  rw [left] at probe
  unfold Circuit.settle
  rw [found]
  dsimp only
  rw [resolveAt_regular_ignored closed regular]
  exact ⟨kept.limit, kept.positive, kept.rest, probe, fun failures same =>
    absurd same (closed failures)⟩

end

theorem Kept.settle (kept : circuit.Kept threshold cooldown) (index : Nat)
    (outcome : PermitOutcome) (now : Instant) :
    (circuit.settle index outcome fun permit => permit.resolveAt outcome now).Kept threshold
      cooldown := by
  cases found : circuit.permits[index]? with
  | none =>
      unfold Circuit.settle
      rw [found]
      exact kept
  | some outstanding =>
      cases canary : outstanding.permit.canary with
      | true => exact kept.settle_canary found canary outcome now
      | false =>
          cases inner : circuit.breaker.inner with
          | closed failures => exact kept.settle_counted found canary inner outcome now
          | opened untilInstant =>
              exact kept.settle_ignored found canary (fun _ => inner ▸ nofun) outcome now
          | halfOpen probing =>
              exact kept.settle_ignored found canary (fun _ => inner ▸ nofun) outcome now

theorem Kept.step (kept : circuit.Kept threshold cooldown) (action : CircuitAction) :
    (circuit.step action).Kept threshold cooldown := by
  cases action with
  | acquireAt now => exact kept.acquireAt now
  | resolveAt index outcome now => exact kept.settle index outcome now
  | drop index now => exact kept.settle index .failure now

theorem Kept.run (kept : circuit.Kept threshold cooldown) (actions : List CircuitAction) :
    (circuit.run actions).Kept threshold cooldown := by
  induction actions generalizing circuit with
  | nil => exact kept
  | cons action rest ih => exact ih (kept.step action)

theorem start_kept (threshold : UInt32) (cooldown : Nat) :
    (start threshold cooldown).Kept (max threshold.toNat 1) cooldown where
  limit := by
    unfold start CircuitBreaker.new
    dsimp only
    by_cases zero : threshold = 0
    · rw [if_pos zero, zero]
      rfl
    · rw [if_neg zero]
      have positive : 0 < threshold.toNat := Nat.pos_of_ne_zero fun same =>
        zero (UInt32.toNat_inj.mp same)
      omega
  positive := by omega
  rest := rfl
  probe := rfl
  counted := by
    intro failures closed
    cases closed
    exact ⟨by change 0 < max _ 1; omega, rfl⟩

def Opens (before after : CircuitBreaker.Inner) : Prop :=
  (∀ untilInstant, before ≠ .opened untilInstant) ∧ ∃ untilInstant, after = .opened untilInstant

structure StateMachine (threshold cooldown : Nat) (circuit : Circuit) : Prop where
  probing : circuit.breaker.inner = .halfOpen true ↔ circuit.canaries = 1
  alone : circuit.breaker.inner ≠ .halfOpen true → circuit.canaries = 0
  refused : ∀ untilInstant now, circuit.breaker.inner = .opened untilInstant → now < untilInstant →
    circuit.breaker.acquireAt now = (none, circuit.breaker)
  probed : ∀ untilInstant now, circuit.breaker.inner = .opened untilInstant → untilInstant ≤ now →
    circuit.breaker.acquireAt now =
      (some { canary := true }, { circuit.breaker with inner := .halfOpen true })
  counted : ∀ failures, circuit.breaker.inner = .closed failures →
    failures.toNat < threshold ∧ failures.toNat = circuit.failures
  tripping : ∀ index outstanding now, circuit.permits[index]? = some outstanding →
    outstanding.permit.canary = false →
      let after := (circuit.step (.resolveAt index .failure now)).breaker.inner
      (Opens circuit.breaker.inner after ↔ ∃ failures, circuit.breaker.inner = .closed failures ∧
        failures.toNat + 1 = threshold) ∧
      (Opens circuit.breaker.inner after → after = .opened (now + cooldown))
  canary : ∀ index outstanding now, circuit.permits[index]? = some outstanding →
    outstanding.permit.canary = true → ∀ outcome,
      (circuit.step (.resolveAt index outcome now)).breaker.inner =
        match outcome with
        | .success => .closed 0
        | .failure => .opened (now + cooldown)
        | .release => .halfOpen false
  dropped : ∀ index now,
    circuit.step (.drop index now) = circuit.step (.resolveAt index .failure now)
  unwedged : ∀ probeInFlight, circuit.breaker.inner = .halfOpen probeInFlight →
    (∃ outstanding ∈ circuit.permits, outstanding.permit.canary = true) ∨
      ∀ now, circuit.breaker.acquireAt now =
        (some { canary := true }, { circuit.breaker with inner := .halfOpen true })

theorem step_resolveAt {index : Nat} {outstanding : OutstandingPermit}
    (found : circuit.permits[index]? = some outstanding) (outcome : PermitOutcome) (now : Instant) :
    (circuit.step (.resolveAt index outcome now)).breaker =
      (outstanding.permit.resolveAt outcome now circuit.breaker).2 := by
  change (circuit.settle index outcome _).breaker = _
  unfold settle
  rw [found]

theorem Kept.tripping (kept : circuit.Kept threshold cooldown) {index : Nat}
    {outstanding : OutstandingPermit} (found : circuit.permits[index]? = some outstanding)
    (regular : outstanding.permit.canary = false) (now : Instant) :
    let after := (circuit.step (.resolveAt index .failure now)).breaker.inner
    (Opens circuit.breaker.inner after ↔ ∃ failures, circuit.breaker.inner = .closed failures ∧
      failures.toNat + 1 = threshold) ∧
    (Opens circuit.breaker.inner after → after = .opened (now + cooldown)) := by
  dsimp only
  rw [step_resolveAt found]
  by_cases closed : ∃ failures, circuit.breaker.inner = .closed failures
  · obtain ⟨failures, inner⟩ := closed
    have below := (kept.counted failures inner).1
    rw [resolveAt_regular_failure inner regular, kept.limit, kept.rest, inner]
    by_cases enough : threshold ≤ failures.toNat + 1
    · rw [if_pos enough]
      refine ⟨iff_of_true ⟨nofun, _, rfl⟩ ⟨failures, rfl, by omega⟩, fun _ => rfl⟩
    · rw [if_neg enough]
      have stays : ¬ Opens (.closed failures) (.closed (failures + 1)) := by
        rintro ⟨_, _, same⟩
        cases same
      refine ⟨iff_of_false stays ?_, fun opens => absurd opens stays⟩
      rintro ⟨other, same, full⟩
      cases same
      omega
  · have moved : ∀ failures, circuit.breaker.inner ≠ .closed failures := fun failures inner =>
      closed ⟨failures, inner⟩
    rw [resolveAt_regular_ignored moved regular]
    have stays : ¬ Opens circuit.breaker.inner circuit.breaker.inner := fun opens =>
      opens.2.elim fun untilInstant same => opens.1 untilInstant same
    refine ⟨iff_of_false stays ?_, fun opens => absurd opens stays⟩
    rintro ⟨failures, inner, _⟩
    exact moved failures inner

theorem Kept.stateMachine (kept : circuit.Kept threshold cooldown) :
    circuit.StateMachine threshold cooldown where
  probing := by
    rw [kept.probe]
    by_cases inner : circuit.breaker.inner = .halfOpen true
    · exact iff_of_true inner (if_pos inner)
    · exact iff_of_false inner (by rw [if_neg inner]; exact Nat.zero_ne_one)
  alone := fun moved => kept.probe.trans (if_neg moved)
  refused := by
    intro untilInstant now inner early
    unfold CircuitBreaker.acquireAt
    rw [inner]
    exact if_neg (Nat.not_le.mpr early)
  probed := by
    intro untilInstant now inner late
    unfold CircuitBreaker.acquireAt
    rw [inner]
    exact if_pos late
  counted := kept.counted
  tripping := fun index outstanding now found regular => kept.tripping found regular now
  canary := by
    intro index outstanding now found canary outcome
    have probing := kept.canary_probing (List.mem_of_getElem? found) canary
    rw [step_resolveAt found, resolveAt_canary probing canary, kept.rest]
    cases outcome <;> rfl
  dropped := fun index now => rfl
  unwedged := by
    intro probeInFlight inner
    cases probeInFlight with
    | true =>
        left
        have one := kept.probe
        rw [inner, if_pos rfl] at one
        exact List.countP_pos_iff.mp (Nat.lt_of_lt_of_eq Nat.one_pos one.symm)
    | false =>
        right
        intro now
        unfold CircuitBreaker.acquireAt
        rw [inner]

end Circuit

/-- Whatever permits are outstanding, in whatever order and whenever they were acquired, resolved
and dropped, the breaker is the state machine of its description. -/
theorem breaker_stateMachine (threshold : UInt32) (cooldown : Nat) (actions : List CircuitAction) :
    ((Circuit.start threshold cooldown).run actions).StateMachine (max threshold.toNat 1) cooldown :=
  ((Circuit.start_kept threshold cooldown).run actions).stateMachine

def CircuitAction.report : CircuitAction → Option (Nat × PermitOutcome)
  | .acquireAt _ => none
  | .resolveAt index outcome _ => some (index, outcome)
  | .drop index _ => some (index, .failure)

namespace Circuit

def Late (circuit : Circuit) (outstanding : OutstandingPermit) : Prop :=
  outstanding.permit.canary = false ∧ ∃ later recovery between trip earlier,
    circuit.reports = later ++ recovery :: between ++ trip :: earlier ∧
      outstanding.since ≤ earlier.length ∧ trip.tripped = true ∧ recovery.recovered = true

def IgnoresLate (circuit : Circuit) (action : CircuitAction) : Prop :=
  ∀ index outcome outstanding, action.report = some (index, outcome) →
    circuit.permits[index]? = some outstanding → circuit.Late outstanding →
      (circuit.step action).breaker = circuit.breaker

def Moot (inner : CircuitBreaker.Inner) (outcome : PermitOutcome) : Prop :=
  ∀ failures, inner = .closed failures → outcome = .release ∨ outcome = .success ∧ failures = 0

def MootLate (circuit : Circuit) (action : CircuitAction) : Prop :=
  ∀ index outcome outstanding, action.report = some (index, outcome) →
    circuit.permits[index]? = some outstanding → circuit.Late outstanding →
      Moot circuit.breaker.inner outcome

theorem regular_unchanged_iff {permit : Permit} (regular : permit.canary = false)
    (outcome : PermitOutcome) (now : Instant) (breaker : CircuitBreaker) :
    (permit.resolveAt outcome now breaker).2 = breaker ↔ Moot breaker.inner outcome := by
  by_cases closed : ∃ failures, breaker.inner = .closed failures
  · obtain ⟨failures, inner⟩ := closed
    have alone : Moot breaker.inner outcome ↔
        outcome = .release ∨ outcome = .success ∧ failures = 0 := by
      refine ⟨fun moot => moot failures inner, fun kept other same => ?_⟩
      rw [inner] at same
      cases same
      exact kept
    rw [alone]
    obtain ⟨_, threshold, cooldown⟩ := breaker
    cases inner
    cases outcome with
    | success =>
        rw [resolveAt_regular_success rfl regular]
        simp [eq_comm]
    | failure =>
        rw [resolveAt_regular_failure rfl regular]
        refine iff_of_false ?_ (by simp)
        split
        · simp
        · intro same
          simp at same
    | release =>
        rw [resolveAt_regular_release rfl regular]
        simp
  · have moved : ∀ failures, breaker.inner ≠ .closed failures := fun failures inner =>
      closed ⟨failures, inner⟩
    rw [resolveAt_regular_ignored moved regular]
    exact iff_of_true rfl fun failures inner => absurd inner (moved failures)

theorem ignoresLate_iff (circuit : Circuit) (action : CircuitAction) :
    circuit.IgnoresLate action ↔ circuit.MootLate action := by
  refine forall_congr' fun index => forall_congr' fun outcome => forall_congr' fun outstanding =>
    forall_congr' fun reports => forall_congr' fun found => forall_congr' fun late => ?_
  cases action with
  | acquireAt now => cases reports
  | resolveAt index outcome now =>
      cases reports
      rw [step_resolveAt found]
      exact regular_unchanged_iff late.1 _ _ _
  | drop index now =>
      cases reports
      exact (step_resolveAt found .failure now).symm ▸ regular_unchanged_iff late.1 _ _ _

end Circuit

/-- In every run, the late reports of regular permits change nothing exactly if each of them
comes while the circuit is not closed, or is neutral, or is a success with no failure counted. -/
theorem lateReports_ignored (threshold : UInt32) (cooldown : Nat) (actions : List CircuitAction) :
    (∀ before action after, actions = before ++ action :: after →
      ((Circuit.start threshold cooldown).run before).IgnoresLate action) ↔
    ∀ before action after, actions = before ++ action :: after →
      ((Circuit.start threshold cooldown).run before).MootLate action := by
  refine forall_congr' fun before => forall_congr' fun action => forall_congr' fun after =>
    forall_congr' fun _ => ?_
  exact Circuit.ignoresLate_iff _ action

def recoveredCircuit : Circuit :=
  (Circuit.start 1 30).run [.acquireAt 0, .acquireAt 0, .resolveAt 1 .failure 0, .acquireAt 30,
    .resolveAt 1 .success 31]

/-- The first permit's failure opens the circuit that has since recovered. -/
theorem lateReports_counterexample :
    recoveredCircuit.breaker.inner = .closed 0 ∧
      (recoveredCircuit.step (.resolveAt 0 .failure 32)).breaker.inner = .opened 62 ∧
      ¬ recoveredCircuit.IgnoresLate (.resolveAt 0 .failure 32) := by
  refine ⟨by decide, by decide, fun ignores => ?_⟩
  have late : recoveredCircuit.Late { permit := { canary := false }, since := 0 } :=
    ⟨rfl, [], _, [], _, [], rfl, Nat.le_refl 0, rfl, rfl⟩
  have same := ignores 0 .failure _ rfl rfl late
  exact absurd (congrArg CircuitBreaker.inner same) (by decide)

end Y4p
