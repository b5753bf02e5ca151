import Mathlib.Logic.Function.Basic

/-!
A database in write-ahead-log mode under several connections. A deferred transaction
takes its snapshot at its first read, and the one write lock at its first write. A write
waits while another connection holds the lock, but a snapshot that a commit has gone past
can no longer be upgraded: that write is refused at once. Every commit of a writer counts
as a new version.
-/

namespace Programs

inductive Access where
  | none
  | read
  | write
  deriving DecidableEq

inductive Phase where
  | idle
  | opened
  | reading (version : Nat)
  deriving DecidableEq

-- `earlier` holds the superseded versions, newest first; `writer` the lock and its draft.
structure Wal (C D : Type) where
  current : D
  earlier : List D
  writer : Option (C × D)
  phase : C → Phase

namespace Wal

variable {C D R ε : Type}

def fresh (data : D) : Wal C D where
  current := data
  earlier := []
  writer := none
  phase := fun _ => .idle

def version (wal : Wal C D) : Nat :=
  wal.earlier.length

def history (wal : Wal C D) : List D :=
  wal.current :: wal.earlier

def seen (wal : Wal C D) (version : Nat) : D :=
  (wal.history.drop (wal.version - version)).headD wal.current

def hold (wal : Wal C D) (connection : C) (data : D) : Wal C D :=
  { wal with writer := some (connection, data) }

def push (wal : Wal C D) (data : D) : Wal C D :=
  { wal with current := data, earlier := wal.history }

def release (wal : Wal C D) : Wal C D :=
  { wal with writer := none }

@[simp] theorem hold_history (wal : Wal C D) (connection : C) (data : D) :
    (wal.hold connection data).history = wal.history := rfl

@[simp] theorem push_history (wal : Wal C D) (data : D) :
    (wal.push data).history = data :: wal.history := rfl

@[simp] theorem release_history (wal : Wal C D) : wal.release.history = wal.history := rfl

theorem history_eq {wal after : Wal C D} (same : after.history = wal.history) :
    after.current = wal.current ∧ after.version = wal.version := by
  obtain ⟨current, earlier⟩ := List.cons.inj same
  exact ⟨current, congrArg List.length earlier⟩

theorem seen_of_suffix {before after : Wal C D} (grown : before.history <:+ after.history) :
    after.seen before.version = before.current := by
  obtain ⟨newer, shape⟩ := grown
  have count : after.version - before.version = newer.length := by
    have length := congrArg List.length shape
    simp only [history, List.length_append, List.length_cons] at length
    unfold version
    omega
  rw [seen, count, ← shape, List.drop_left]
  rfl

variable [DecidableEq C]

def draft (wal : Wal C D) (connection : C) : Option D :=
  match wal.writer with
  | some (holder, data) => if holder = connection then some data else none
  | none => none

def enter (wal : Wal C D) (connection : C) (phase : Phase) : Wal C D :=
  { wal with phase := Function.update wal.phase connection phase }

def begin (wal : Wal C D) (connection : C) : Wal C D :=
  wal.enter connection .opened

def commit (wal : Wal C D) (connection : C) : Wal C D :=
  match wal.draft connection with
  | some data => (wal.push data).release.enter connection .idle
  | none => wal.enter connection .idle

def rollback (wal : Wal C D) (connection : C) : Wal C D :=
  match wal.draft connection with
  | some _ => wal.release.enter connection .idle
  | none => wal.enter connection .idle

def read (wal : Wal C D) (connection : C) (run : D → Except ε R × D) :
    Except ε R × Wal C D :=
  match wal.phase connection with
  | .idle => ((run wal.current).1, wal)
  | .opened => ((run wal.current).1, wal.enter connection (.reading wal.version))
  | .reading version => ((run (wal.seen version)).1, wal)

-- Outside a transaction a statement that fails commits nothing.
def autocommit (wal : Wal C D) (run : D → Except ε R × D) : Except ε R × Wal C D :=
  match run wal.current with
  | (.ok result, after) => (.ok result, wal.push after)
  | (.error failure, _) => (.error failure, wal)

def acquire (wal : Wal C D) (connection : C) (run : D → Except ε R × D) :
    Except ε R × Wal C D :=
  ((run wal.current).1, (wal.hold connection (run wal.current).2).enter connection .opened)

-- `none`: the write waits for the lock.
def write (wal : Wal C D) (connection : C) (busy : ε) (run : D → Except ε R × D) :
    Option (Except ε R × Wal C D) :=
  match wal.phase connection, wal.writer with
  | .reading version, writer =>
      if version ≠ wal.version then some (.error busy, wal)
      else if writer.isSome then none
      else some (wal.acquire connection run)
  | .opened, none => some (wal.acquire connection run)
  | .idle, none => some (wal.autocommit run)
  | _, some _ => none

def statement (wal : Wal C D) (connection : C) (access : Access) (busy : ε)
    (run : D → Except ε R × D) : Option (Except ε R × Wal C D) :=
  match wal.draft connection with
  | some data => some ((run data).1, wal.hold connection (run data).2)
  | none =>
      match access with
      | .none => some ((run wal.current).1, wal)
      | .read => some (wal.read connection run)
      | .write => wal.write connection busy run

structure Apart (connection : C) (committed : Prop) (before after : Wal C D) : Prop where
  phase : ∀ other, other ≠ connection → after.phase other = before.phase other
  draft : ∀ other, other ≠ connection → after.draft other = before.draft other
  history : after.history = before.history ∨
    (committed ∧ ∃ data, after.history = data :: before.history)

variable {wal after : Wal C D} {connection other : C} {committed : Prop}

@[simp] theorem enter_draft (phase : Phase) :
    (wal.enter connection phase).draft other = wal.draft other := rfl

@[simp] theorem enter_history (phase : Phase) :
    (wal.enter connection phase).history = wal.history := rfl

@[simp] theorem enter_phase_self (phase : Phase) :
    (wal.enter connection phase).phase connection = phase := by
  simp [enter]

theorem enter_phase_other (phase : Phase) (apart : other ≠ connection) :
    (wal.enter connection phase).phase other = wal.phase other := by
  simp [enter, apart]

@[simp] theorem hold_draft_self (data : D) :
    (wal.hold connection data).draft connection = some data := by
  simp [draft, hold]

theorem hold_draft_other (data : D) (apart : other ≠ connection) :
    (wal.hold connection data).draft other = none := by
  simp [draft, hold, apart.symm]

@[simp] theorem release_draft : wal.release.draft connection = none := rfl

theorem draft_eq_some {data : D} :
    wal.draft connection = some data ↔ wal.writer = some (connection, data) := by
  unfold draft
  split
  · rename_i holder held locked
    split
    · rename_i same
      subst same
      simp [locked]
    · rename_i differs
      simp [locked, differs]
  · rename_i unlocked
    simp [unlocked]

theorem draft_other {data : D} (mine : wal.draft connection = some data)
    (apart : other ≠ connection) : wal.draft other = none := by
  simp [draft, draft_eq_some.mp mine, apart.symm]

theorem draft_of_unlocked (unlocked : wal.writer = none) : wal.draft connection = none := by
  simp [draft, unlocked]

theorem enter_apart (phase : Phase) : Apart connection committed wal (wal.enter connection phase) where
  phase _ apart := enter_phase_other phase apart
  draft _ _ := rfl
  history := .inl rfl

theorem Apart.refl : Apart connection committed wal wal where
  phase _ _ := rfl
  draft _ _ := rfl
  history := .inl rfl

theorem commit_apart :
    Apart connection (wal.draft connection).isSome wal (wal.commit connection) := by
  unfold commit
  cases mine : wal.draft connection with
  | none => exact enter_apart .idle
  | some data =>
      refine ⟨fun other apart => enter_phase_other _ apart, fun other apart => ?_, ?_⟩
      · rw [draft_other mine apart]
        rfl
      · exact .inr ⟨rfl, data, rfl⟩

theorem rollback_apart : Apart connection committed wal (wal.rollback connection) := by
  unfold rollback
  cases mine : wal.draft connection with
  | none => exact enter_apart .idle
  | some data =>
      refine ⟨fun other apart => enter_phase_other _ apart, fun other apart => ?_, .inl rfl⟩
      rw [draft_other mine apart]
      rfl

theorem acquire_apart (run : D → Except ε R × D) (unlocked : wal.writer = none) :
    Apart connection committed wal (wal.acquire connection run).2 where
  phase _ apart := enter_phase_other _ apart
  draft other apart := by
    rw [draft_of_unlocked unlocked]
    exact @hold_draft_other _ _ _ wal _ _ _ apart
  history := .inl rfl

inductive Does (wal : Wal C D) (connection : C) (access : Access) (run : D → Except ε R × D) :
    Wal C D → Prop
  | drafts {data : D} : wal.draft connection = some data →
      Does wal connection access run (wal.hold connection (run data).2)
  | keeps : Does wal connection access run wal
  | enters (phase : Phase) : Does wal connection access run (wal.enter connection phase)
  | acquires : wal.writer = none → Does wal connection access run (wal.acquire connection run).2
  | commits {result : R} {data : D} : wal.writer = none → wal.phase connection = .idle →
      access = .write → run wal.current = (.ok result, data) →
      Does wal connection access run (wal.push data)

theorem statement_does {access : Access} {busy : ε} {run : D → Except ε R × D}
    {answer : Except ε R}
    (answered : wal.statement connection access busy run = some (answer, after)) :
    wal.Does connection access run after := by
  unfold statement at answered
  split at answered
  · rename_i data mine
    cases answered
    exact .drafts mine
  · split at answered
    · cases answered
      exact .keeps
    · unfold read at answered
      split at answered
      · cases answered
        exact .keeps
      · cases answered
        exact .enters _
      · cases answered
        exact .keeps
    · unfold write at answered
      split at answered
      · split at answered
        · cases answered
          exact .keeps
        · split at answered
          · cases answered
          · rename_i unlocked
            cases answered
            exact .acquires (by simpa using unlocked)
      · rename_i unlocked
        cases answered
        exact .acquires unlocked
      · rename_i idle unlocked
        rw [autocommit] at answered
        split at answered
        · rename_i ran
          cases answered
          exact .commits unlocked idle rfl ran
        · cases answered
          exact .keeps
      · cases answered

theorem statement_apart {access : Access} {busy : ε} {run : D → Except ε R × D}
    {answer : Except ε R}
    (answered : wal.statement connection access busy run = some (answer, after)) :
    Apart connection (wal.phase connection = .idle ∧ access = .write) wal after := by
  cases statement_does answered with
  | drafts mine =>
      refine ⟨fun _ _ => rfl, fun other apart => ?_, .inl rfl⟩
      rw [draft_other mine apart]
      exact hold_draft_other _ apart
  | keeps => exact .refl
  | enters phase => exact enter_apart phase
  | acquires unlocked => exact acquire_apart run unlocked
  | commits _ idle writes _ => exact ⟨fun _ _ => rfl, fun _ _ => rfl, .inr ⟨⟨idle, writes⟩, _, rfl⟩⟩

theorem statement_read {busy : ε} {run : D → Except ε R × D}
    (unwritten : wal.draft connection = none) (opened : wal.phase connection = .opened) :
    wal.statement connection .read busy run =
      some ((run wal.current).1, wal.enter connection (.reading wal.version)) := by
  simp only [statement, unwritten, read, opened]

/-- The first write after a read takes the lock with the snapshot current, or is refused. -/
theorem statement_upgrade {busy : ε} {run : D → Except ε R × D} {answer : Except ε R}
    {version : Nat} (unwritten : wal.draft connection = none)
    (reading : wal.phase connection = .reading version)
    (answered : wal.statement connection .write busy run = some (answer, after)) :
    (version ≠ wal.version ∧ answer = .error busy ∧ after = wal) ∨
      (version = wal.version ∧ answer = (run wal.current).1 ∧
        after = (wal.acquire connection run).2) := by
  simp only [statement, unwritten, write, reading] at answered
  split at answered
  · rename_i stale
    cases answered
    exact .inl ⟨stale, rfl, rfl⟩
  · rename_i fresh
    split at answered
    · cases answered
    · cases answered
      exact .inr ⟨not_not.mp fresh, rfl, rfl⟩

theorem statement_autocommit {busy : ε} {run : D → Except ε R × D} {answer : Except ε R}
    (unwritten : wal.draft connection = none) (idle : wal.phase connection = .idle)
    (answered : wal.statement connection .write busy run = some (answer, after)) :
    wal.autocommit run = (answer, after) := by
  cases locked : wal.writer with
  | none =>
      simp only [statement, unwritten, write, idle, locked, Option.some.injEq] at answered
      exact answered
  | some held => simp [statement, unwritten, write, idle, locked] at answered

theorem rollback_closed : (wal.rollback connection).phase connection = .idle ∧
    (wal.rollback connection).draft connection = none ∧
    (wal.rollback connection).history = wal.history := by
  unfold rollback
  cases mine : wal.draft connection with
  | none => exact ⟨enter_phase_self .idle, mine, rfl⟩
  | some data => exact ⟨enter_phase_self .idle, rfl, rfl⟩

theorem commit_closed {data : D} (mine : wal.draft connection = some data) :
    (wal.commit connection).phase connection = .idle ∧
      (wal.commit connection).draft connection = none ∧
      (wal.commit connection).history = data :: wal.history := by
  simp only [commit, mine]
  exact ⟨enter_phase_self .idle, rfl, rfl⟩

theorem statement_of_draft {data : D} (mine : wal.draft connection = some data) (access : Access)
    (busy : ε) (run : D → Except ε R × D) :
    wal.statement connection access busy run =
      some ((run data).1, wal.hold connection (run data).2) := by
  simp only [statement, mine]

theorem statement_ready {access : Access} {busy : ε} {run : D → Except ε R × D}
    (unlocked : wal.writer = none) :
    (wal.statement connection access busy run).isSome := by
  unfold statement
  rw [draft_of_unlocked unlocked]
  cases access with
  | none => rfl
  | read => rfl
  | write =>
      simp only [write, unlocked]
      cases wal.phase connection with
      | idle => rfl
      | opened => rfl
      | reading version =>
          simp only [Option.isSome_none, Bool.false_eq_true, if_false]
          split <;> rfl

/-- Only the lock of another connection makes a statement wait. -/
theorem statement_free {access : Access} {busy : ε} {run : D → Except ε R × D}
    (free : wal.writer = none ∨ ∃ data, wal.draft connection = some data) :
    (wal.statement connection access busy run).isSome := by
  rcases free with unlocked | ⟨data, mine⟩
  · exact statement_ready unlocked
  · rw [statement_of_draft mine]
    rfl

def sees (wal : Wal C D) (connection : C) : D :=
  match wal.draft connection, wal.phase connection with
  | some data, _ => data
  | none, .reading version => wal.seen version
  | none, _ => wal.current

structure Resting (connection : C) (wal : Wal C D) : Prop where
  idle : wal.phase connection = .idle
  unwritten : wal.draft connection = none

structure Undisturbed (connection : C) (before after : Wal C D) : Prop where
  phase : after.phase connection = before.phase connection
  draft : after.draft connection = before.draft connection
  grown : before.history <:+ after.history
  locked : (before.draft connection).isSome → after.history = before.history

theorem Undisturbed.refl (connection : C) (wal : Wal C D) : Undisturbed connection wal wal :=
  ⟨rfl, rfl, List.suffix_rfl, fun _ => rfl⟩

theorem Undisturbed.trans {first second third : Wal C D}
    (before : Undisturbed connection first second) (after : Undisturbed connection second third) :
    Undisturbed connection first third where
  phase := after.phase.trans before.phase
  draft := after.draft.trans before.draft
  grown := before.grown.trans after.grown
  locked := by
    intro mine
    exact (after.locked (by rw [before.draft]; exact mine)).trans (before.locked mine)

theorem Resting.undisturbed (resting : wal.Resting connection)
    (undisturbed : Undisturbed connection wal after) : after.Resting connection :=
  ⟨undisturbed.phase.trans resting.idle, undisturbed.draft.trans resting.unwritten⟩

theorem Resting.sees (resting : wal.Resting connection) : wal.sees connection = wal.current := by
  simp only [Wal.sees, resting.unwritten, resting.idle]

theorem Apart.undisturbed (apart : Apart connection committed wal after)
    (differs : other ≠ connection) (unlocked : committed → wal.draft other = none) :
    Undisturbed other wal after where
  phase := apart.phase other differs
  draft := apart.draft other differs
  grown := by
    rcases apart.history with same | ⟨_, data, pushed⟩
    · exact ⟨[], same.symm⟩
    · exact ⟨[data], pushed.symm⟩
  locked := by
    intro held
    rcases apart.history with same | ⟨commits, _⟩
    · exact same
    · rw [unlocked commits] at held
      cases held

theorem commit_undisturbed (differs : other ≠ connection) :
    Undisturbed other wal (wal.commit connection) := by
  refine commit_apart.undisturbed differs fun mine => ?_
  obtain ⟨data, holds⟩ := Option.isSome_iff_exists.mp mine
  exact draft_other holds differs

theorem statement_undisturbed {access : Access} {busy : ε} {run : D → Except ε R × D}
    {answer : Except ε R} (differs : other ≠ connection)
    (answered : wal.statement connection access busy run = some (answer, after)) :
    Undisturbed other wal after := by
  cases statement_does answered with
  | commits unlocked idle writes _ =>
      exact (statement_apart answered).undisturbed differs fun _ => draft_of_unlocked unlocked
  | drafts mine =>
      exact (statement_apart answered).undisturbed differs fun _ => draft_other mine differs
  | keeps => exact .refl other wal
  | enters phase => exact (enter_apart phase).undisturbed differs False.elim
  | acquires unlocked => exact (acquire_apart run unlocked).undisturbed differs False.elim

/-- A statement of its own runs on what is committed, and commits. -/
theorem statement_resting {access : Access} {busy : ε} {run : D → Except ε R × D}
    {answer : Except ε R} (resting : wal.Resting connection)
    (reads : access ≠ .write → (run wal.current).2 = wal.current)
    (fails : ∀ failure, (run wal.current).1 = .error failure → (run wal.current).2 = wal.current)
    (answered : wal.statement connection access busy run = some (answer, after)) :
    answer = (run wal.current).1 ∧ after.current = (run wal.current).2 ∧
      after.Resting connection ∧ wal.history <:+ after.history := by
  cases access with
  | none =>
      simp only [statement, resting.unwritten, Option.some.injEq, Prod.mk.injEq] at answered
      obtain ⟨rfl, rfl⟩ := answered
      exact ⟨rfl, (reads nofun).symm, resting, List.suffix_rfl⟩
  | read =>
      simp only [statement, resting.unwritten, read, resting.idle, Option.some.injEq,
        Prod.mk.injEq] at answered
      obtain ⟨rfl, rfl⟩ := answered
      exact ⟨rfl, (reads nofun).symm, resting, List.suffix_rfl⟩
  | write =>
      have committed := statement_autocommit resting.unwritten resting.idle answered
      unfold autocommit at committed
      split at committed
      · rename_i result changed ran
        cases committed
        rw [ran]
        exact ⟨rfl, rfl, ⟨resting.idle, resting.unwritten⟩, List.suffix_cons _ _⟩
      · rename_i failure changed ran
        cases committed
        have same := fails failure (by rw [ran])
        rw [ran] at same ⊢
        exact ⟨rfl, same.symm, resting, List.suffix_rfl⟩

/-- The first statement of a transaction, if it writes, runs on what is committed, under the
lock. -/
theorem statement_opened {busy : ε} {run : D → Except ε R × D} {answer : Except ε R}
    (unwritten : wal.draft connection = none) (opened : wal.phase connection = .opened)
    (answered : wal.statement connection .write busy run = some (answer, after)) :
    answer = (run wal.current).1 ∧ after = (wal.acquire connection run).2 := by
  cases locked : wal.writer with
  | none =>
      simp only [statement, unwritten, write, opened, locked, Option.some.injEq] at answered
      exact ⟨(congrArg Prod.fst answered).symm, (congrArg Prod.snd answered).symm⟩
  | some held => simp [statement, unwritten, write, opened, locked] at answered

/-- Outside a transaction a statement may commit, in one nothing is committed before the end. -/
theorem statement_current {access : Access} {busy : ε} {run : D → Except ε R × D}
    {answer : Except ε R}
    (answered : wal.statement connection access busy run = some (answer, after)) :
    after.current = wal.current ∨
      (wal.phase connection = .idle ∧ after.current = (run wal.current).2) := by
  cases statement_does answered with
  | drafts | keeps | enters | acquires => exact .inl rfl
  | commits _ idle _ ran => exact .inr ⟨idle, by rw [ran]; rfl⟩

def Drafted (grows : D → D → Prop) (wal : Wal C D) : Prop :=
  ∀ connection data, wal.writer = some (connection, data) → grows wal.current data

section
variable {grows : D → D → Prop}

omit [DecidableEq C] in
theorem Drafted.unlocked (unlocked : wal.writer = none) : wal.Drafted grows := by
  intro connection data locked
  rw [unlocked] at locked
  cases locked

theorem commit_grows (refl : ∀ data, grows data data) (drafted : wal.Drafted grows) :
    grows wal.current (wal.commit connection).current ∧ (wal.commit connection).Drafted grows := by
  unfold commit
  cases mine : wal.draft connection with
  | none => exact ⟨refl _, drafted⟩
  | some data => exact ⟨drafted connection data (draft_eq_some.mp mine), .unlocked rfl⟩

theorem rollback_grows (refl : ∀ data, grows data data) (drafted : wal.Drafted grows) :
    grows wal.current (wal.rollback connection).current ∧
      (wal.rollback connection).Drafted grows := by
  unfold rollback
  cases mine : wal.draft connection with
  | none => exact ⟨refl _, drafted⟩
  | some data => exact ⟨refl _, .unlocked rfl⟩

theorem acquire_grows {run : D → Except ε R × D} (refl : ∀ data, grows data data)
    (ran : ∀ data, grows data (run data).2) :
    grows wal.current (wal.acquire connection run).2.current ∧
      (wal.acquire connection run).2.Drafted grows := by
  refine ⟨refl _, fun holder data locked => ?_⟩
  cases locked
  exact ran wal.current

/-- When every statement lets the data grow, so do the commits. -/
theorem statement_grows {access : Access} {busy : ε} {run : D → Except ε R × D}
    {answer : Except ε R} (refl : ∀ data, grows data data)
    (trans : ∀ first second third, grows first second → grows second third → grows first third)
    (ran : ∀ data, grows data (run data).2) (drafted : wal.Drafted grows)
    (answered : wal.statement connection access busy run = some (answer, after)) :
    grows wal.current after.current ∧ after.Drafted grows := by
  cases statement_does answered with
  | drafts mine =>
      refine ⟨refl _, fun holder held locked => ?_⟩
      cases locked
      exact trans _ _ _ (drafted connection _ (draft_eq_some.mp mine)) (ran _)
  | keeps => exact ⟨refl _, drafted⟩
  | enters phase => exact ⟨refl _, drafted⟩
  | acquires => exact acquire_grows refl ran
  | commits unlocked _ _ done =>
      have grown := ran wal.current
      rw [done] at grown
      exact ⟨grown, .unlocked unlocked⟩

end

end Wal

end Programs
