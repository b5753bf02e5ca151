import Mathlib.Order.GameAdd
import Y4p.Lib.Ensures
import Y4p.Lib.Interleaving
import Y4p.Lib.Wal

/-!
Two programs on one state whose calls may have to wait. Each program relies on what
the other's calls leave alone, and under a fair schedule that never leaves both waiting
both programs return.
-/

namespace Programs

def Continues {Call : Type} {Answer : Call → Type} {α : Type}
    (later program : Program Call Answer α) : Prop :=
  ∃ request next answer, program = .call request next ∧ later = next answer

theorem continues_wellFounded {Call : Type} {Answer : Call → Type} {α : Type} :
    WellFounded (@Continues Call Answer α) := by
  constructor
  intro program
  induction program with
  | ret value =>
      refine ⟨_, ?_⟩
      rintro _ ⟨request, next, answer, same, rfl⟩
      cases same
  | call request next ih =>
      refine ⟨_, ?_⟩
      rintro _ ⟨request, next, answer, same, rfl⟩
      cases same
      exact ih answer

namespace Turn

def other : Turn → Turn
  | .first => .second
  | .second => .first

theorem other_ne (turn : Turn) : turn.other ≠ turn := by
  cases turn <;> decide

end Turn

namespace Pair

variable {Call : Type} {Answer : Call → Type} {α S : Type}

def advance (pair : Pair Call Answer α S) (turn : Turn) (program : Program Call Answer α)
    (state : S) : Pair Call Answer α S :=
  match turn with
  | .first => { pair with first := program, state := state }
  | .second => { pair with second := program, state := state }

@[simp] theorem advance_state (pair : Pair Call Answer α S) (turn : Turn)
    (program : Program Call Answer α) (state : S) :
    (pair.advance turn program state).state = state := by
  cases turn <;> rfl

theorem finished_iff {pair : Pair Call Answer α S} :
    pair.finished ↔ ∀ turn, (pair.mover turn).next? = none := by
  constructor
  · rintro ⟨first, second⟩ (_ | _)
    · exact first
    · exact second
  · intro ended
    exact ⟨ended .first, ended .second⟩

-- A call answered by nothing waits for a later turn.
variable (step : Turn → (request : Call) → S → Option (Answer request × S))

def tick (pair : Pair Call Answer α S) (turn : Turn) : Pair Call Answer α S :=
  match pair.mover turn with
  | .ret _ => pair
  | .call request next =>
      match step turn request pair.state with
      | none => pair
      | some (answer, after) => pair.advance turn (next answer) after

def after (schedule : Nat → Turn) (pair : Pair Call Answer α S) : Nat → Pair Call Answer α S
  | 0 => pair
  | count + 1 => (after schedule pair count).tick step (schedule count)

def Ready (pair : Pair Call Answer α S) (turn : Turn) : Prop :=
  ∃ request next, pair.mover turn = .call request next ∧ (step turn request pair.state).isSome

variable (rely : Turn → Option Call → S → S → Prop) (always : S → Prop)

def Replies (turn : Turn) (request : Call) (before : S) (answer : Answer request) (after : S) :
    Prop :=
  ∃ middle, rely turn (some request) before middle ∧ always middle ∧
    step turn request middle = some (answer, after)

def Assured (post : Turn → α → S → Prop) (pair : Pair Call Answer α S) : Prop :=
  always pair.state ∧ ∀ turn, ∃ base, rely turn (pair.mover turn).next? base pair.state ∧
    Program.Ensures (Replies step rely always turn) always (post turn) (pair.mover turn) base

variable {step rely always} {post : Turn → α → S → Prop}

section
variable {allowed : Turn → Pair Call Answer α S → Prop}
  (refl : ∀ turn next state, rely turn next state state)
  (trans : ∀ turn next first second third, rely turn next first second →
    rely turn next second third → rely turn next first third)
  (guarantee : ∀ turn pair request next answer after, allowed turn pair →
    pair.mover turn = .call request next → step turn request pair.state = some (answer, after) →
    rely turn.other (pair.mover turn.other).next? pair.state after)
include refl trans guarantee

theorem tick_assured {turn : Turn} {pair : Pair Call Answer α S}
    (assured : Assured step rely always post pair) (allows : allowed turn pair) :
    Assured step rely always post (pair.tick step turn) := by
  unfold tick
  split
  · exact assured
  · rename_i request next moves
    split
    · exact assured
    · rename_i answer after answered
      obtain ⟨now, each⟩ := assured
      obtain ⟨base, relied, ensures⟩ := each turn
      rw [moves] at relied ensures
      obtain ⟨still, continues⟩ := ensures answer after ⟨_, relied, now, answered⟩
      have own : ∃ base, rely turn (next answer).next? base after ∧
          Program.Ensures (Replies step rely always turn) always (post turn) (next answer) base :=
        ⟨after, refl _ _ _, continues⟩
      have partner : ∃ base, rely turn.other (pair.mover turn.other).next? base after ∧
          Program.Ensures (Replies step rely always turn.other) always (post turn.other)
            (pair.mover turn.other) base := by
        obtain ⟨base, relied, ensures⟩ := each turn.other
        exact ⟨base, trans _ _ _ _ _ relied (guarantee turn pair request next answer after allows
          moves answered), ensures⟩
      refine ⟨by rw [advance_state]; exact still, ?_⟩
      cases turn with
      | first =>
          rintro (_ | _)
          · exact own
          · exact partner
      | second =>
          rintro (_ | _)
          · exact partner
          · exact own

theorem after_assured {schedule : Nat → Turn} {pair : Pair Call Answer α S}
    (start : Assured step rely always post pair)
    (allows : ∀ count, allowed (schedule count) (after step schedule pair count)) (count : Nat) :
    Assured step rely always post (after step schedule pair count) := by
  induction count with
  | zero => exact start
  | succ count ih => exact tick_assured refl trans guarantee ih (allows count)

end

/-- What every answered call keeps holds in every state reached. -/
theorem after_keeps {invariant : S → Prop}
    (kept : ∀ turn request state answer after, invariant state →
      step turn request state = some (answer, after) → invariant after)
    {schedule : Nat → Turn} {pair : Pair Call Answer α S} (start : invariant pair.state)
    (count : Nat) : invariant (after step schedule pair count).state := by
  induction count with
  | zero => exact start
  | succ count ih =>
      change invariant ((after step schedule pair count).tick step (schedule count)).state
      unfold tick
      split
      · exact ih
      · split
        · exact ih
        · rename_i answered
          rw [advance_state]
          exact kept _ _ _ _ _ ih answered

def Fair (schedule : Nat → Turn) : Prop :=
  ∀ turn count, ∃ later, count ≤ later ∧ schedule later = turn

theorem tick_ready {pair : Pair Call Answer α S} {turn : Turn} (ready : Ready step pair turn) :
    ∃ request next answer after, pair.mover turn = .call request next ∧
      pair.tick step turn = pair.advance turn (next answer) after := by
  obtain ⟨request, next, moves, answered⟩ := ready
  obtain ⟨⟨answer, after⟩, same⟩ := Option.isSome_iff_exists.mp answered
  exact ⟨request, next, answer, after, moves, by simp only [tick, moves, same]⟩

theorem tick_not_ready {pair : Pair Call Answer α S} {turn : Turn}
    (waits : ¬ Ready step pair turn) : pair.tick step turn = pair := by
  unfold tick
  split
  · rfl
  · rename_i request next moves
    split
    · rfl
    · rename_i answer after answered
      exact absurd ⟨request, next, moves, by rw [answered]; rfl⟩ waits

theorem finished_not_ready {pair : Pair Call Answer α S} (finished : pair.finished)
    (turn : Turn) : ¬ Ready step pair turn := by
  rintro ⟨request, next, moves, _⟩
  have ended := finished_iff.mp finished turn
  rw [moves] at ended
  cases ended

theorem after_finished {schedule : Nat → Turn} {pair : Pair Call Answer α S} {count : Nat}
    (finished : (after step schedule pair count).finished) (further : Nat) :
    after step schedule pair (count + further) = after step schedule pair count := by
  induction further with
  | zero => rfl
  | succ further ih =>
      have still : (after step schedule pair (count + further)).finished := by
        rw [ih]
        exact finished
      exact (tick_not_ready (finished_not_ready still _)).trans ih

/-- Nothing changes until the first turn whose program does not wait. -/
theorem reaches_ready {schedule : Nat → Turn} {pair : Pair Call Answer α S} {turn : Turn}
    {count distance : Nat} (ready : Ready step (after step schedule pair count) turn)
    (scheduled : schedule (count + distance) = turn) :
    ∃ later, after step schedule pair later = after step schedule pair count ∧
      Ready step (after step schedule pair later) (schedule later) := by
  induction distance generalizing count with
  | zero => exact ⟨count, rfl, by rw [show schedule count = turn from scheduled]; exact ready⟩
  | succ distance ih =>
      by_cases moves : Ready step (after step schedule pair count) (schedule count)
      · exact ⟨count, rfl, moves⟩
      · have same : after step schedule pair (count + 1) = after step schedule pair count :=
          tick_not_ready moves
        rw [← same] at ready
        obtain ⟨later, unchanged, readyLater⟩ := ih ready
          (by rw [← scheduled]; congr 1; omega)
        exact ⟨later, unchanged.trans same, readyLater⟩

def Descends (before after : Pair Call Answer α S) : Prop :=
  Prod.GameAdd Continues Continues (after.first, after.second) (before.first, before.second)

theorem tick_descends {pair : Pair Call Answer α S} {turn : Turn} (ready : Ready step pair turn) :
    Descends pair (pair.tick step turn) := by
  obtain ⟨request, next, answer, after, moves, ticked⟩ := tick_ready ready
  rw [Descends, ticked]
  cases turn with
  | first => exact .fst ⟨request, next, answer, moves, rfl⟩
  | second => exact .snd ⟨request, next, answer, moves, rfl⟩

/-- Under a fair schedule two programs that never both wait both return. -/
theorem finishes {schedule : Nat → Turn} {pair : Pair Call Answer α S} (fair : Fair schedule)
    (progress : ∀ count, ¬ (after step schedule pair count).finished →
      ∃ turn, Ready step (after step schedule pair count) turn) :
    ∃ count, (after step schedule pair count).finished := by
  have descends : ∀ programs count,
      ((after step schedule pair count).first, (after step schedule pair count).second) =
        programs → ∃ later, (after step schedule pair later).finished := by
    intro programs
    induction programs using
        (WellFounded.prod_gameAdd continues_wellFounded continues_wellFounded).induction with
    | h programs ih =>
        rintro count rfl
        by_cases finished : (after step schedule pair count).finished
        · exact ⟨count, finished⟩
        · obtain ⟨turn, ready⟩ := progress count finished
          obtain ⟨target, beyond, scheduled⟩ := fair turn count
          obtain ⟨distance, rfl⟩ := Nat.exists_eq_add_of_le beyond
          obtain ⟨later, same, moves⟩ := reaches_ready ready scheduled
          have stepped := tick_descends moves
          rw [same] at stepped
          exact ih _ stepped (later + 1) (by rw [← same]; rfl)
  exact descends _ 0 rfl

variable {D : Type}

/-- The holder of the lock never waits, and returns only without it. -/
theorem ready_of_holder {step : Turn → (request : Call) → Wal Turn D →
      Option (Answer request × Wal Turn D)} {pair : Pair Call Answer α (Wal Turn D)}
    (ready : ∀ turn request, (pair.state.writer = none ∨ ∃ data, pair.state.draft turn = some data) →
      (step turn request pair.state).isSome)
    (returned : ∀ turn value, pair.mover turn = .ret value → pair.state.draft turn = none)
    (unfinished : ¬ pair.finished) : ∃ turn, Ready step pair turn := by
  cases locked : pair.state.writer with
  | none =>
      rw [finished_iff, not_forall] at unfinished
      obtain ⟨turn, unfinished⟩ := unfinished
      cases moves : pair.mover turn with
      | ret value => exact absurd (by rw [moves]; rfl) unfinished
      | call request next => exact ⟨turn, request, next, moves, ready _ _ (.inl locked)⟩
  | some held =>
      obtain ⟨turn, data⟩ := held
      have mine : pair.state.draft turn = some data := Wal.draft_eq_some.mpr locked
      cases moves : pair.mover turn with
      | ret value =>
          rw [returned turn value moves] at mine
          cases mine
      | call request next => exact ⟨turn, request, next, moves, ready _ _ (.inr ⟨data, mine⟩)⟩

end Pair

end Programs
