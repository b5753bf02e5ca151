import Mathlib.Data.List.Basic
import Y4p.Image.Breaker

/-!
The process throttle (`crates/image/src/throttle.rs`) under any number of callers: each step
is what one caller does while it has the lock, or does not need it.
-/

namespace Y4p

inductive CallPhase where
  | locking
  -- In `wait_timeout_while`, with the lock: about to look at the counter. `woke` after a wait.
  | checking (woke : Bool)
  | parked
  -- Notified, timed out or woken for no reason: wants the lock back.
  | woken
  -- Behind `wait_timeout_while`, with the lock.
  | deciding (woke : Bool)
  | refused
  | holding
  -- `Slot::drop`: wants the lock for `release`.
  | dropping
  | releasing
  -- The guard is dropped, `notify_one` is still to come.
  | notifying
  | released
  deriving DecidableEq

namespace CallPhase

def isSlot : CallPhase → Bool
  | holding | dropping | releasing => true
  | _ => false

def isWoken : CallPhase → Bool
  | woken | checking true | deciding true => true
  | _ => false

def isNotifier (phase : CallPhase) : Bool :=
  phase = notifying

def hasLock : CallPhase → Bool
  | checking _ | deciding _ | releasing => true
  | _ => false

end CallPhase

structure ThrottleState where
  throttle : ProcessThrottle
  owner : Option Nat
  calls : List CallPhase

inductive ThrottleAction where
  | call
  | lock (call : Nat)
  -- `elapsed`: the budget is used up.
  | check (call : Nat) (elapsed : Bool)
  | decide (call : Nat)
  -- A time-out, or a spurious wake-up.
  | wake (call : Nat)
  | drop (call : Nat)
  | release (call : Nat)
  -- `chosen` is the waiter that `notify_one` wakes, if any is parked.
  | notify (call : Nat) (chosen : Option Nat)

namespace ThrottleState

def new (limit : Nat) : ThrottleState where
  throttle := .new limit
  owner := none
  calls := []

def place (call : Nat) (phase : CallPhase) (state : ThrottleState) : ThrottleState :=
  { state with calls := state.calls.set call phase }

def unlock (call : Nat) (phase : CallPhase) (state : ThrottleState) : ThrottleState :=
  { state.place call phase with owner := none }

def step (state : ThrottleState) : ThrottleAction → Option ThrottleState
  | .call => some { state with calls := state.calls ++ [.locking] }
  | .lock call =>
      if state.owner = none then
        match state.calls[call]? with
        | some .locking => some { state.place call (.checking false) with owner := some call }
        | some .woken => some { state.place call (.checking true) with owner := some call }
        | some .dropping => some { state.place call .releasing with owner := some call }
        | _ => none
      else none
  | .check call elapsed =>
      match state.calls[call]? with
      | some (.checking woke) =>
          if state.throttle.limit ≤ state.throttle.inUse ∧ elapsed = false then
            some (state.unlock call .parked)
          else some (state.place call (.deciding woke))
      | _ => none
  | .decide call =>
      match state.calls[call]? with
      | some (.deciding _) =>
          let (admitted, throttle) := state.throttle.acquire state.throttle.inUse
          some { state.unlock call (if admitted then .holding else .refused) with throttle }
      | _ => none
  | .wake call =>
      match state.calls[call]? with
      | some .parked => some (state.place call .woken)
      | _ => none
  | .drop call =>
      match state.calls[call]? with
      | some .holding => some (state.place call .dropping)
      | _ => none
  | .release call =>
      match state.calls[call]? with
      | some .releasing =>
          some { state.unlock call .notifying with throttle := state.throttle.release }
      | _ => none
  | .notify call chosen =>
      match state.calls[call]?, chosen with
      | some .notifying, some waiter =>
          if state.calls[waiter]? = some .parked then
            some ((state.place waiter .woken).place call .released)
          else none
      | some .notifying, none =>
          if .parked ∈ state.calls then none else some (state.place call .released)
      | _, _ => none

-- An action that is not possible in its turn is left out.
def run (schedule : List ThrottleAction) (state : ThrottleState) : ThrottleState :=
  schedule.foldl (fun state action => (state.step action).getD state) state

inductive Locks : CallPhase → CallPhase → Prop
  | first : Locks .locking (.checking false)
  | again : Locks .woken (.checking true)
  | dropping : Locks .dropping .releasing

inductive Stepped (state : ThrottleState) : ThrottleState → Prop
  | call : Stepped state { state with calls := state.calls ++ [.locking] }
  | lock {call old new} (free : state.owner = none) (found : state.calls[call]? = some old)
      (locks : Locks old new) :
      Stepped state { state.place call new with owner := some call }
  | park {call woke} (found : state.calls[call]? = some (.checking woke))
      (full : state.throttle.limit ≤ state.throttle.inUse) :
      Stepped state (state.unlock call .parked)
  | pass {call woke} (found : state.calls[call]? = some (.checking woke)) :
      Stepped state (state.place call (.deciding woke))
  | take {call woke} (found : state.calls[call]? = some (.deciding woke))
      (free : state.throttle.inUse < state.throttle.limit) :
      Stepped state { state.unlock call .holding with
        throttle := { state.throttle with inUse := state.throttle.inUse + 1 } }
  | refuse {call woke} (found : state.calls[call]? = some (.deciding woke))
      (full : state.throttle.limit ≤ state.throttle.inUse) :
      Stepped state (state.unlock call .refused)
  | wake {call} (found : state.calls[call]? = some .parked) :
      Stepped state (state.place call .woken)
  | drop {call} (found : state.calls[call]? = some .holding) :
      Stepped state (state.place call .dropping)
  | release {call} (found : state.calls[call]? = some .releasing) :
      Stepped state { state.unlock call .notifying with throttle := state.throttle.release }
  | notify {call waiter} (found : state.calls[call]? = some .notifying)
      (parked : state.calls[waiter]? = some .parked) :
      Stepped state ((state.place waiter .woken).place call .released)
  | pointless {call} (found : state.calls[call]? = some .notifying)
      (noWaiter : .parked ∉ state.calls) : Stepped state (state.place call .released)

theorem step_cases {state next : ThrottleState} {action : ThrottleAction}
    (stepped : state.step action = some next) : Stepped state next := by
  cases action with
  | call =>
      cases stepped
      exact .call
  | lock call =>
      simp only [step] at stepped
      split at stepped
      · rename_i free
        split at stepped
        · rename_i found
          cases stepped
          exact .lock free found .first
        · rename_i found
          cases stepped
          exact .lock free found .again
        · rename_i found
          cases stepped
          exact .lock free found .dropping
        · cases stepped
      · cases stepped
  | check call elapsed =>
      simp only [step] at stepped
      split at stepped
      · rename_i woke found
        split at stepped
        · rename_i waits
          cases stepped
          exact .park found waits.1
        · cases stepped
          exact .pass found
      · cases stepped
  | decide call =>
      simp only [step] at stepped
      split at stepped
      · rename_i woke found
        unfold ProcessThrottle.acquire at stepped
        split at stepped
        · rename_i full
          cases stepped
          exact .refuse found full
        · rename_i free
          cases stepped
          exact .take found (Nat.not_le.mp free)
      · cases stepped
  | wake call =>
      simp only [step] at stepped
      split at stepped
      · rename_i found
        cases stepped
        exact .wake found
      · cases stepped
  | drop call =>
      simp only [step] at stepped
      split at stepped
      · rename_i found
        cases stepped
        exact .drop found
      · cases stepped
  | release call =>
      simp only [step] at stepped
      split at stepped
      · rename_i found
        cases stepped
        exact .release found
      · cases stepped
  | notify call chosen =>
      simp only [step] at stepped
      split at stepped
      · rename_i waiter found
        split at stepped
        · rename_i parked
          cases stepped
          exact .notify found parked
        · cases stepped
      · rename_i found
        split at stepped
        · cases stepped
        · rename_i noWaiter
          cases stepped
          exact .pointless found noWaiter
      · cases stepped

theorem countP_set {p : CallPhase → Bool} {calls : List CallPhase} {call : Nat} {old : CallPhase}
    (found : calls[call]? = some old) (new : CallPhase) :
    (calls.set call new).countP p + (p old).toNat = calls.countP p + (p new).toNat := by
  obtain ⟨inside, rfl⟩ := List.getElem?_eq_some_iff.mp found
  have one := List.boole_getElem_le_countP (p := p) inside
  rw [List.countP_set inside]
  cases old : p calls[call] with
  | false =>
      cases p new with
      | false => rfl
      | true => rfl
  | true =>
      rw [old, if_pos rfl] at one
      cases p new with
      | false =>
          simp only [if_true, Bool.false_eq_true, if_false, Bool.toNat_true, Bool.toNat_false]
          omega
      | true =>
          simp only [if_true, Bool.toNat_true]
          omega

def slots (state : ThrottleState) : Nat :=
  state.calls.countP CallPhase.isSlot

def wakers (state : ThrottleState) : Nat :=
  state.calls.countP CallPhase.isWoken + state.calls.countP CallPhase.isNotifier

-- As long as a waiter is parked, somebody is on the way for every free slot.
structure Sound (state : ThrottleState) : Prop where
  counted : state.throttle.inUse = state.slots
  within : state.throttle.inUse ≤ state.throttle.limit
  wakes : .parked ∈ state.calls →
    state.throttle.limit ≤ state.throttle.inUse + state.wakers

theorem counts_set {state next : ThrottleState} {call : Nat} {old new : CallPhase}
    (found : state.calls[call]? = some old) (calls : next.calls = state.calls.set call new) :
    next.slots + old.isSlot.toNat = state.slots + new.isSlot.toNat ∧
      next.wakers + (old.isWoken.toNat + old.isNotifier.toNat) =
        state.wakers + (new.isWoken.toNat + new.isNotifier.toNat) ∧
      (.parked ∈ next.calls → new ≠ .parked → .parked ∈ state.calls) := by
  have held := countP_set (p := CallPhase.isSlot) found new
  have woken := countP_set (p := CallPhase.isWoken) found new
  have notifying := countP_set (p := CallPhase.isNotifier) found new
  rw [slots, slots, wakers, wakers, calls]
  refine ⟨held, by omega, fun parked other => ?_⟩
  rcases List.mem_or_eq_of_mem_set parked with still | same
  · exact still
  · exact absurd same.symm other

theorem Sound.move {state next : ThrottleState} (sound : state.Sound) {call : Nat}
    {old : CallPhase} (new : CallPhase) (found : state.calls[call]? = some old)
    (calls : next.calls = state.calls.set call new)
    (limit : next.throttle.limit = state.throttle.limit)
    (count : next.throttle.inUse = state.throttle.inUse + new.isSlot.toNat - old.isSlot.toNat)
    (within : next.throttle.inUse ≤ state.throttle.limit)
    (wakes : state.throttle.limit ≤ next.throttle.inUse ∨ new ≠ .parked ∧
      (.parked ∈ state.calls → state.throttle.inUse + (old.isWoken.toNat + old.isNotifier.toNat) ≤
        next.throttle.inUse + (new.isWoken.toNat + new.isNotifier.toNat))) : next.Sound := by
  obtain ⟨slots, wakers, kept⟩ := counts_set found calls
  have counted := sound.counted
  refine ⟨by omega, by omega, fun parked => ?_⟩
  rcases wakes with full | ⟨other, balance⟩
  · omega
  · have still := kept parked other
    have enough := sound.wakes still
    have balanced := balance still
    omega

theorem notifying_still {state : ThrottleState} {call waiter : Nat}
    (found : state.calls[call]? = some .notifying)
    (parked : state.calls[waiter]? = some .parked) :
    (state.place waiter .woken).calls[call]? = some .notifying := by
  have apart : waiter ≠ call := by
    rintro rfl
    rw [found] at parked
    cases parked
  rw [place, List.getElem?_set_ne apart, found]

theorem Sound.step {state next : ThrottleState} (sound : state.Sound)
    (stepped : Stepped state next) : next.Sound := by
  have within := sound.within
  cases stepped with
  | call =>
      refine ⟨?_, within, fun parked => ?_⟩
      · rw [slots, List.countP_append]
        exact sound.counted
      · rw [wakers, List.countP_append, List.countP_append]
        rcases List.mem_append.mp parked with still | same
        · exact sound.wakes still
        · exact absurd (List.mem_singleton.mp same) nofun
  | lock free found locks =>
      cases locks with
      | first =>
          exact sound.move (.checking false) found rfl rfl rfl within
            (.inr ⟨nofun, fun _ => Nat.le_refl _⟩)
      | again =>
          exact sound.move (.checking true) found rfl rfl rfl within
            (.inr ⟨nofun, fun _ => Nat.le_refl _⟩)
      | dropping =>
          exact sound.move .releasing found rfl rfl rfl within
            (.inr ⟨nofun, fun _ => Nat.le_refl _⟩)
  | park found full => exact sound.move .parked found rfl rfl rfl within (.inl full)
  | @pass call woke found =>
      refine sound.move (.deciding woke) found rfl rfl rfl within (.inr ⟨nofun, fun _ => ?_⟩)
      cases woke with
      | false => exact Nat.le_refl _
      | true => exact Nat.le_refl _
  | @take call woke found free =>
      refine sound.move .holding found rfl rfl rfl free (.inr ⟨nofun, fun _ => ?_⟩)
      cases woke with
      | false => exact Nat.le_succ _
      | true => exact Nat.le_refl _
  | refuse found full => exact sound.move .refused found rfl rfl rfl within (.inl full)
  | wake found =>
      exact sound.move .woken found rfl rfl rfl within (.inr ⟨nofun, fun _ => Nat.le_succ _⟩)
  | drop found =>
      exact sound.move .dropping found rfl rfl rfl within (.inr ⟨nofun, fun _ => Nat.le_refl _⟩)
  | release found =>
      refine sound.move .notifying found rfl rfl rfl (Nat.le_trans (Nat.sub_le _ _) within)
        (.inr ⟨nofun, fun _ => ?_⟩)
      change state.throttle.inUse ≤ state.throttle.inUse - 1 + 1
      omega
  | @notify call waiter found parked =>
      have still := notifying_still found parked
      obtain ⟨firstSlots, firstWakers, _⟩ :=
        @counts_set state (state.place waiter .woken) _ _ _ parked rfl
      obtain ⟨thenSlots, thenWakers, _⟩ :=
        @counts_set _ ((state.place waiter .woken).place call .released) _ _ _ still rfl
      have counted := sound.counted
      have enough := sound.wakes (List.mem_of_getElem? parked)
      have handed : ((state.place waiter .woken).place call .released).wakers + (0 + 1) =
          (state.place waiter .woken).wakers + (0 + 0) := thenWakers
      have woken : (state.place waiter .woken).wakers + (0 + 0) = state.wakers + (1 + 0) :=
        firstWakers
      refine ⟨counted.trans (firstSlots.symm.trans thenSlots.symm), within, fun _ => ?_⟩
      change state.throttle.limit ≤ state.throttle.inUse + _
      omega
  | pointless found noWaiter =>
      exact sound.move .released found rfl rfl rfl within
        (.inr ⟨nofun, fun parked => absurd parked noWaiter⟩)

theorem sound_new (limit : Nat) : (new limit).Sound where
  counted := rfl
  within := Nat.zero_le _
  wakes := fun parked => absurd parked List.not_mem_nil

def Exclusive (state : ThrottleState) : Prop :=
  ∀ call, state.owner = some call ↔ ∃ phase, state.calls[call]? = some phase ∧ phase.hasLock = true

theorem Exclusive.move {state next : ThrottleState} (exclusive : state.Exclusive) {call : Nat}
    {old : CallPhase} (new : CallPhase) (found : state.calls[call]? = some old)
    (calls : next.calls = state.calls.set call new)
    (mine : next.owner = some call ↔ new.hasLock = true)
    (others : ∀ other, other ≠ call → (next.owner = some other ↔ state.owner = some other)) :
    next.Exclusive := by
  intro other
  rw [calls]
  by_cases same : other = call
  · subst same
    obtain ⟨inside, _⟩ := List.getElem?_eq_some_iff.mp found
    rw [mine, List.getElem?_set_self inside]
    constructor
    · intro locked
      exact ⟨new, rfl, locked⟩
    · rintro ⟨phase, placed, locked⟩
      cases placed
      exact locked
  · rw [others other same, exclusive other, List.getElem?_set_ne (Ne.symm same)]

variable {state next : ThrottleState}

theorem Exclusive.place (exclusive : state.Exclusive) {call : Nat} {old : CallPhase}
    (new : CallPhase) (found : state.calls[call]? = some old) (same : old.hasLock = new.hasLock) :
    (state.place call new).Exclusive := by
  refine exclusive.move new found rfl ?_ fun _ _ => Iff.rfl
  change state.owner = some call ↔ _
  rw [exclusive call, found, ← same]
  constructor
  · rintro ⟨phase, placed, locked⟩
    cases placed
    exact locked
  · intro locked
    exact ⟨old, rfl, locked⟩

theorem Exclusive.unlock (exclusive : state.Exclusive) {call : Nat} {old : CallPhase}
    (new : CallPhase) (found : state.calls[call]? = some old) (locked : old.hasLock = true)
    (free : new.hasLock = false) : (state.unlock call new).Exclusive := by
  have owner : state.owner = some call := (exclusive call).mpr ⟨old, found, locked⟩
  refine exclusive.move new found rfl ?_ fun other apart => ?_
  · rw [free]
    exact iff_of_false nofun Bool.false_ne_true
  · rw [owner]
    exact iff_of_false nofun fun same => apart (Option.some_inj.mp same).symm

theorem Exclusive.step (exclusive : state.Exclusive) (stepped : Stepped state next) :
    next.Exclusive := by
  cases stepped with
  | call =>
      intro other
      rw [exclusive other]
      constructor
      · rintro ⟨phase, found, locked⟩
        obtain ⟨inside, _⟩ := List.getElem?_eq_some_iff.mp found
        exact ⟨phase, by rw [List.getElem?_append_left inside, found], locked⟩
      · rintro ⟨phase, found, locked⟩
        by_cases inside : other < state.calls.length
        · rw [List.getElem?_append_left inside] at found
          exact ⟨phase, found, locked⟩
        · rw [List.getElem?_append_right (Nat.not_lt.mp inside)] at found
          have newcomer := List.mem_of_getElem? found
          rw [List.mem_singleton] at newcomer
          subst newcomer
          cases locked
  | @lock call old new free found locks =>
      refine exclusive.move new found rfl ?_ fun other apart => ?_
      · cases locks with
        | first => exact iff_of_true rfl rfl
        | again => exact iff_of_true rfl rfl
        | dropping => exact iff_of_true rfl rfl
      · rw [free]
        exact iff_of_false (fun same => apart (Option.some_inj.mp same).symm) nofun
  | park found full => exact exclusive.unlock .parked found rfl rfl
  | pass found => exact exclusive.place (.deciding _) found rfl
  | take found free => exact exclusive.unlock .holding found rfl rfl
  | refuse found full => exact exclusive.unlock .refused found rfl rfl
  | wake found => exact exclusive.place .woken found rfl
  | drop found => exact exclusive.place .dropping found rfl
  | release found => exact exclusive.unlock .notifying found rfl rfl
  | @notify call waiter found parked =>
      have still := notifying_still found parked
      exact (exclusive.place .woken parked rfl).place .released still rfl
  | pointless found noWaiter => exact exclusive.place .released found rfl

theorem exclusive_new (limit : Nat) : (new limit).Exclusive := by
  intro call
  refine iff_of_false nofun ?_
  rintro ⟨phase, found, _⟩
  cases found

theorem run_keeps (invariant : ThrottleState → Prop)
    (kept : ∀ {state next}, invariant state → Stepped state next → invariant next)
    (schedule : List ThrottleAction) (holds : invariant state) :
    invariant (state.run schedule) := by
  induction schedule generalizing state with
  | nil => exact holds
  | cons action rest ih =>
      refine ih ?_
      change invariant ((state.step action).getD state)
      cases taken : state.step action with
      | none => exact holds
      | some next => exact kept holds (step_cases taken)

theorem run_limit (limit : Nat) (schedule : List ThrottleAction) :
    ((new limit).run schedule).throttle.limit = if limit = 0 then 1 else limit := by
  refine run_keeps (fun state => state.throttle.limit = if limit = 0 then 1 else limit) ?_ schedule
    rfl
  intro state next same stepped
  rw [← same]
  cases stepped <;> rfl

def Refuses (state next : ThrottleState) (call : Nat) : Prop :=
  next.calls[call]? = some .refused ∧ state.calls[call]? ≠ some .refused

theorem refused_before {calls : List CallPhase} {call moved : Nat} {new : CallPhase}
    (refused : (calls.set moved new)[call]? = some .refused) (other : new ≠ .refused) :
    calls[call]? = some .refused := by
  by_cases same : moved = call
  · subst same
    rw [List.getElem?_set_self'] at refused
    obtain ⟨_, _, newly⟩ := Option.map_eq_some_iff.mp refused
    exact absurd newly other
  · rwa [List.getElem?_set_ne same] at refused

/-- A call is refused by the counter itself. -/
theorem Stepped.refuses {call : Nat} (stepped : Stepped state next)
    (refuses : Refuses state next call) : state.throttle.limit ≤ state.throttle.inUse := by
  obtain ⟨refused, before⟩ := refuses
  cases stepped with
  | call =>
      by_cases inside : call < state.calls.length
      · rw [List.getElem?_append_left inside] at refused
        exact absurd refused before
      · rw [List.getElem?_append_right (Nat.not_lt.mp inside)] at refused
        have newcomer := List.mem_of_getElem? refused
        exact absurd (List.mem_singleton.mp newcomer) nofun
  | lock free found locks =>
      cases locks with
      | first => exact absurd (refused_before refused nofun) before
      | again => exact absurd (refused_before refused nofun) before
      | dropping => exact absurd (refused_before refused nofun) before
  | park found full => exact full
  | pass found => exact absurd (refused_before refused nofun) before
  | take found free => exact absurd (refused_before refused nofun) before
  | refuse found full => exact full
  | wake found => exact absurd (refused_before refused nofun) before
  | drop found => exact absurd (refused_before refused nofun) before
  | release found => exact absurd (refused_before refused nofun) before
  | notify found parked =>
      exact absurd (refused_before (refused_before refused nofun) nofun) before
  | pointless found noWaiter => exact absurd (refused_before refused nofun) before

theorem run_sound (limit : Nat) (schedule : List ThrottleAction) :
    ((new limit).run schedule).Sound :=
  run_keeps Sound (fun sound stepped => sound.step stepped) schedule (sound_new limit)

/-- At most one call at a time looks at the counter, or changes it. -/
theorem run_exclusive (limit : Nat) (schedule : List ThrottleAction) :
    ((new limit).run schedule).Exclusive :=
  run_keeps Exclusive (fun exclusive stepped => exclusive.step stepped) schedule
    (exclusive_new limit)

theorem Sound.awake (sound : state.Sound) (parked : .parked ∈ state.calls)
    (free : state.throttle.inUse < state.throttle.limit) :
    ∃ phase ∈ state.calls, phase.isWoken = true ∨ phase.isNotifier = true := by
  have enough := sound.wakes parked
  have some : 0 < state.calls.countP CallPhase.isWoken ∨
      0 < state.calls.countP CallPhase.isNotifier := by
    unfold wakers at enough
    omega
  rcases some with woken | notifying
  · obtain ⟨phase, member, awake⟩ := List.countP_pos_iff.mp woken
    exact ⟨phase, member, .inl awake⟩
  · obtain ⟨phase, member, notifies⟩ := List.countP_pos_iff.mp notifying
    exact ⟨phase, member, .inr notifies⟩

end ThrottleState

/-- In every run the counter is the number of slots in use and within the limit, a call is refused
only at the limit, and while a slot is free no waiter is left parked without a call on its way to
wake one. -/
theorem throttle_runs (n : Nat) (schedule : List ThrottleAction) :
    ((ThrottleState.new n).run schedule).throttle.inUse =
        ((ThrottleState.new n).run schedule).slots ∧
      ((ThrottleState.new n).run schedule).throttle.inUse ≤ (if n = 0 then 1 else n) ∧
      (∀ action next call, ((ThrottleState.new n).run schedule).step action = some next →
        ThrottleState.Refuses ((ThrottleState.new n).run schedule) next call →
        ((ThrottleState.new n).run schedule).throttle.inUse = if n = 0 then 1 else n) ∧
      (.parked ∈ ((ThrottleState.new n).run schedule).calls →
        ((ThrottleState.new n).run schedule).throttle.inUse < (if n = 0 then 1 else n) →
        ∃ phase ∈ ((ThrottleState.new n).run schedule).calls,
          phase.isWoken = true ∨ phase.isNotifier = true) := by
  have sound := ThrottleState.run_sound n schedule
  have limit := ThrottleState.run_limit n schedule
  have within := sound.within
  rw [← limit]
  refine ⟨sound.counted, within, fun action next call stepped refuses => ?_, sound.awake⟩
  exact Nat.le_antisymm within ((ThrottleState.step_cases stepped).refuses refuses)

end Y4p
