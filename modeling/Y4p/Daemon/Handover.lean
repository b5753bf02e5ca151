import Mathlib.Data.List.Induction
import Y4p.Daemon.Ipc

/-!
A second daemon starts on the socket path of a running one: the hand-over of `start_daemon`
(`crates/daemon/src/lib.rs`) against the first daemon's event loop and shutdown.
-/

namespace Y4p

inductive Listener where
  | first
  | second
  deriving DecidableEq

-- A connection to the first daemon's listener. A client of the CLI writes its frame and closes.
inductive Peer where
  | starter
  | client (command : Command)
  deriving DecidableEq

-- `leaving`: out of its loop, with the `SocketGuard` still to be dropped.
inductive Serving where
  | polling
  | reading (peer : Peer)
  | leaving
  | ended
  deriving DecidableEq

inductive Starting where
  | connect
  | write
  | sleep
  | unlink
  | bind
  | serving
  | failed
  deriving DecidableEq

-- `queue`: connections the first daemon has not accepted. `exiting` and `lost` are its own.
structure Handover where
  path : Option Listener
  first : Serving
  second : Starting
  queue : List Peer
  exiting : Bool
  lost : Bool
  deriving DecidableEq

inductive HandoverAction where
  | first
  | second
  | signal
  | compositorLost
  | client (command : Command)
  deriving DecidableEq

namespace Handover

def start : Handover where
  path := some .first
  first := .polling
  second := .connect
  queue := []
  exiting := false
  lost := false

def connects (handover : Handover) : Bool :=
  handover.path = some .first && handover.first ≠ .ended

def arrived (handover : Handover) : Peer → Bytes × Bool
  | .client command => (command.frame, true)
  | .starter =>
      match handover.second with
      | .connect | .write => ([], false)
      | .sleep => ([ipcCmdExit], false)
      | _ => ([ipcCmdExit], true)

def fills (bytes : Bytes) : List Fill :=
  if bytes = [] then [] else [.data bytes]

-- A command other than EXIT leaves the hand-over as it is.
def dispatch (handover : Handover) (bytes : Bytes) : Handover :=
  match (acceptAndDispatch (some (fills bytes)) []).1 with
  | some .exit => { handover with exiting := true }
  | _ => handover

-- `read_until` blocks until the delimiter or the end of the stream.
def stepFirst (handover : Handover) : Handover :=
  match handover.first with
  | .polling =>
      if handover.exiting then { handover with first := .leaving }
      else
        match handover.queue with
        | peer :: rest => { handover with first := .reading peer, queue := rest }
        | [] => if handover.lost then { handover with first := .leaving } else handover
  | .reading peer =>
      let (bytes, closed) := handover.arrived peer
      if ipcDelimiter ∈ bytes ∨ closed then
        { handover.dispatch bytes with first := if handover.lost then .leaving else .polling }
      else handover
  | .leaving => { handover with path := none, first := .ended }
  | .ended => handover

def stepSecond (handover : Handover) : Handover :=
  match handover.second with
  | .connect =>
      if handover.connects then
        { handover with queue := handover.queue ++ [.starter], second := .write }
      else { handover with second := .unlink }
  | .write => { handover with second := .sleep }
  | .sleep => { handover with second := .unlink }
  | .unlink => { handover with path := none, second := .bind }
  | .bind =>
      match handover.path with
      | none => { handover with path := some .second, second := .serving }
      | some _ => { handover with second := .failed }
  | .serving | .failed => handover

-- A second signal ends the process without dropping anything.
def step (handover : Handover) : HandoverAction → Handover
  | .first => handover.stepFirst
  | .second => handover.stepSecond
  | .signal =>
      if handover.first = .ended then handover
      else if handover.exiting then { handover with first := .ended }
      else { handover with exiting := true }
  | .compositorLost => { handover with lost := true }
  | .client command =>
      if handover.connects then { handover with queue := handover.queue ++ [.client command] }
      else handover

def run (handover : Handover) (actions : List HandoverAction) : Handover :=
  actions.foldl step handover

def Settled (handover : Handover) : Prop :=
  (handover.second = .serving ∨ handover.second = .failed) ∧ handover.stepFirst = handover

def HandedOver (handover : Handover) : Prop :=
  (handover.first = .leaving ∨ handover.first = .ended) ∧ handover.path = some .second

end Handover

def HandoverAction.stops : HandoverAction → Bool
  | .signal | .compositorLost => true
  | _ => false

def DropsLate (actions : List HandoverAction) : Prop :=
  ∃ before after, actions = before ++ .first :: after ∧
    (Handover.start.run before).first = .leaving ∧ (Handover.start.run before).second = .serving

namespace Handover

variable {handover : Handover}

theorem fills_delivers (bytes : Bytes) : Delivers (fills bytes) bytes := by
  unfold fills
  split
  · rename_i empty
    exact ⟨nofun, nofun, empty.symm⟩
  · rename_i filled
    refine ⟨by simp, ?_, by simp [Fill.bytes]⟩
    intro fill member same
    rw [List.mem_singleton.mp member] at same
    cases same
    exact filled rfl

/-- Nothing that arrives is decoded as EXIT. -/
theorem dispatch_arrived (handover : Handover) (peer : Peer) :
    handover.dispatch (handover.arrived peer).1 = handover := by
  unfold dispatch
  rw [dispatched (fills_delivers _)]
  cases peer with
  | client command =>
      change (match Command.decode (upTo ipcDelimiter command.frame) with
        | some .exit => { handover with exiting := true }
        | _ => handover) = handover
      rw [command.frame_upTo, command.decode_frame]
      cases command <;> rfl
  | starter =>
      unfold arrived
      cases handover.second <;> rfl

theorem stepFirst_cases (handover : Handover) :
    handover.stepFirst.second = handover.second ∧
      handover.stepFirst.exiting = handover.exiting ∧ handover.stepFirst.lost = handover.lost ∧
      ((handover.first = .leaving ∧ handover.stepFirst.first = .ended ∧
          handover.stepFirst.path = none) ∨
        (handover.first ≠ .leaving ∧ handover.stepFirst.path = handover.path ∧
          (handover.first = .ended ↔ handover.stepFirst.first = .ended) ∧
          (handover.stepFirst.first = .leaving → handover.exiting = true ∨ handover.lost = true))) := by
  unfold stepFirst
  cases first : handover.first with
  | polling =>
      dsimp only
      by_cases exits : handover.exiting = true
      · rw [if_pos exits]
        exact ⟨rfl, rfl, rfl, .inr ⟨nofun, rfl, iff_of_false nofun nofun, fun _ => .inl exits⟩⟩
      · rw [if_neg exits]
        cases handover.queue with
        | cons peer rest =>
            exact ⟨rfl, rfl, rfl, .inr ⟨nofun, rfl, iff_of_false nofun nofun, nofun⟩⟩
        | nil =>
            dsimp only
            by_cases lost : handover.lost = true
            · rw [if_pos lost]
              exact ⟨rfl, rfl, rfl, .inr ⟨nofun, rfl, iff_of_false nofun nofun, fun _ => .inr lost⟩⟩
            · rw [if_neg lost, first]
              exact ⟨rfl, rfl, rfl, .inr ⟨nofun, rfl, iff_of_false nofun nofun, nofun⟩⟩
  | reading peer =>
      dsimp only
      rw [dispatch_arrived]
      split
      · refine ⟨rfl, rfl, rfl, .inr ⟨nofun, rfl, iff_of_false nofun ?_, ?_⟩⟩
        · dsimp only
          split <;> exact nofun
        · dsimp only
          intro left
          refine .inr ?_
          by_contra kept
          rw [if_neg kept] at left
          cases left
      · rw [first]
        exact ⟨rfl, rfl, rfl, .inr ⟨nofun, rfl, iff_of_false nofun nofun, nofun⟩⟩
  | leaving => exact ⟨rfl, rfl, rfl, .inl ⟨rfl, rfl, rfl⟩⟩
  | ended =>
      dsimp only
      rw [first]
      exact ⟨rfl, rfl, rfl, .inr ⟨nofun, rfl, Iff.rfl, nofun⟩⟩

theorem stepSecond_cases (handover : Handover) :
    handover.stepSecond.first = handover.first ∧ handover.stepSecond.exiting = handover.exiting ∧
      handover.stepSecond.lost = handover.lost ∧
      ((handover.second = .unlink ∧ handover.stepSecond.second = .bind ∧
          handover.stepSecond.path = none) ∨
        (handover.second = .bind ∧ handover.path = none ∧
          handover.stepSecond.second = .serving ∧ handover.stepSecond.path = some .second) ∨
        (handover.second = .bind ∧ handover.path ≠ none) ∨
        (handover.second ≠ .bind ∧ handover.stepSecond.second ≠ .bind ∧
          handover.stepSecond.path = handover.path ∧
          (handover.second = .serving ↔ handover.stepSecond.second = .serving) ∧
          (handover.second = .failed ↔ handover.stepSecond.second = .failed))) := by
  unfold stepSecond
  cases second : handover.second with
  | connect =>
      dsimp only
      split <;> exact ⟨rfl, rfl, rfl, .inr (.inr (.inr ⟨nofun, nofun, rfl,
        iff_of_false nofun nofun, iff_of_false nofun nofun⟩))⟩
  | write =>
      exact ⟨rfl, rfl, rfl, .inr (.inr (.inr ⟨nofun, nofun, rfl, iff_of_false nofun nofun,
        iff_of_false nofun nofun⟩))⟩
  | sleep =>
      exact ⟨rfl, rfl, rfl, .inr (.inr (.inr ⟨nofun, nofun, rfl, iff_of_false nofun nofun,
        iff_of_false nofun nofun⟩))⟩
  | unlink => exact ⟨rfl, rfl, rfl, .inl ⟨rfl, rfl, rfl⟩⟩
  | bind =>
      dsimp only
      cases path : handover.path with
      | none => exact ⟨rfl, rfl, rfl, .inr (.inl ⟨rfl, rfl, rfl, rfl⟩)⟩
      | some listener => exact ⟨rfl, rfl, rfl, .inr (.inr (.inl ⟨rfl, nofun⟩))⟩
  | serving =>
      dsimp only
      rw [second]
      exact ⟨rfl, rfl, rfl, .inr (.inr (.inr ⟨nofun, nofun, rfl, Iff.rfl, Iff.rfl⟩))⟩
  | failed =>
      dsimp only
      rw [second]
      exact ⟨rfl, rfl, rfl, .inr (.inr (.inr ⟨nofun, nofun, rfl, Iff.rfl, Iff.rfl⟩))⟩

def Stopping (handover : Handover) : Prop :=
  handover.exiting = true ∨ handover.lost = true ∨ handover.first = .leaving ∨
    handover.first = .ended

structure Kept (actions : List HandoverAction) (handover : Handover) : Prop where
  unbound : handover.second ≠ .serving → handover.path ≠ some .second ∧ ¬ DropsLate actions
  bound : handover.second = .serving →
    (handover.path = some .second ∧ ¬ DropsLate actions) ∨
      (handover.path = none ∧ DropsLate actions)
  free : handover.second = .bind → handover.path = none
  sound : handover.second ≠ .failed
  stopping : handover.Stopping ↔ ∃ action ∈ actions, action.stops = true

theorem run_snoc (actions : List HandoverAction) (action : HandoverAction) :
    start.run (actions ++ [action]) = (start.run actions).step action :=
  List.foldl_concat ..

theorem dropsLate_snoc (actions : List HandoverAction) (action : HandoverAction) :
    DropsLate (actions ++ [action]) ↔
      DropsLate actions ∨ (action = .first ∧ (start.run actions).first = .leaving ∧
        (start.run actions).second = .serving) := by
  refine ⟨?_, ?_⟩
  · rintro ⟨before, after, shape, left, serves⟩
    rcases List.eq_nil_or_concat after with rfl | ⟨rest, last, rfl⟩
    · obtain ⟨rfl, same⟩ := List.append_inj' shape rfl
      cases same
      exact .inr ⟨rfl, left, serves⟩
    · rw [List.concat_eq_append, ← List.cons_append, ← List.append_assoc] at shape
      obtain ⟨rfl, _⟩ := List.append_inj' shape rfl
      exact .inl ⟨before, rest, rfl, left, serves⟩
  · rintro (⟨before, after, rfl, left, serves⟩ | ⟨rfl, left, serves⟩)
    · exact ⟨before, after ++ [action], by simp, left, serves⟩
    · exact ⟨actions, [], rfl, left, serves⟩

theorem stops_snoc (actions : List HandoverAction) (action : HandoverAction) :
    (∃ other ∈ actions ++ [action], HandoverAction.stops other = true) ↔
      (∃ other ∈ actions, HandoverAction.stops other = true) ∨ action.stops = true := by
  simp only [List.mem_append, List.mem_singleton, or_and_right, exists_or, exists_eq_left]

section
variable {actions : List HandoverAction}

theorem Kept.first (kept : (start.run actions).Kept actions) :
    ((start.run actions).step .first).Kept (actions ++ [.first]) := by
  obtain ⟨second, exiting, lost, cases⟩ := stepFirst_cases (start.run actions)
  have drops := dropsLate_snoc actions .first
  have stops := stops_snoc actions .first
  rw [or_iff_left (show ¬ HandoverAction.first.stops = true from nofun)] at stops
  have stopping := kept.stopping
  unfold Stopping at stopping
  change (start.run actions).stepFirst.Kept _
  rcases cases with ⟨left, ended, path⟩ | ⟨stays, path, ends, leaves⟩
  · refine ⟨fun unserving => ?_, fun serves => ?_, fun _ => path, ?_, ?_⟩
    · rw [second] at unserving
      refine ⟨path ▸ nofun, fun late => ?_⟩
      rcases drops.mp late with early | ⟨_, _, serves⟩
      · exact (kept.unbound unserving).2 early
      · exact unserving serves
    · rw [second] at serves
      exact .inr ⟨path, drops.mpr (.inr ⟨rfl, left, serves⟩)⟩
    · rw [second]
      exact kept.sound
    · rw [stops, ← stopping]
      exact iff_of_true (.inr (.inr (.inr ended))) (.inr (.inr (.inl left)))
  · have same : DropsLate (actions ++ [.first]) ↔ DropsLate actions :=
      drops.trans (or_iff_left fun late => stays late.2.1)
    refine ⟨?_, ?_, ?_, ?_, ?_⟩
    · rw [second, path, same]
      exact kept.unbound
    · rw [second, path, same]
      exact kept.bound
    · rw [second, path]
      exact kept.free
    · rw [second]
      exact kept.sound
    · rw [stops, ← stopping]
      unfold Stopping
      rw [exiting, lost, ← ends]
      refine ⟨?_, ?_⟩
      · rintro (exits | gone | left | ended)
        · exact .inl exits
        · exact .inr (.inl gone)
        · exact (leaves left).imp id .inl
        · exact .inr (.inr (.inr ended))
      · rintro (exits | gone | left | ended)
        · exact .inl exits
        · exact .inr (.inl gone)
        · exact absurd left stays
        · exact .inr (.inr (.inr ended))

theorem Kept.second (kept : (start.run actions).Kept actions) :
    ((start.run actions).step .second).Kept (actions ++ [.second]) := by
  obtain ⟨first, exiting, lost, cases⟩ := stepSecond_cases (start.run actions)
  have same : DropsLate (actions ++ [.second]) ↔ DropsLate actions :=
    (dropsLate_snoc actions .second).trans (or_iff_left fun late => nomatch late.1)
  have stops := stops_snoc actions .second
  rw [or_iff_left (show ¬ HandoverAction.second.stops = true from nofun)] at stops
  have stopping : ((start.run actions).stepSecond).Stopping ↔
      ∃ other ∈ actions ++ [.second], HandoverAction.stops other = true := by
    rw [stops, ← kept.stopping]
    unfold Stopping
    rw [first, exiting, lost]
  change (start.run actions).stepSecond.Kept _
  rcases cases with ⟨before, after, path⟩ | ⟨before, free, after, path⟩ | ⟨before, taken⟩ |
    ⟨before, after, path, serves, fails⟩
  · refine ⟨fun _ => ⟨path ▸ nofun, ?_⟩, fun serves => ?_, fun _ => path, ?_, stopping⟩
    · rw [same]
      exact (kept.unbound (before ▸ nofun)).2
    · rw [after] at serves
      cases serves
    · rw [after]
      exact nofun
  · refine ⟨fun unserving => absurd after unserving, fun _ => .inl ⟨path, ?_⟩, fun binds => ?_, ?_,
      stopping⟩
    · rw [same]
      exact (kept.unbound (before ▸ nofun)).2
    · rw [after] at binds
      cases binds
    · rw [after]
      exact nofun
  · exact absurd (kept.free before) taken
  · refine ⟨fun unserving => ?_, fun serving => ?_, fun binds => absurd binds after,
      fun failed => kept.sound (fails.mpr failed), stopping⟩
    · rw [path, same]
      exact kept.unbound fun serving => unserving (serves.mp serving)
    · rw [path, same]
      exact kept.bound (serves.mpr serving)

theorem Kept.outside (kept : (start.run actions).Kept actions) {action : HandoverAction}
    {handover : Handover} (neither : action ≠ .first)
    (second : handover.second = (start.run actions).second)
    (path : handover.path = (start.run actions).path)
    (stopping : handover.Stopping ↔ (start.run actions).Stopping ∨ action.stops = true) :
    handover.Kept (actions ++ [action]) := by
  have same : DropsLate (actions ++ [action]) ↔ DropsLate actions :=
    (dropsLate_snoc actions action).trans (or_iff_left fun late => neither late.1)
  refine ⟨?_, ?_, ?_, ?_, ?_⟩
  · rw [second, path, same]
    exact kept.unbound
  · rw [second, path, same]
    exact kept.bound
  · rw [second, path]
    exact kept.free
  · rw [second]
    exact kept.sound
  · rw [stopping, kept.stopping, stops_snoc]

end

theorem kept_start : Handover.start.Kept [] where
  unbound := by
    refine fun _ => ⟨nofun, ?_⟩
    rintro ⟨before, after, shape, _⟩
    exact absurd shape.symm (by simp)
  bound := nofun
  free := nofun
  sound := nofun
  stopping := iff_of_false (by rintro (exits | gone | left | ended) <;> contradiction) (by simp)

theorem kept_run (actions : List HandoverAction) : (start.run actions).Kept actions := by
  induction actions using List.reverseRecOn with
  | nil => exact kept_start
  | append_singleton actions action kept =>
      rw [run_snoc]
      cases action with
      | first => exact kept.first
      | second => exact kept.second
      | signal =>
          unfold step
          dsimp only
          split
          · rename_i ended
            exact kept.outside nofun rfl rfl
              (iff_of_true (.inr (.inr (.inr ended))) (.inl (.inr (.inr (.inr ended)))))
          · split
            · exact kept.outside nofun rfl rfl
                (iff_of_true (.inr (.inr (.inr rfl))) (.inr rfl))
            · exact kept.outside nofun rfl rfl (iff_of_true (.inl rfl) (.inr rfl))
      | compositorLost =>
          exact kept.outside nofun rfl rfl (iff_of_true (.inr (.inl rfl)) (.inr rfl))
      | client command =>
          unfold step
          dsimp only
          split <;> exact kept.outside nofun rfl rfl (or_iff_left nofun).symm

/-- A stopping daemon that has no step left has ended, once the starter has closed its
connection. -/
theorem settled_ended {handover : Handover} (serves : handover.second = .serving)
    (settled : handover.stepFirst = handover) (stopping : handover.Stopping) :
    handover.first = .ended := by
  have same := congrArg Handover.first settled
  unfold stepFirst at same
  cases first : handover.first with
  | ended => rfl
  | leaving =>
      rw [first] at same
      cases same
  | reading peer =>
      exfalso
      have closed : (handover.arrived peer).2 = true := by
        cases peer with
        | client command => rfl
        | starter =>
            unfold arrived
            rw [serves]
      rw [first] at same
      dsimp only at same
      rw [if_pos (.inr closed)] at same
      dsimp only at same
      split at same <;> cases same
  | polling =>
      exfalso
      rw [first] at same
      dsimp only at same
      by_cases exits : handover.exiting = true
      · rw [if_pos exits] at same
        cases same
      · rw [if_neg exits] at same
        cases queue : handover.queue with
        | cons peer rest =>
            rw [queue] at same
            cases same
        | nil =>
            rw [queue] at same
            dsimp only at same
            by_cases lost : handover.lost = true
            · rw [if_pos lost] at same
              cases same
            · unfold Stopping at stopping
              rw [first] at stopping
              rcases stopping with exits' | lost' | left | ended
              · exact exits exits'
              · exact lost lost'
              · cases left
              · cases ended

/-- EXIT never reaches the first daemon, so it takes something else to stop it; and its guard
must not come after the second daemon's bind. -/
theorem handedOver_iff (actions : List HandoverAction) (settled : (start.run actions).Settled) :
    (start.run actions).HandedOver ↔
      (∃ action ∈ actions, action.stops = true) ∧ ¬ DropsLate actions := by
  have kept := kept_run actions
  have serves : (start.run actions).second = .serving :=
    settled.1.resolve_right kept.sound
  rw [← kept.stopping]
  unfold HandedOver
  refine and_congr ⟨?_, ?_⟩ ⟨?_, ?_⟩
  · exact fun left => .inr (.inr left)
  · exact fun stopping => .inr (settled_ended serves settled.2 stopping)
  · intro path
    rcases kept.bound serves with ⟨_, early⟩ | ⟨gone, _⟩
    · exact early
    · rw [gone] at path
      cases path
  · intro early
    exact (kept.bound serves).elim And.left fun late => absurd late.2 early

theorem handedOver_iff_sample :
    (start.run [.second, .second, .signal, .first, .first, .second, .second, .second]).HandedOver ↔
      (∃ action ∈ [HandoverAction.second, .second, .signal, .first, .first, .second, .second,
          .second], action.stops = true) ∧
        ¬ DropsLate [.second, .second, .signal, .first, .first, .second, .second, .second] :=
  handedOver_iff _ ⟨.inl rfl, rfl⟩

/-- With nobody to stop it the first daemon reads what the starter sent and goes on polling; and
when it is stopped late its guard unlinks the second daemon's socket. -/
theorem handedOver_iff_counterexample :
    ((start.run [.second, .second, .second, .second, .second, .first, .first]).Settled ∧
      ¬ (start.run [.second, .second, .second, .second, .second, .first, .first]).HandedOver) ∧
    ((start.run [.second, .second, .second, .second, .second, .signal, .first, .first]).Settled ∧
      ¬ (start.run [.second, .second, .second, .second, .second, .signal, .first,
        .first]).HandedOver) := by
  refine ⟨⟨⟨.inl rfl, rfl⟩, ?_⟩, ⟨.inl rfl, rfl⟩, ?_⟩
  · rintro ⟨left | ended, _⟩
    · cases left
    · cases ended
  · rintro ⟨_, path⟩
    cases path

end Handover

end Y4p
