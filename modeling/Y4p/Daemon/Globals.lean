import Y4p.Daemon.Restore

/-!
The compositor's globals as they come and go, what the registry handler remembers of them,
and the device `bind_data_device` makes from that (`handlers/mod.rs`, `crates/daemon/src/lib.rs`).
-/

namespace Y4p

structure Global where
  name : UInt32
  interface : Str
  version : UInt32
  objects : List ObjectId

-- The handler asks for version 1.
def Global.IsManager (advertised : Global) : Prop :=
  advertised.interface = interfaceManager ∧ 1 ≤ advertised.version

def Global.IsSeat (advertised : Global) : Prop :=
  advertised.interface = interfaceSeat

instance (advertised : Global) : Decidable advertised.IsManager :=
  inferInstanceAs (Decidable (_ ∧ _))

instance (advertised : Global) : Decidable advertised.IsSeat :=
  inferInstanceAs (Decidable (_ = _))

def boundTo (name : UInt32) (requests : List Request) : List ObjectId :=
  requests.filterMap fun request =>
    match request with
    | .bind bound _ _ object => if bound = name then some object else none
    | _ => none

inductive HotplugEvent where
  | global (name : UInt32) (interface : Str) (version : UInt32)
  | globalRemove (name : UInt32)
  | bindDataDevice

-- `origin`: the manager and the seat the last device was made from.
structure Hotplug where
  live : List Global
  state : WaylandState
  conn : Connection
  origin : Option (ObjectId × ObjectId)

namespace Hotplug

def start : Hotplug where
  live := []
  state := .newDaemon
  conn := { next := 0, requests := [] }
  origin := none

-- A name is advertised once while it is live, and only what is live is removed.
def step (hotplug : Hotplug) : HotplugEvent → Hotplug
  | .global name interface version =>
      if ∃ advertised ∈ hotplug.live, advertised.name = name then hotplug
      else
        let (state, conn) := hotplug.state.registryGlobal hotplug.conn name interface version
        let sent := conn.requests.drop hotplug.conn.requests.length
        { hotplug with
          live := ⟨name, interface, version, boundTo name sent⟩ :: hotplug.live
          state := state
          conn := conn }
  | .globalRemove name =>
      if ∃ advertised ∈ hotplug.live, advertised.name = name then
        { hotplug with
          live := hotplug.live.filter fun advertised => advertised.name ≠ name
          state := hotplug.state.registryGlobalRemove name }
      else hotplug
  | .bindDataDevice =>
      let (_, state, conn) := bindDataDevice hotplug.state hotplug.conn
      { hotplug with
        state := state
        conn := conn
        origin :=
          if hotplug.state.device.isSome then hotplug.origin
          else hotplug.state.manager.bind fun manager =>
            hotplug.state.seat.map fun seat => (manager, seat) }

def run (hotplug : Hotplug) (events : List HotplugEvent) : Hotplug :=
  events.foldl step hotplug

end Hotplug

def Backed (live : List Global) (kind : Global → Prop) (object : ObjectId) : Prop :=
  ∃ advertised ∈ live, kind advertised ∧ object ∈ advertised.objects

inductive Remembers (live : List Global) (kind : Global → Prop) :
    Option ObjectId → Option UInt32 → Prop
  | nothing (absent : ∀ advertised ∈ live, ¬ kind advertised) : Remembers live kind none none
  | holds {advertised : Global} {object : ObjectId} (listed : advertised ∈ live)
      (isKind : kind advertised) (bound : object ∈ advertised.objects) :
      Remembers live kind (some object) (some advertised.name)

section
variable {live : List Global} {kind : Global → Prop} {object : Option ObjectId}
  {name : Option UInt32}

theorem Remembers.backed {object : ObjectId} (remembers : Remembers live kind (some object) name) :
    Backed live kind object := by
  cases remembers with
  | holds listed isKind bound => exact ⟨_, listed, isKind, bound⟩

theorem Remembers.known (remembers : Remembers live kind object name) {advertised : Global}
    (listed : advertised ∈ live) (isKind : kind advertised) : ∃ known, object = some known := by
  cases remembers with
  | nothing absent => exact absurd isKind (absent advertised listed)
  | holds => exact ⟨_, rfl⟩

theorem Remembers.add (remembers : Remembers live kind object name) {advertised : Global}
    (kept : kind advertised → object.isSome) : Remembers (advertised :: live) kind object name := by
  cases remembers with
  | nothing absent =>
      refine .nothing fun other listed isKind => ?_
      rcases List.mem_cons.mp listed with rfl | older
      · cases kept isKind
      · exact absent other older isKind
  | holds listed isKind bound => exact .holds (List.mem_cons_of_mem _ listed) isKind bound

theorem Remembers.remove (remembers : Remembers live kind object name) (removed : UInt32)
    (only : name = some removed → ∀ advertised ∈ live, kind advertised →
      advertised.name = removed) :
    Remembers (live.filter fun advertised => advertised.name ≠ removed) kind
      (if some removed = name then none else object)
      (if some removed = name then none else name) := by
  cases remembers with
  | nothing absent =>
      rw [if_neg (Option.some_ne_none _)]
      exact .nothing fun other listed => absent other (List.mem_filter.mp listed).1
  | @holds advertised object listed isKind bound =>
      by_cases same : some removed = some advertised.name
      · rw [if_pos same, if_pos same]
        refine .nothing fun other stays isOther => ?_
        obtain ⟨there, differs⟩ := List.mem_filter.mp stays
        exact of_decide_eq_true differs (only same.symm other there isOther)
      · rw [if_neg same, if_neg same]
        refine .holds (List.mem_filter.mpr ⟨listed, decide_eq_true ?_⟩) isKind bound
        intro equal
        exact same (congrArg some equal.symm)

theorem Backed.add {object : ObjectId} (backed : Backed live kind object) (advertised : Global) :
    Backed (advertised :: live) kind object := by
  obtain ⟨other, listed, isKind, bound⟩ := backed
  exact ⟨other, List.mem_cons_of_mem _ listed, isKind, bound⟩

theorem Backed.remove {object : ObjectId} (backed : Backed live kind object) {removed : UInt32}
    (apart : ∀ advertised ∈ live, object ∈ advertised.objects → advertised.name ≠ removed) :
    Backed (live.filter fun advertised => advertised.name ≠ removed) kind object := by
  obtain ⟨other, listed, isKind, bound⟩ := backed
  exact ⟨other, List.mem_filter.mpr ⟨listed, decide_eq_true (apart other listed bound)⟩, isKind,
    bound⟩

end

namespace Hotplug

def Backs (hotplug : Hotplug) : Prop :=
  ∃ manager seat, hotplug.origin = some (manager, seat) ∧
    Backed hotplug.live Global.IsManager manager ∧ Backed hotplug.live Global.IsSeat seat

def Healthy (hotplug : Hotplug) : Prop :=
  (hotplug.state.device.isSome → hotplug.Backs) ∧
    ((∃ advertised ∈ hotplug.live, advertised.IsManager) →
      (∃ advertised ∈ hotplug.live, advertised.IsSeat) →
      (hotplug.step .bindDataDevice).state.device.isSome ∧ (hotplug.step .bindDataDevice).Backs)

-- What is removed is not what the bound device's manager is bound to, nor a remembered global
-- while there is another of its kind.
def Meets (hotplug : Hotplug) : HotplugEvent → Prop
  | .globalRemove name =>
      (hotplug.state.device.isSome → ∀ made ∈ hotplug.origin, ∀ advertised ∈ hotplug.live,
        made.1 ∈ advertised.objects → advertised.name ≠ name) ∧
      (hotplug.state.managerId = some name → ∀ advertised ∈ hotplug.live, advertised.IsManager →
        advertised.name = name) ∧
      (hotplug.state.seatId = some name → ∀ advertised ∈ hotplug.live, advertised.IsSeat →
        advertised.name = name)
  | _ => True

def AllMeet (hotplug : Hotplug) : List HotplugEvent → Prop
  | [] => True
  | event :: rest => hotplug.Meets event ∧ (hotplug.step event).AllMeet rest

instance (hotplug : Hotplug) : (event : HotplugEvent) → Decidable (hotplug.Meets event)
  | .global .. | .bindDataDevice => .isTrue trivial
  | .globalRemove _ => inferInstanceAs (Decidable (_ ∧ _ ∧ _))

instance decidableAllMeet (hotplug : Hotplug) :
    (events : List HotplugEvent) → Decidable (hotplug.AllMeet events)
  | [] => .isTrue trivial
  | event :: rest =>
      have := decidableAllMeet (hotplug.step event) rest
      inferInstanceAs (Decidable (_ ∧ _))

structure Kept (hotplug : Hotplug) : Prop where
  manager : Remembers hotplug.live Global.IsManager hotplug.state.manager hotplug.state.managerId
  seat : Remembers hotplug.live Global.IsSeat hotplug.state.seat hotplug.state.seatId
  device : hotplug.state.device.isSome → ∃ manager seat, hotplug.origin = some (manager, seat) ∧
    Backed hotplug.live Global.IsManager manager ∧ hotplug.state.seat = some seat

theorem start_kept : start.Kept where
  manager := .nothing fun _ listed => absurd listed List.not_mem_nil
  seat := .nothing fun _ listed => absurd listed List.not_mem_nil
  device := by
    intro bound
    cases bound

theorem Kept.backs {hotplug : Hotplug} (kept : hotplug.Kept)
    (bound : hotplug.state.device.isSome) : hotplug.Backs := by
  obtain ⟨manager, seat, made, backed, same⟩ := kept.device bound
  have remembers := kept.seat
  rw [same] at remembers
  exact ⟨manager, seat, made, backed, remembers.backed⟩

@[simp] theorem bind_live (hotplug : Hotplug) :
    (hotplug.step .bindDataDevice).live = hotplug.live := rfl

theorem bind_state (hotplug : Hotplug) : (hotplug.step .bindDataDevice).state =
    (Y4p.bindDataDevice hotplug.state hotplug.conn).2.1 := rfl

theorem bind_bound {hotplug : Hotplug} (bound : hotplug.state.device.isSome = true) :
    hotplug.step .bindDataDevice = hotplug := by
  unfold step Y4p.bindDataDevice
  simp only [if_pos bound]

theorem bind_fresh {hotplug : Hotplug} (unbound : hotplug.state.device.isSome = false)
    {manager seat : ObjectId} (managed : hotplug.state.manager = some manager)
    (seated : hotplug.state.seat = some seat) :
    (hotplug.step .bindDataDevice).origin = some (manager, seat) ∧
      (hotplug.step .bindDataDevice).state =
        { hotplug.state with device := some hotplug.conn.next } := by
  constructor
  · simp only [step, unbound, managed, seated, Bool.false_eq_true, if_false]
    rfl
  · simp only [bind_state, Y4p.bindDataDevice, unbound, managed, seated, Bool.false_eq_true,
      if_false]
    rfl

theorem bind_cannot {hotplug : Hotplug}
    (lacks : hotplug.state.manager = none ∨ hotplug.state.seat = none) :
    (hotplug.step .bindDataDevice).state = hotplug.state := by
  rw [bind_state, Y4p.bindDataDevice]
  split
  · rfl
  · split
    · rename_i managed seated
      rw [managed, seated] at lacks
      rcases lacks with impossible | impossible
      · cases impossible
      · cases impossible
    · rfl

theorem Kept.bindDataDevice {hotplug : Hotplug} (kept : hotplug.Kept) :
    (hotplug.step .bindDataDevice).Kept := by
  cases bound : hotplug.state.device.isSome with
  | true =>
      rw [bind_bound bound]
      exact kept
  | false =>
      have unable (lacks : hotplug.state.manager = none ∨ hotplug.state.seat = none) :
          (hotplug.step .bindDataDevice).Kept := by
        have state := bind_cannot lacks
        refine ⟨by rw [state]; exact kept.manager, by rw [state]; exact kept.seat, ?_⟩
        rw [state, bound]
        exact fun impossible => absurd impossible Bool.false_ne_true
      cases managed : hotplug.state.manager with
      | none => exact unable (.inl managed)
      | some manager =>
          cases seated : hotplug.state.seat with
          | none => exact unable (.inr seated)
          | some seat =>
              obtain ⟨origin, state⟩ := bind_fresh bound managed seated
              have backed := kept.manager
              rw [managed] at backed
              refine ⟨by rw [state]; exact kept.manager, by rw [state]; exact kept.seat,
                fun _ => ⟨manager, seat, origin, backed.backed, ?_⟩⟩
              rw [state]
              exact seated

theorem Kept.healthy {hotplug : Hotplug} (kept : hotplug.Kept) : hotplug.Healthy := by
  refine ⟨kept.backs, ?_⟩
  rintro ⟨manager, managerListed, isManager⟩ ⟨seat, seatListed, isSeat⟩
  have bound : (hotplug.step .bindDataDevice).state.device.isSome := by
    cases already : hotplug.state.device.isSome with
    | true =>
        rw [bind_bound already]
        exact already
    | false =>
        obtain ⟨_, managed⟩ := kept.manager.known managerListed isManager
        obtain ⟨_, seated⟩ := kept.seat.known seatListed isSeat
        rw [(bind_fresh already managed seated).2]
        rfl
  exact ⟨bound, kept.bindDataDevice.backs bound⟩

theorem manager_not_seat : interfaceManager ≠ interfaceSeat := by decide

section
variable {state : WaylandState} {conn : Connection} {name : UInt32} {interface : Str}
  {version : UInt32}

theorem registryGlobal_manager (isManager : interface = interfaceManager ∧ 1 ≤ version) :
    state.registryGlobal conn name interface version =
      ({ state with manager := some conn.next, managerId := some name },
        (conn.create (.bind name interfaceManager 1)).2) := by
  unfold WaylandState.registryGlobal WaylandState.bindManager WaylandState.bindSeat
  rw [if_pos isManager]
  dsimp only
  rw [if_neg fun both => manager_not_seat (isManager.1.symm.trans both.1)]
  rfl

theorem registryGlobal_seat (isSeat : interface = interfaceSeat ∧ state.seat.isNone) :
    state.registryGlobal conn name interface version =
      ({ state with seat := some conn.next, seatId := some name },
        (conn.create (.bind name interfaceSeat (min version 7))).2) := by
  unfold WaylandState.registryGlobal WaylandState.bindManager WaylandState.bindSeat
  rw [if_neg fun both => manager_not_seat (both.1.symm.trans isSeat.1)]
  dsimp only
  rw [if_pos isSeat]
  rfl

theorem registryGlobal_other (notManager : ¬ (interface = interfaceManager ∧ 1 ≤ version))
    (notSeat : ¬ (interface = interfaceSeat ∧ state.seat.isNone)) :
    state.registryGlobal conn name interface version = (state, conn) := by
  unfold WaylandState.registryGlobal WaylandState.bindManager WaylandState.bindSeat
  rw [if_neg notManager]
  dsimp only
  rw [if_neg notSeat]

end

theorem boundTo_create (conn : Connection) (name : UInt32) (interface : Str) (version : UInt32) :
    boundTo name ((conn.create (.bind name interface version)).2.requests.drop
      conn.requests.length) = [conn.next] := by
  change boundTo name ((conn.requests ++ [_]).drop conn.requests.length) = [conn.next]
  rw [List.drop_left]
  simp [boundTo]

theorem Kept.global {hotplug : Hotplug} (kept : hotplug.Kept) (name : UInt32) (interface : Str)
    (version : UInt32) : (hotplug.step (.global name interface version)).Kept := by
  unfold step
  dsimp only
  by_cases taken : ∃ advertised ∈ hotplug.live, advertised.name = name
  · rw [if_pos taken]
    exact kept
  · rw [if_neg taken]
    by_cases isManager : interface = interfaceManager ∧ 1 ≤ version
    · rw [registryGlobal_manager isManager, boundTo_create]
      have notSeat : interface ≠ interfaceSeat :=
        fun same => manager_not_seat (isManager.1.symm.trans same)
      refine ⟨?_, kept.seat.add fun isSeat => absurd isSeat notSeat, ?_⟩
      · exact @Remembers.holds _ _ ⟨name, interface, version, [hotplug.conn.next]⟩ _
          List.mem_cons_self isManager List.mem_cons_self
      · intro bound
        obtain ⟨manager, seat, made, backed, same⟩ := kept.device bound
        exact ⟨manager, seat, made, backed.add _, same⟩
    · by_cases isSeat : interface = interfaceSeat ∧ hotplug.state.seat.isNone
      · rw [registryGlobal_seat isSeat, boundTo_create]
        refine ⟨kept.manager.add fun both => absurd both isManager, ?_, ?_⟩
        · exact @Remembers.holds _ _ ⟨name, interface, version, [hotplug.conn.next]⟩ _
            List.mem_cons_self isSeat.1 List.mem_cons_self
        · intro bound
          obtain ⟨manager, seat, made, backed, same⟩ := kept.device bound
          rw [same] at isSeat
          cases isSeat.2
      · rw [registryGlobal_other isManager isSeat]
        refine ⟨kept.manager.add fun both => absurd both isManager, kept.seat.add ?_, ?_⟩
        · intro same
          cases seated : hotplug.state.seat with
          | none => exact absurd ⟨same, by rw [seated]; rfl⟩ isSeat
          | some seat => rfl
        · intro bound
          obtain ⟨manager, seat, made, backed, same⟩ := kept.device bound
          exact ⟨manager, seat, made, backed.add _, same⟩

theorem registryGlobalRemove_eq (state : WaylandState) (name : UInt32) :
    state.registryGlobalRemove name = { state with
      manager := if some name = state.managerId then none else state.manager
      managerId := if some name = state.managerId then none else state.managerId
      seat := if some name = state.seatId then none else state.seat
      seatId := if some name = state.seatId then none else state.seatId
      device := if some name = state.seatId then none else state.device } := by
  unfold WaylandState.registryGlobalRemove
  by_cases isManager : some name = state.managerId
  · by_cases isSeat : some name = state.seatId
    · simp only [if_pos isManager, if_pos isSeat]
    · simp only [if_pos isManager, if_neg isSeat]
  · by_cases isSeat : some name = state.seatId
    · simp only [if_neg isManager, if_pos isSeat]
    · simp only [if_neg isManager, if_neg isSeat]

theorem Kept.globalRemove {hotplug : Hotplug} (kept : hotplug.Kept) {name : UInt32}
    (meets : hotplug.Meets (.globalRemove name)) : (hotplug.step (.globalRemove name)).Kept := by
  unfold step
  dsimp only
  by_cases there : ∃ advertised ∈ hotplug.live, advertised.name = name
  · rw [if_pos there, registryGlobalRemove_eq]
    obtain ⟨spared, onlyManager, onlySeat⟩ := meets
    refine ⟨kept.manager.remove name onlyManager, kept.seat.remove name onlySeat, ?_⟩
    dsimp only
    by_cases isSeat : some name = hotplug.state.seatId
    · rw [if_pos isSeat]
      exact fun impossible => absurd impossible Bool.false_ne_true
    · rw [if_neg isSeat, if_neg isSeat]
      intro bound
      obtain ⟨manager, seat, made, backed, same⟩ := kept.device bound
      exact ⟨manager, seat, made, backed.remove (spared bound _ made), same⟩
  · rw [if_neg there]
    exact kept

theorem Kept.step {hotplug : Hotplug} (kept : hotplug.Kept) {event : HotplugEvent}
    (meets : hotplug.Meets event) : (hotplug.step event).Kept := by
  cases event with
  | global name interface version => exact kept.global name interface version
  | globalRemove name => exact kept.globalRemove meets
  | bindDataDevice => exact kept.bindDataDevice

theorem Kept.run {hotplug : Hotplug} (kept : hotplug.Kept) {before after : List HotplugEvent}
    (meet : hotplug.AllMeet (before ++ after)) : (hotplug.run before).Kept := by
  induction before generalizing hotplug with
  | nil => exact kept
  | cons event rest ih => exact ih (kept.step meet.1) meet.2

/-- In a run whose steps all meet the condition, every state reached is healthy. -/
theorem globals_healthy (events : List HotplugEvent) (meet : start.AllMeet events)
    (before after : List HotplugEvent) (split : events = before ++ after) :
    (start.run before).Healthy := by
  subst split
  exact (start_kept.run meet).healthy

def reseated : List HotplugEvent :=
  [.global 1 interfaceManager 1, .global 2 interfaceSeat 9, .bindDataDevice, .globalRemove 2,
    .global 3 interfaceSeat 9, .bindDataDevice]

theorem globals_healthy_reseated :
    (start.run reseated).Healthy ∧ (start.run reseated).origin = some (0, 3) :=
  ⟨globals_healthy reseated (by decide) reseated [] (by simp), by decide⟩

def managerGone : List HotplugEvent :=
  [.global 1 interfaceManager 1, .global 2 interfaceSeat 9, .bindDataDevice, .globalRemove 1]

theorem globals_counterexample :
    ¬ ∀ events before after : List HotplugEvent, events = before ++ after →
      (start.run before).Healthy := by
  intro claimed
  have healthy := claimed managerGone managerGone [] (by simp)
  obtain ⟨manager, seat, made, ⟨advertised, listed, isManager, _⟩, _⟩ := healthy.1 (by decide)
  have seats : ∀ advertised ∈ (start.run managerGone).live, ¬ advertised.IsManager := by decide
  exact seats advertised listed isManager

end Hotplug

end Y4p
