import Y4p.Lib.Credits
import Y4p.Daemon.Restore

/-!
The daemon's event loop and the compositor, with the requests and events between
them: which selection events the daemon takes for the echoes of its own.
-/

namespace Y4p

open Programs

-- Whose selection an event announces; the event itself does not say.
inductive Origin where
  | own
  | foreign
  deriving DecidableEq

inductive Event where
  | global (name : UInt32) (interface : Str) (version : UInt32)
  | globalRemove (name : UInt32)
  | selection (origin : Origin)

structure Compositor where
  globals : List (UInt32 × Str)
  seats : List (ObjectId × UInt32)
  devices : List (ObjectId × UInt32)
  events : List Event

namespace Compositor

def send (compositor : Compositor) (event : Event) : Compositor :=
  { compositor with events := compositor.events ++ [event] }

def Live (compositor : Compositor) (device : ObjectId) : Prop :=
  ∃ entry ∈ compositor.devices, entry.1 = device

instance (compositor : Compositor) (device : ObjectId) : Decidable (compositor.Live device) :=
  inferInstanceAs (Decidable (∃ entry ∈ compositor.devices, entry.1 = device))

-- A device whose seat is gone is inert: nothing follows from its requests.
def process (compositor : Compositor) : Request → Compositor
  | .bind name interface _ object =>
      if interface = interfaceSeat ∧ (name, interface) ∈ compositor.globals then
        { compositor with seats := compositor.seats ++ [(object, name)] }
      else compositor
  | .getDataDevice seat device =>
      { compositor with
        devices := compositor.devices ++
          (compositor.seats.filter fun entry => entry.1 = seat).map fun entry => (device, entry.2) }
  | .setSelection device _ =>
      if compositor.Live device then compositor.send (.selection .own) else compositor
  | .createDataSource _ | .offer .. => compositor

def advertise (compositor : Compositor) (name : UInt32) (interface : Str) (version : UInt32) :
    Compositor :=
  if ∃ entry ∈ compositor.globals, entry.1 = name then compositor
  else
    { compositor with globals := compositor.globals ++ [(name, interface)] }.send
      (.global name interface version)

def withdraw (compositor : Compositor) (name : UInt32) : Compositor :=
  if ∃ entry ∈ compositor.globals, entry.1 = name then
    { compositor with
      globals := compositor.globals.filter fun entry => entry.1 ≠ name
      seats := compositor.seats.filter fun entry => entry.2 ≠ name
      devices := compositor.devices.filter fun entry => entry.2 ≠ name }.send (.globalRemove name)
  else compositor

def foreign (compositor : Compositor) : Compositor :=
  if compositor.devices = [] then compositor else compositor.send (.selection .foreign)

end Compositor

-- `conn.requests` await the compositor; `handled` records what the daemon took each event for.
structure System where
  state : WaylandState
  conn : Connection
  compositor : Compositor
  handled : List (Origin × WaylandState.Treatment)

inductive Action where
  | restore (located served : World) (id : Int)
  | bindDevice
  | dispatch
  | process
  | foreign
  | advertise (name : UInt32) (interface : Str) (version : UInt32)
  | withdraw (name : UInt32)

namespace System

def initial : System where
  state := .newDaemon
  conn := { next := 0, requests := [] }
  compositor := { globals := [], seats := [], devices := [], events := [] }
  handled := []

def deliver (system : System) : Event → System
  | .global name interface version =>
      let (state, conn) := system.state.registryGlobal system.conn name interface version
      { system with state := state, conn := conn }
  | .globalRemove name => { system with state := system.state.registryGlobalRemove name }
  | .selection origin =>
      { system with
        state := system.state.selection.1
        handled := system.handled ++ [(origin, system.state.selection.2)] }

section
variable (sha3 : Bytes → Bytes)

def step (system : System) : Action → System
  | .restore located served id =>
      let (state, conn) := restoreAcross sha3 located served system.state system.conn id
      { system with state := state, conn := conn }
  | .bindDevice =>
      let (_, state, conn) := bindDataDevice system.state system.conn
      { system with state := state, conn := conn }
  | .dispatch =>
      match system.compositor.events with
      | [] => system
      | event :: rest =>
          { system with compositor := { system.compositor with events := rest } }.deliver event
  | .process =>
      match system.conn.requests with
      | [] => system
      | request :: rest =>
          { system with
            conn := { system.conn with requests := rest }
            compositor := system.compositor.process request }
  | .foreign => { system with compositor := system.compositor.foreign }
  | .advertise name interface version =>
      { system with compositor := system.compositor.advertise name interface version }
  | .withdraw name => { system with compositor := system.compositor.withdraw name }

def run (system : System) (actions : List Action) : System :=
  actions.foldl (step sha3) system

end

def settled (system : System) : Compositor :=
  system.conn.requests.foldl Compositor.process system.compositor

end System

def Event.origin? : Event → Option Origin
  | .selection origin => some origin
  | _ => none

def System.echoes (system : System) : Nat :=
  (system.settled.events.filterMap Event.origin?).count .own

def System.Matched (system : System) : Prop :=
  system.state.providerLocks.toNat = system.echoes ∧
    ∀ entry ∈ system.handled, entry.2 = if entry.1 = .own then .echo else .foreign

-- A record is only restored when its selection will be echoed, and no foreign one is on its way.
-- While an echo is outstanding with the compositor, no client sets the selection and the seat stays.
def System.Heeds (system : System) : Action → Prop
  | .restore located _ id =>
      located.location id ≠ none → system.state.manager ≠ none →
        (∃ device, system.state.device = some device ∧ system.settled.Live device) ∧
          .selection .foreign ∉ system.compositor.events ∧
          system.state.providerLocks.toNat + 1 < 2 ^ 32
  | .foreign =>
      system.compositor.devices ≠ [] →
        ∀ device source, .setSelection device source ∈ system.conn.requests →
          ¬ system.settled.Live device
  | .withdraw name =>
      (∃ entry ∈ system.compositor.globals, entry.1 = name) →
        ∀ device source, .setSelection device source ∈ system.conn.requests →
          (device, name) ∉ system.settled.devices
  | _ => True

inductive System.Reachable (sha3 : Bytes → Bytes) : System → Prop where
  | start : Reachable sha3 .initial
  | step {system : System} {action : Action} (reachable : Reachable sha3 system)
      (heeds : system.Heeds action) : Reachable sha3 (system.step sha3 action)

namespace Compositor

structure Spares (gone : UInt32 → Prop) (before after : Compositor) : Prop where
  globals : ∀ entry ∈ before.globals, ¬ gone entry.1 → entry ∈ after.globals
  seats : ∀ entry ∈ before.seats, ¬ gone entry.2 → entry ∈ after.seats
  devices : ∀ entry ∈ before.devices, ¬ gone entry.2 → entry ∈ after.devices

@[simp] theorem process_globals (compositor : Compositor) (request : Request) :
    (compositor.process request).globals = compositor.globals := by
  cases request with
  | bind name interface version object =>
      simp only [process]
      split <;> rfl
  | setSelection device source =>
      simp only [process]
      split <;> rfl
  | _ => rfl

theorem mem_process_seats (compositor : Compositor) (request : Request)
    (entry : ObjectId × UInt32) :
    entry ∈ (compositor.process request).seats ↔
      entry ∈ compositor.seats ∨ ∃ interface version,
        request = .bind entry.2 interface version entry.1 ∧ interface = interfaceSeat ∧
          (entry.2, interface) ∈ compositor.globals := by
  cases request with
  | bind name interface version object =>
      simp only [process]
      by_cases named : interface = interfaceSeat ∧ (name, interface) ∈ compositor.globals
      · rw [if_pos named, List.mem_append, List.mem_singleton]
        refine or_congr_right ⟨?_, ?_⟩
        · rintro rfl
          exact ⟨interface, version, rfl, named⟩
        · rintro ⟨_, _, same, _⟩
          cases same
          rfl
      · rw [if_neg named]
        refine ⟨.inl, fun either => either.elim id ?_⟩
        rintro ⟨_, _, same, bound⟩
        cases same
        exact absurd bound named
  | setSelection device source =>
      simp only [process]
      split <;> simp [Compositor.send]
  | _ => simp [process]

theorem mem_process_devices (compositor : Compositor) (request : Request)
    (entry : ObjectId × UInt32) :
    entry ∈ (compositor.process request).devices ↔
      entry ∈ compositor.devices ∨ ∃ seat,
        request = .getDataDevice seat entry.1 ∧ (seat, entry.2) ∈ compositor.seats := by
  cases request with
  | getDataDevice seat device =>
      simp only [process, List.mem_append, List.mem_map, List.mem_filter, decide_eq_true_eq]
      refine or_congr_right ⟨?_, ?_⟩
      · rintro ⟨named, ⟨known, rfl⟩, rfl⟩
        exact ⟨named.1, rfl, known⟩
      · rintro ⟨other, same, known⟩
        cases same
        exact ⟨(seat, entry.2), ⟨known, rfl⟩, rfl⟩
  | bind name interface version object =>
      simp only [process]
      split <;> simp
  | setSelection device source =>
      simp only [process]
      split <;> simp [Compositor.send]
  | _ => simp [process]

theorem process_spares {gone : UInt32 → Prop} {before after : Compositor}
    (spares : Spares gone before after) (request : Request) :
    Spares gone (before.process request) (after.process request) := by
  refine ⟨?_, ?_, ?_⟩
  · rw [process_globals, process_globals]
    exact spares.globals
  · intro entry member kept
    rw [mem_process_seats] at member ⊢
    rcases member with earlier | ⟨interface, version, bind, seat, advertised⟩
    · exact .inl (spares.seats entry earlier kept)
    · exact .inr ⟨interface, version, bind, seat, spares.globals _ advertised kept⟩
  · intro entry member kept
    rw [mem_process_devices] at member ⊢
    rcases member with earlier | ⟨seat, created, known⟩
    · exact .inl (spares.devices entry earlier kept)
    · exact .inr ⟨seat, created, spares.seats _ known kept⟩

theorem foldl_grows (compositor : Compositor) (requests : List Request) (entry : ObjectId × UInt32)
    (member : entry ∈ compositor.devices) :
    entry ∈ (requests.foldl process compositor).devices := by
  induction requests generalizing compositor with
  | nil => exact member
  | cons request rest ih =>
      exact ih _ ((mem_process_devices compositor request entry).mpr (.inl member))

def Heard : Compositor → List Request → Prop
  | _, [] => True
  | compositor, request :: rest =>
      (∀ device source, request = .setSelection device source → compositor.Live device) ∧
        Heard (compositor.process request) rest

theorem heard_append (compositor : Compositor) (earlier later : List Request) :
    Heard compositor (earlier ++ later) ↔
      Heard compositor earlier ∧ Heard (earlier.foldl process compositor) later := by
  induction earlier generalizing compositor with
  | nil => simp [Heard]
  | cons request rest ih =>
      rw [List.cons_append, Heard, Heard, List.foldl_cons, ih, and_assoc]

theorem heard_quiet (compositor : Compositor) {requests : List Request}
    (quiet : ∀ request ∈ requests, request.Quiet) : Heard compositor requests := by
  induction requests generalizing compositor with
  | nil => trivial
  | cons request rest ih =>
      refine ⟨fun device source same => ?_, ih _ fun other later => quiet other (.tail _ later)⟩
      exact absurd same (quiet request (.head _) device source)

theorem heard_live {compositor : Compositor} {requests : List Request}
    (heard : Heard compositor requests) {device source : ObjectId}
    (member : .setSelection device source ∈ requests) :
    (requests.foldl process compositor).Live device := by
  induction requests generalizing compositor with
  | nil => cases member
  | cons request rest ih =>
      rcases List.mem_cons.mp member with same | later
      · obtain ⟨entry, known, named⟩ := heard.1 device source same.symm
        exact ⟨entry, foldl_grows compositor (request :: rest) entry known, named⟩
      · exact ih heard.2 later

theorem heard_spares {gone : UInt32 → Prop} {before after : Compositor} {requests : List Request}
    (heard : Heard before requests) (spares : Spares gone before after)
    (kept : ∀ device source, .setSelection device source ∈ requests → ∀ name,
      (device, name) ∈ (requests.foldl process before).devices → ¬ gone name) :
    Heard after requests := by
  induction requests generalizing before after with
  | nil => trivial
  | cons request rest ih =>
      refine ⟨fun device source same => ?_, ?_⟩
      · obtain ⟨⟨other, name⟩, member, rfl⟩ := heard.1 device source same
        have spared : ¬ gone name := by
          refine kept other source (by rw [same]; exact .head _) name ?_
          exact foldl_grows before (request :: rest) (other, name) member
        exact ⟨(other, name), spares.devices _ member spared, rfl⟩
      · refine ih heard.2 (process_spares spares request) fun device source later => ?_
        exact kept device source (.tail _ later)

/-- It does not matter which events await the client. -/
theorem heard_events {compositor : Compositor} {requests : List Request}
    (heard : Heard compositor requests) (events : List Event) :
    Heard { compositor with events := events } requests := by
  have same : Spares (fun _ => False) compositor { compositor with events := events } :=
    ⟨fun _ member _ => member, fun _ member _ => member, fun _ member _ => member⟩
  exact heard_spares heard same fun _ _ _ _ _ => not_false

end Compositor

def Event.tag : Event → Option Bool
  | .selection origin => some (decide (origin = .own))
  | _ => none

def Request.selects : Request → Bool
  | .setSelection .. => true
  | _ => false

theorem Request.selects_quiet {request : Request} (quiet : request.Quiet) :
    request.selects = false := by
  cases request with
  | setSelection device source => exact absurd rfl (quiet device source)
  | _ => rfl

theorem countP_quiet {requests : List Request} (quiet : ∀ request ∈ requests, request.Quiet) :
    requests.countP Request.selects = 0 := by
  rw [List.countP_eq_zero]
  intro request member
  rw [Request.selects_quiet (quiet request member)]
  decide

namespace Compositor

theorem process_tags {compositor : Compositor} {request : Request}
    (heard : ∀ device source, request = .setSelection device source → compositor.Live device) :
    (compositor.process request).events.filterMap Event.tag =
      compositor.events.filterMap Event.tag ++
        List.replicate (if request.selects then 1 else 0) true := by
  cases request with
  | setSelection device source =>
      have live := heard device source rfl
      simp [process, live, Compositor.send, Event.tag, Request.selects]
  | bind name interface version object =>
      simp only [process]
      split <;> simp [Request.selects]
  | _ => simp [process, Request.selects]

theorem settled_tags {compositor : Compositor} {requests : List Request}
    (heard : Heard compositor requests) :
    (requests.foldl process compositor).events.filterMap Event.tag =
      compositor.events.filterMap Event.tag ++
        List.replicate (requests.countP Request.selects) true := by
  induction requests generalizing compositor with
  | nil => simp
  | cons request rest ih =>
      rw [List.foldl_cons, ih heard.2, process_tags heard.1, List.append_assoc,
        List.replicate_append_replicate, List.countP_cons, Nat.add_comm]

end Compositor

theorem count_own (events : List Event) :
    (events.filterMap Event.origin?).count .own = (events.filterMap Event.tag).count true := by
  induction events with
  | nil => rfl
  | cons event rest ih =>
      cases event with
      | selection origin =>
          cases origin <;> simp [Event.origin?, Event.tag, ih]
      | global name interface version => exact ih
      | globalRemove name => exact ih

structure Quietly (before after : WaylandState × Connection) : Prop where
  sent : ∃ requests, after.2.requests = before.2.requests ++ requests ∧
    ∀ request ∈ requests, request.Quiet
  locks : after.1.providerLocks = before.1.providerLocks
  paused : after.1.paused = before.1.paused

theorem Quietly.refl (state : WaylandState × Connection) : Quietly state state :=
  ⟨⟨[], by simp, nofun⟩, rfl, rfl⟩

theorem Quietly.trans {first second third : WaylandState × Connection}
    (earlier : Quietly first second) (later : Quietly second third) : Quietly first third := by
  obtain ⟨some, sentSome, quietSome⟩ := earlier.sent
  obtain ⟨more, sentMore, quietMore⟩ := later.sent
  refine ⟨⟨some ++ more, ?_, ?_⟩, later.locks.trans earlier.locks,
    later.paused.trans earlier.paused⟩
  · rw [sentMore, sentSome, List.append_assoc]
  · intro request member
    rcases List.mem_append.mp member with first | second
    · exact quietSome request first
    · exact quietMore request second

/-- Creating an object and recording it. -/
theorem Quietly.create (before : WaylandState × Connection) (after : WaylandState)
    (request : ObjectId → Request) (quiet : (request before.2.next).Quiet)
    (locks : after.providerLocks = before.1.providerLocks)
    (paused : after.paused = before.1.paused) :
    Quietly before (after, (before.2.create request).2) := by
  refine ⟨⟨[request before.2.next], rfl, fun other member => ?_⟩, locks, paused⟩
  rw [List.mem_singleton.mp member]
  exact quiet

theorem bindDataDevice_quietly (state : WaylandState) (conn : Connection) :
    Quietly (state, conn) (bindDataDevice state conn).2 := by
  unfold bindDataDevice
  split
  · exact .refl _
  · split
    · rename_i seat _ _
      exact .create (state, conn) _ (.getDataDevice seat) nofun rfl rfl
    · exact .refl _

theorem bindManager_quietly (state : WaylandState) (conn : Connection) (name : UInt32)
    (interface : Str) (version : UInt32) :
    Quietly (state, conn) (state.bindManager conn name interface version) := by
  unfold WaylandState.bindManager
  split
  · exact .create (state, conn) _ (.bind name interfaceManager 1) nofun rfl rfl
  · exact .refl _

theorem bindSeat_quietly (state : WaylandState) (conn : Connection) (name : UInt32)
    (interface : Str) (version : UInt32) :
    Quietly (state, conn) (state.bindSeat conn name interface version) := by
  unfold WaylandState.bindSeat
  split
  · exact .create (state, conn) _ (.bind name interfaceSeat (min version 7)) nofun rfl rfl
  · exact .refl _

theorem registryGlobal_quietly (state : WaylandState) (conn : Connection) (name : UInt32)
    (interface : Str) (version : UInt32) :
    Quietly (state, conn) (state.registryGlobal conn name interface version) :=
  (bindManager_quietly state conn name interface version).trans
    (bindSeat_quietly _ _ name interface version)

theorem registryGlobalRemove_quietly (state : WaylandState) (conn : Connection) (name : UInt32) :
    Quietly (state, conn) (state.registryGlobalRemove name, conn) := by
  refine ⟨(Quietly.refl (state, conn)).sent, ?_, ?_⟩
  · unfold WaylandState.registryGlobalRemove
    dsimp only
    split <;> split <;> rfl
  · unfold WaylandState.registryGlobalRemove
    dsimp only
    split <;> split <;> rfl

structure System.Echoing (system : System) : Prop where
  aligned : Credits.Aligned system.state.providerLocks.toNat
    (system.compositor.events.filterMap Event.tag ++
      List.replicate (system.conn.requests.countP Request.selects) true)
  heard : system.compositor.Heard system.conn.requests
  awake : system.state.paused = false
  handled : ∀ entry ∈ system.handled, entry.2 = if entry.1 = .own then .echo else .foreign

namespace System.Echoing

theorem matched {system : System} (echoing : system.Echoing) : system.Matched := by
  refine ⟨?_, echoing.handled⟩
  rw [System.echoes, count_own, System.settled, Compositor.settled_tags echoing.heard]
  exact echoing.aligned.count.symm

theorem initial : System.initial.Echoing where
  aligned := Credits.aligned_nil
  heard := trivial
  awake := rfl
  handled := nofun

/-- Sending requests that select nothing changes no echo. -/
theorem quiet {system : System} (echoing : system.Echoing) {after : WaylandState × Connection}
    (quietly : Quietly (system.state, system.conn) after) :
    ({ system with state := after.1, conn := after.2 } : System).Echoing := by
  obtain ⟨requests, sent, quiet⟩ := quietly.sent
  refine ⟨?_, ?_, quietly.paused.trans echoing.awake, echoing.handled⟩
  · change Credits.Aligned after.1.providerLocks.toNat
      (_ ++ List.replicate (after.2.requests.countP Request.selects) true)
    rw [quietly.locks, sent, List.countP_append, countP_quiet quiet, Nat.add_zero]
    exact echoing.aligned
  · change Compositor.Heard _ after.2.requests
    rw [sent, Compositor.heard_append]
    exact ⟨echoing.heard, Compositor.heard_quiet _ quiet⟩

/-- The compositor announces something that is no selection, sparing every device with requests.
-/
theorem announced {system : System} (echoing : system.Echoing) {compositor : Compositor}
    (gone : UInt32 → Prop) (spares : Compositor.Spares gone system.compositor compositor)
    (tags : compositor.events.filterMap Event.tag =
      system.compositor.events.filterMap Event.tag)
    (kept : ∀ device source, .setSelection device source ∈ system.conn.requests → ∀ name,
      (device, name) ∈ system.settled.devices → ¬ gone name) :
    ({ system with compositor := compositor } : System).Echoing where
  aligned := by
    change Credits.Aligned _ (compositor.events.filterMap Event.tag ++ _)
    rw [tags]
    exact echoing.aligned
  heard := Compositor.heard_spares echoing.heard spares kept
  awake := echoing.awake
  handled := echoing.handled

end System.Echoing

namespace System.Echoing

theorem process {system : System} (echoing : system.Echoing) (sha3 : Bytes → Bytes) :
    (system.step sha3 .process).Echoing := by
  unfold System.step
  cases pending : system.conn.requests with
  | nil => simpa only [pending] using echoing
  | cons request rest =>
      have heard := echoing.heard
      have aligned := echoing.aligned
      rw [pending] at heard aligned
      refine ⟨?_, heard.2, echoing.awake, echoing.handled⟩
      change Credits.Aligned _ ((system.compositor.process request).events.filterMap Event.tag ++
        List.replicate (rest.countP Request.selects) true)
      rw [Compositor.process_tags heard.1, List.append_assoc, List.replicate_append_replicate]
      rw [List.countP_cons, Nat.add_comm] at aligned
      exact aligned

theorem deliver {system : System} {event : Event} {rest : List Event} (echoing : system.Echoing)
    (arrives : system.compositor.events = event :: rest) :
    (({ system with compositor := { system.compositor with events := rest } } : System).deliver
      event).Echoing := by
  have aligned := echoing.aligned
  rw [arrives] at aligned
  have heard := Compositor.heard_events echoing.heard rest
  cases event with
  | global name interface version =>
      have popped : ({ system with
          compositor := { system.compositor with events := rest } } : System).Echoing :=
        ⟨aligned, heard, echoing.awake, echoing.handled⟩
      exact popped.quiet (registryGlobal_quietly system.state system.conn name interface version)
  | globalRemove name =>
      have popped : ({ system with
          compositor := { system.compositor with events := rest } } : System).Echoing :=
        ⟨aligned, heard, echoing.awake, echoing.handled⟩
      exact popped.quiet (registryGlobalRemove_quietly system.state system.conn name)
  | selection origin =>
      obtain ⟨mine, remaining⟩ := aligned.head
      rw [decide_eq_true_eq] at mine
      by_cases locked : 0 < system.state.providerLocks
      · have positive : 0 < system.state.providerLocks.toNat := UInt32.lt_iff_toNat_lt.mp locked
        have taken : system.state.selection =
            ({ system.state with
              selectionReceived := true
              providerLocks := system.state.providerLocks - 1 }, .echo) := by
          simp only [WaylandState.selection, if_pos locked]
        have lowered : (system.state.providerLocks - 1).toNat =
            system.state.providerLocks.toNat - 1 := by
          have one : (1 : UInt32) ≤ system.state.providerLocks :=
            UInt32.le_iff_toNat_le.mpr positive
          exact UInt32.toNat_sub_of_le _ _ one
        refine ⟨?_, heard, ?_, ?_⟩
        · simp only [System.deliver, taken, lowered]
          exact remaining
        · simp only [System.deliver, taken]
          exact echoing.awake
        · intro entry member
          simp only [System.deliver, taken, List.mem_append, List.mem_singleton] at member
          rcases member with earlier | rfl
          · exact echoing.handled entry earlier
          · rw [if_pos (mine.mpr positive)]
      · have zero : system.state.providerLocks.toNat = 0 := by
          have bound : ¬ 0 < system.state.providerLocks.toNat := fun positive =>
            locked (UInt32.lt_iff_toNat_lt.mpr positive)
          omega
        have taken : system.state.selection =
            ({ system.state with selectionReceived := true }, .foreign) := by
          simp only [WaylandState.selection, if_neg locked, echoing.awake, Bool.false_eq_true,
            if_false]
        rw [zero] at mine remaining
        refine ⟨?_, heard, ?_, ?_⟩
        · simp only [System.deliver, taken, zero]
          exact remaining
        · simp only [System.deliver, taken]
          exact echoing.awake
        · intro entry member
          simp only [System.deliver, taken, List.mem_append, List.mem_singleton] at member
          rcases member with earlier | rfl
          · exact echoing.handled entry earlier
          · rw [if_neg fun own => absurd (mine.mp own) (lt_irrefl 0)]

theorem restore {system : System} (echoing : system.Echoing) (sha3 : Bytes → Bytes)
    (located served : World) (id : Int) (heeds : system.Heeds (.restore located served id)) :
    (system.step sha3 (.restore located served id)).Echoing := by
  unfold System.step
  dsimp only
  cases found : located.location id with
  | none =>
      rw [restoreAcross_unlocated found]
      exact echoing
  | some place =>
      obtain ⟨mime, location⟩ := place
      cases manages : system.state.manager with
      | none =>
          rw [restoreAcross_unmanaged manages]
          exact echoing
      | some manager =>
          obtain ⟨⟨device, bound, live⟩, clear, room⟩ :=
            heeds (by simp [found]) (by simp [manages])
          rw [restoreAcross_located manages found]
          generalize location.served served = payload
          obtain ⟨messages, quiet, _, sent⟩ := publish_selects
            (show ({ system.state with providerLocks := system.state.providerLocks + 1 } :
              WaylandState).device = some device from bound) system.conn mime payload
          have raised : (system.state.providerLocks + 1).toNat =
              system.state.providerLocks.toNat + 1 := by
            rw [UInt32.toNat_add]
            exact Nat.mod_eq_of_lt room
          refine ⟨?_, ?_, echoing.awake, echoing.handled⟩
          · have one : List.countP Request.selects [.setSelection device system.conn.next] = 1 := rfl
            change Credits.Aligned (system.state.providerLocks + 1).toNat
              (_ ++ List.replicate (List.countP Request.selects (publish _ _ mime payload).2.requests)
                true)
            rw [sent, raised, List.countP_append, List.countP_append, countP_quiet quiet, one,
              Nat.zero_add, List.replicate_succ', ← List.append_assoc]
            refine echoing.aligned.own ?_
            simp only [List.mem_append, List.mem_filterMap, List.mem_replicate, Bool.false_eq_true,
              and_false, or_false, not_exists, not_and]
            intro event member tagged
            cases event with
            | selection origin =>
                cases origin with
                | own => simp [Event.tag] at tagged
                | foreign => exact clear member
            | global name interface version => cases tagged
            | globalRemove name => cases tagged
          · change Compositor.Heard _ (publish _ _ mime payload).2.requests
            rw [sent, Compositor.heard_append, Compositor.heard_append]
            refine ⟨echoing.heard, Compositor.heard_quiet _ quiet, ?_, trivial⟩
            intro target source same
            cases same
            obtain ⟨entry, member, named⟩ := live
            exact ⟨entry, Compositor.foldl_grows _ _ entry member, named⟩

theorem foreign {system : System} (echoing : system.Echoing) (sha3 : Bytes → Bytes)
    (heeds : system.Heeds .foreign) : (system.step sha3 .foreign).Echoing := by
  unfold System.step Compositor.foreign
  dsimp only
  by_cases deaf : system.compositor.devices = []
  · simp only [if_pos deaf]
    exact echoing
  · simp only [if_neg deaf]
    have none : system.conn.requests.countP Request.selects = 0 := by
      rw [List.countP_eq_zero]
      intro request member selects
      cases request with
      | setSelection device source =>
          exact heeds deaf device source member (Compositor.heard_live echoing.heard member)
      | _ => cases selects
    refine ⟨?_, Compositor.heard_events echoing.heard _, echoing.awake, echoing.handled⟩
    have aligned := echoing.aligned
    rw [none, List.replicate_zero, List.append_nil] at aligned
    change Credits.Aligned _ ((system.compositor.events ++ [_]).filterMap Event.tag ++
      List.replicate (system.conn.requests.countP Request.selects) true)
    rw [none, List.replicate_zero, List.append_nil, List.filterMap_append]
    exact aligned.other

theorem advertise {system : System} (echoing : system.Echoing) (sha3 : Bytes → Bytes)
    (name : UInt32) (interface : Str) (version : UInt32) :
    (system.step sha3 (.advertise name interface version)).Echoing := by
  unfold System.step Compositor.advertise
  dsimp only
  split
  · exact echoing
  · refine echoing.announced (fun _ => False) ⟨?_, ?_, ?_⟩ ?_ ?_
    · exact fun entry member _ => List.mem_append_left _ member
    · exact fun entry member _ => member
    · exact fun entry member _ => member
    · simp [Compositor.send, Event.tag]
    · exact fun _ _ _ _ _ => not_false

theorem withdraw {system : System} (echoing : system.Echoing) (sha3 : Bytes → Bytes)
    (name : UInt32) (heeds : system.Heeds (.withdraw name)) :
    (system.step sha3 (.withdraw name)).Echoing := by
  unfold System.step Compositor.withdraw
  dsimp only
  split
  · rename_i known
    refine echoing.announced (fun other => other = name) ⟨?_, ?_, ?_⟩ ?_ ?_
    · intro entry member kept
      simpa [Compositor.send] using ⟨member, kept⟩
    · intro entry member kept
      simpa [Compositor.send] using ⟨member, kept⟩
    · intro entry member kept
      simpa [Compositor.send] using ⟨member, kept⟩
    · simp [Compositor.send, Event.tag]
    · rintro device source pending other member rfl
      exact heeds known device source pending member
  · exact echoing

theorem step {system : System} (echoing : system.Echoing) (sha3 : Bytes → Bytes) {action : Action}
    (heeds : system.Heeds action) : (system.step sha3 action).Echoing := by
  cases action with
  | restore located served id => exact echoing.restore sha3 located served id heeds
  | bindDevice => exact echoing.quiet (bindDataDevice_quietly system.state system.conn)
  | dispatch =>
      unfold System.step
      cases arrives : system.compositor.events with
      | nil => exact echoing
      | cons event rest => exact echoing.deliver arrives
  | process => exact echoing.process sha3
  | foreign => exact echoing.foreign sha3 heeds
  | advertise name interface version => exact echoing.advertise sha3 name interface version
  | withdraw name => exact echoing.withdraw sha3 name heeds

end System.Echoing

theorem System.Reachable.echoing {sha3 : Bytes → Bytes} {system : System}
    (reachable : System.Reachable sha3 system) : system.Echoing := by
  induction reachable with
  | start => exact .initial
  | step _ heeds echoing => exact echoing.step sha3 heeds

/-- In every run whose steps heed the conditions, the counter is the number of the daemon's own
echoes still to come, and every selection event was taken for what it was. -/
theorem selections_matched (sha3 : Bytes → Bytes) (system : System)
    (reachable : System.Reachable sha3 system) : system.Matched :=
  reachable.echoing.matched

def System.HeedsAll (sha3 : Bytes → Bytes) : System → List Action → Prop
  | _, [] => True
  | system, action :: rest =>
      system.Heeds action ∧ System.HeedsAll sha3 (system.step sha3 action) rest

theorem System.Reachable.run {sha3 : Bytes → Bytes} {system : System} {actions : List Action}
    (reachable : System.Reachable sha3 system) (heeds : system.HeedsAll sha3 actions) :
    System.Reachable sha3 (system.run sha3 actions) := by
  induction actions generalizing system with
  | nil => exact reachable
  | cons action rest ih => exact ih (reachable.step heeds.1) heeds.2

-- The manager is the global 1, the seat the global 2; the device is the object 2.
def startActions : List Action :=
  [.advertise 1 interfaceManager 1, .advertise 2 interfaceSeat 7, .dispatch, .dispatch,
    .bindDevice, .process, .process, .process]

def sampleRestore : Action :=
  .restore (sampleHistory "image/png".toList (.blob sampleImage) false)
    (sampleHistory "image/png".toList (.blob sampleImage) false) 1

/-- One echo, then another client's selection. -/
theorem selections_matched_sample :
    (System.initial.run sampleSha3 (startActions ++ [sampleRestore, .process, .process, .process,
      .dispatch, .foreign, .dispatch])).Matched ∧
    (System.initial.run sampleSha3 (startActions ++ [sampleRestore, .process, .process, .process,
      .dispatch, .foreign, .dispatch])).handled = [(.own, .echo), (.foreign, .foreign)] := by
  refine ⟨selections_matched sampleSha3 _ (System.Reachable.start.run ?_), rfl⟩
  refine ⟨trivial, trivial, trivial, trivial, trivial, trivial, trivial, trivial,
    fun _ _ => ⟨⟨2, rfl, (2, 2), .head _, rfl⟩, nofun, by decide⟩, trivial, trivial, trivial,
    trivial, fun _ _ _ => nofun, trivial, trivial⟩

/-- A restore while no device is bound, a seat lost before the selection was set, and a foreign
selection already on its way. -/
theorem selections_matched_counterexample :
    (¬ ∀ actions, (System.initial.run sampleSha3 actions).Matched) ∧
    (System.initial.run sampleSha3 (startActions ++ [.withdraw 2, .dispatch, sampleRestore,
      .advertise 3 interfaceSeat 7, .dispatch, .bindDevice, .process, .process, .process,
      .process, .foreign, .dispatch])).handled = [(.foreign, .echo)] ∧
    (System.initial.run sampleSha3 (startActions ++ [sampleRestore, .withdraw 2, .dispatch,
      .process, .process, .process, .advertise 3 interfaceSeat 7, .dispatch, .bindDevice,
      .process, .process, .foreign, .dispatch])).handled = [(.foreign, .echo)] ∧
    (System.initial.run sampleSha3 (startActions ++ [.foreign, sampleRestore, .dispatch, .process,
      .process, .process, .dispatch])).handled = [(.foreign, .echo), (.own, .foreign)] := by
  refine ⟨fun all => ?_, rfl, rfl, rfl⟩
  have treated := (all (startActions ++ [.foreign, sampleRestore, .dispatch])).2
    (.foreign, .echo) (.head _)
  cases treated

end Y4p
