import Y4p.Cli.Render
import Y4p.Daemon.Ipc
import Y4p.Daemon.Restore
import Y4p.Wayland.Selection

/-!
The daemon's event loop (`start_daemon` of `crates/daemon/src/lib.rs`), its status line
(`crates/daemon/src/metrics.rs`) and what it asks of its surroundings.
-/

namespace Y4p

open Programs

-- The `revents` that the loop looks at.
structure Ready where
  readable : Bool
  hungUp : Bool
  listener : Bool

-- `WaylandError`: the kinds of an I/O error, or a protocol error.
inductive ReadFailure where
  | wouldBlock
  | interrupted
  | otherIo
  | protocol

def readFailureIsFatal : ReadFailure → Bool
  | .wouldBlock | .interrupted => false
  | .otherIo | .protocol => true

structure Status where
  uptimeMs : Int
  ingress : UInt64
  egress : UInt64
  paused : Bool
  lastEventMsAgo : Int
  shedReaders : UInt64
  shedQueue : UInt64

def Status.text (status : Status) : Str :=
  "uptime_ms=".toList ++ intText status.uptimeMs ++
    " ingress=".toList ++ Nat.toDigits 10 status.ingress.toNat ++
    " egress=".toList ++ Nat.toDigits 10 status.egress.toNat ++
    " paused=".toList ++ (if status.paused then "true" else "false").toList ++
    " last_event_ms_ago=".toList ++ intText status.lastEventMsAgo ++
    " shed_readers=".toList ++ Nat.toDigits 10 status.shedReaders.toNat ++
    " shed_queue=".toList ++ Nat.toDigits 10 status.shedQueue.toNat ++ "\n".toList

inductive LoopCall where
  | sensor (call : SensorCall)
  | dispatch (sensor : Sensor) (event : WaylandEvent)
  | roundtrip
  | pending
  | isExiting
  | poll
  | accept
  | now
  | lastEventAtMs
  | ingressCount
  | egressCount
  | shedReaders
  | shedQueue
  | reply (status : Status)
  | requestExit
  | restore (state : WaylandState) (conn : Connection) (realId : Int)
  | prepareRead
  | read

-- `dispatch` is the library calling the handler; `roundtrip` also says whether it succeeded.
def LoopCall.Answer : LoopCall → Type
  | .sensor call => call.Answer
  | .dispatch .. | .reply _ | .requestExit => Unit
  | .roundtrip => List WaylandEvent × Bool
  | .pending => List WaylandEvent
  | .isExiting | .prepareRead => Bool
  | .poll => Option Ready
  | .accept => Option (List Fill)
  | .now | .lastEventAtMs => Int
  | .ingressCount | .egressCount | .shedReaders | .shedQueue => UInt64
  | .restore .. => WaylandState × Connection
  | .read => Except ReadFailure Unit

abbrev LoopProgram (α : Type) : Type := Program LoopCall LoopCall.Answer α

def sensing {α : Type} (program : SensorProgram α) : LoopProgram α :=
  Program.lift LoopCall.sensor (fun _ answer => answer) program

inductive Course where
  | failed
  | serving (sensor : Sensor)
  | ended

def msAgo (last : Int) : LoopProgram Int :=
  if last = 0 then pure (-1)
  else do
    let now : Int ← Program.ask LoopCall.now
    pure (now - last)

def formatStatus (startedAtMs : Int) (paused : Bool) (shedReaders shedQueue : UInt64) :
    LoopProgram Status := do
  let last : Int ← Program.ask LoopCall.lastEventAtMs
  let now : Int ← Program.ask LoopCall.now
  let ingress : UInt64 ← Program.ask LoopCall.ingressCount
  let egress : UInt64 ← Program.ask LoopCall.egressCount
  let ago ← msAgo last
  pure ⟨now - startedAtMs, ingress, egress, paused, ago, shedReaders, shedQueue⟩

namespace Sensor

def serveCommand (startedAtMs : Int) (sensor : Sensor) : LoopProgram Sensor := do
  let accepted : Option (List Fill) ← Program.ask LoopCall.accept
  match (acceptAndDispatch accepted []).1 with
  | none => pure sensor
  | some .exit => do
      let _ ← Program.ask LoopCall.requestExit
      pure sensor
  | some (.restore realId) => do
      let restored : WaylandState × Connection ←
        Program.ask (LoopCall.restore sensor.state sensor.conn realId.value)
      pure { sensor with state := restored.1, conn := restored.2 }
  | some .status => do
      let shedReaders : UInt64 ← Program.ask LoopCall.shedReaders
      let shedQueue : UInt64 ← Program.ask LoopCall.shedQueue
      let status ← formatStatus startedAtMs sensor.state.paused shedReaders shedQueue
      let _ ← Program.ask (LoopCall.reply status)
      pure sensor
  | some .pause => pure { sensor with state := { sensor.state with paused := true } }
  | some .resume => pure { sensor with state := { sensor.state with paused := false } }

def dispatchPending (percentDecode : Bytes → Bytes) :
    List WaylandEvent → Sensor → LoopProgram Sensor
  | [], sensor => pure sensor
  | event :: rest, sensor => do
      let _ ← Program.ask (LoopCall.dispatch sensor event)
      let sensor ← sensing (sensor.handle percentDecode event)
      dispatchPending percentDecode rest sensor

def rebind (sensor : Sensor) : Sensor :=
  let (_, state, conn) := bindDataDevice sensor.state sensor.conn
  { sensor with state := state, conn := conn }

def readCompositorEvents (sensor : Sensor) : LoopProgram (Option Sensor) := do
  let guarded : Bool ← Program.ask LoopCall.prepareRead
  if guarded then do
    let result : Except ReadFailure Unit ← Program.ask LoopCall.read
    match result with
    | .ok _ => pure (some sensor)
    | .error failure => if readFailureIsFatal failure then pure none else pure (some sensor)
  else pure (some sensor)

variable (percentDecode : Bytes → Bytes) (startedAtMs : Int)

def turn (sensor : Sensor) : LoopProgram (Option Sensor) := do
  let exiting : Bool ← Program.ask LoopCall.isExiting
  if exiting then pure none
  else do
    let events : List WaylandEvent ← Program.ask LoopCall.pending
    let sensor ← dispatchPending percentDecode events sensor
    let sensor := sensor.rebind
    let polled : Option Ready ← Program.ask LoopCall.poll
    match polled with
    | none => pure (some sensor)
    | some ready => do
        let sensor ← if ready.listener then sensor.serveCommand startedAtMs else pure sensor
        if ready.hungUp then pure none
        else if ready.readable then sensor.readCompositorEvents
        else pure (some sensor)

def serve : Nat → Sensor → LoopProgram Course
  | 0, sensor => pure (.serving sensor)
  | turns + 1, sensor => do
      let next ← sensor.turn percentDecode startedAtMs
      match next with
      | none => pure .ended
      | some sensor => serve turns sensor

def newDaemon (config : Config) : Sensor where
  state := .newDaemon
  conn := { next := 0, requests := [] }
  offers := []
  jobTx := true
  targetMime := none
  rxBuf := []
  config := config

-- From the first round trip on, for at most so many turns.
def startDaemon (config : Config) (turns : Nat) : LoopProgram Course := do
  let answered : List WaylandEvent × Bool ← Program.ask LoopCall.roundtrip
  let sensor ← dispatchPending percentDecode answered.1 (newDaemon config)
  if answered.2 && (bindDataDevice sensor.state sensor.conn).1 then
    serve percentDecode startedAtMs turns sensor.rebind
  else pure .failed

end Sensor

end Y4p
