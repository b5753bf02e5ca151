import Y4p.Cli.Store
import Y4p.Core.Config
import Y4p.Wayland.Ingestion
import Y4p.Wayland.Selecting

/-!
The handlers of what the compositor sends (`crates/wayland/src/handlers`), with the calls of a
selection to the gate, the pipe and the reader thread.
-/

namespace Y4p

open Programs

-- What the library calls a handler with. An offer's MIMEs come one by one.
inductive WaylandEvent where
  | global (name : UInt32) (interface : Str) (version : UInt32)
  | globalRemove (name : UInt32)
  | dataOffer (offer : ObjectId)
  | offer (offer : ObjectId) (mimeType : Str)
  | selection (id : Option ObjectId)

-- `offers` holds each offer's `OfferData`; `jobTx` is there in daemon mode.
structure Sensor where
  state : WaylandState
  conn : Connection
  offers : List (ObjectId × List Str)
  jobTx : Bool
  targetMime : Option Str
  rxBuf : Bytes
  config : Config

inductive SensorCall where
  | tryAcquire
  | dropPermit
  | recordShedReader
  | eprintln (text : Str)
  | makePipe
  | receive (mime : Str)
  | spawn (mime : Str)
  | readPipe

-- A permit that is refused, a pipe or a thread that cannot be made, answer `false`.
def SensorCall.Answer : SensorCall → Type
  | .tryAcquire | .makePipe | .spawn _ => Bool
  | .recordShedReader => UInt64
  | .readPipe => Reader
  | .dropPermit | .eprintln _ | .receive _ => Unit

abbrev SensorProgram (α : Type) : Type := Program SensorCall SensorCall.Answer α

-- `u64::is_power_of_two`.
def shouldReport (total : UInt64) : Bool :=
  (List.range 64).any fun k => total.toNat = 2 ^ k

def logIngestShed (reason : Str) (total : UInt64) : Str :=
  "warn: ingestion overloaded (".toList ++ reason ++
    "); clipboard payload dropped (total shed: ".toList ++ Nat.toDigits 10 total.toNat ++
      ")".toList

def reportShed (reason : Str) (total : UInt64) : SensorProgram Unit :=
  if shouldReport total then Program.ask (SensorCall.eprintln (logIngestShed reason total))
  else pure ()

def shedReader (reason : Str) : SensorProgram Unit := do
  let total : UInt64 ← Program.ask SensorCall.recordShedReader
  reportShed reason total

namespace Sensor

variable (percentDecode : Bytes → Bytes) (sensor : Sensor)

-- A permit lives on in the reader thread; where none is started it goes with the closure.
def startReader (mimeToGet : Str) : SensorProgram Unit := do
  let _ ← Program.ask (SensorCall.receive mimeToGet)
  let spawned : Bool ← Program.ask (SensorCall.spawn mimeToGet)
  if spawned then pure ()
  else do
    let _ ← Program.ask SensorCall.dropPermit
    shedReader "could not start a reader thread".toList

def ingestInBackground (mimeToGet : Str) : SensorProgram Unit := do
  let admitted : Bool ← Program.ask SensorCall.tryAcquire
  if admitted then do
    let piped : Bool ← Program.ask SensorCall.makePipe
    if piped then startReader mimeToGet
    else do
      shedReader "could not allocate pipe descriptors (EMFILE)".toList
      Program.ask SensorCall.dropPermit
  else shedReader "too many concurrent readers".toList

def ingestAtOnce (mimeToGet : Str) : SensorProgram Sensor := do
  let piped : Bool ← Program.ask SensorCall.makePipe
  if piped then do
    let _ ← Program.ask (SensorCall.receive mimeToGet)
    let reader : Reader ← Program.ask SensorCall.readPipe
    match (readPipePayload reader (.ofNat maxPayloadBytes)).bind
        (normalisePayload percentDecode mimeToGet) with
    | some (_, payload) => pure { sensor with rxBuf := payload }
    | none => pure sensor
  else do
    shedReader "could not allocate pipe descriptors (EMFILE)".toList
    pure sensor

def mimeToGet (id : Option ObjectId) : Option Str :=
  match id with
  | none => none
  | some offer =>
      let mimes := (sensor.offers.lookup offer).getD []
      if mimes = [] ∨ isSensitive mimes = true then none
      else selectMime mimes sensor.targetMime sensor.config.dropRtf

def selection (id : Option ObjectId) : SensorProgram Sensor :=
  let (state, treatment) := sensor.state.selection
  let after := { sensor with state := state }
  match treatment, sensor.mimeToGet id with
  | .foreign, some mimeToGet =>
      if sensor.jobTx then do
        ingestInBackground mimeToGet
        pure after
      else after.ingestAtOnce percentDecode mimeToGet
  | _, _ => pure after

def offered (offer : ObjectId) (mimeType : Str) : Sensor :=
  { sensor with
    offers := sensor.offers.map fun entry =>
      if entry.1 = offer ∧ entry.2.contains mimeType = false then
        (entry.1, entry.2 ++ [mimeType])
      else entry }

def handle : WaylandEvent → SensorProgram Sensor
  | .global name interface version =>
      let (state, conn) := sensor.state.registryGlobal sensor.conn name interface version
      pure { sensor with state := state, conn := conn }
  | .globalRemove name => pure { sensor with state := sensor.state.registryGlobalRemove name }
  | .dataOffer offer => pure { sensor with offers := (offer, []) :: sensor.offers }
  | .offer offer mimeType => pure (sensor.offered offer mimeType)
  | .selection id => sensor.selection percentDecode id

end Sensor

end Y4p
