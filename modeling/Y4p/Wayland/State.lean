import Y4p.Core.Utils
import Y4p.Core.Payload

/-!
The Wayland side's state and its jobs (`crates/wayland/src/state.rs`), the requests it
sends and its handlers of compositor events (`handlers/mod.rs`, `handlers/data_control/device.rs`).
-/

namespace Y4p

structure BytePermit where
  bytes : Nat
  deriving DecidableEq

structure ClipboardJob where
  mime : Str
  payload : Payload
  permit : Option BytePermit

namespace ClipboardJob

def fromPayload (mime : Str) (payload : Payload) : ClipboardJob where
  mime := mime
  payload := payload
  permit := none

def new (mime : Str) (data : Bytes) : ClipboardJob :=
  fromPayload mime (.memory data)

def lenHint (job : ClipboardJob) : Option Nat :=
  match job.payload with
  | .memory data => some data.length
  | .file _ => none
  | .spooled file => some file.len.toNat

def accountedBytes (job : ClipboardJob) : Nat :=
  job.lenHint.getD 0

end ClipboardJob

-- A protocol object this client created.
abbrev ObjectId := Nat

-- An `ext_data_control_source_v1` with its `SourceMetadata`.
structure DataSource where
  id : ObjectId
  mime : Str
  payload : Payload

inductive Request where
  | bind (name : UInt32) (interface : Str) (version : UInt32) (object : ObjectId)
  | getDataDevice (seat device : ObjectId)
  | createDataSource (source : DataSource)
  | offer (source : ObjectId) (mime : Str)
  | setSelection (device source : ObjectId)

-- `next` is the first object id not yet in use.
structure Connection where
  next : ObjectId
  requests : List Request

namespace Connection

def send (conn : Connection) (request : Request) : Connection :=
  { conn with requests := conn.requests ++ [request] }

def create (conn : Connection) (request : ObjectId → Request) : ObjectId × Connection :=
  (conn.next, { next := conn.next + 1, requests := conn.requests ++ [request conn.next] })

@[simp] theorem send_next (conn : Connection) (request : Request) :
    (conn.send request).next = conn.next := rfl

@[simp] theorem send_requests (conn : Connection) (request : Request) :
    (conn.send request).requests = conn.requests ++ [request] := rfl

end Connection

structure WaylandState where
  manager : Option ObjectId
  managerId : Option UInt32
  seat : Option ObjectId
  seatId : Option UInt32
  device : Option ObjectId
  providerLocks : UInt32
  selectionReceived : Bool
  currentSource : Option DataSource
  paused : Bool

namespace WaylandState

def newDaemon : WaylandState where
  manager := none
  managerId := none
  seat := none
  seatId := none
  device := none
  providerLocks := 0
  selectionReceived := false
  currentSource := none
  paused := false

def bindManager (state : WaylandState) (conn : Connection) (name : UInt32) (interface : Str)
    (version : UInt32) : WaylandState × Connection :=
  if interface = interfaceManager ∧ 1 ≤ version then
    let (manager, conn) := conn.create (.bind name interfaceManager 1)
    ({ state with manager := some manager, managerId := some name }, conn)
  else (state, conn)

def bindSeat (state : WaylandState) (conn : Connection) (name : UInt32) (interface : Str)
    (version : UInt32) : WaylandState × Connection :=
  if interface = interfaceSeat ∧ state.seat.isNone then
    let (seat, conn) := conn.create (.bind name interfaceSeat (min version 7))
    ({ state with seat := some seat, seatId := some name }, conn)
  else (state, conn)

def registryGlobal (state : WaylandState) (conn : Connection) (name : UInt32) (interface : Str)
    (version : UInt32) : WaylandState × Connection :=
  let (state, conn) := state.bindManager conn name interface version
  state.bindSeat conn name interface version

def registryGlobalRemove (state : WaylandState) (name : UInt32) : WaylandState :=
  let state :=
    if some name = state.managerId then { state with manager := none, managerId := none }
    else state
  if some name = state.seatId then { state with seat := none, seatId := none, device := none }
  else state

inductive Treatment where
  | echo
  | paused
  | foreign
  deriving DecidableEq

def selection (state : WaylandState) : WaylandState × Treatment :=
  let state := { state with selectionReceived := true }
  if 0 < state.providerLocks then
    ({ state with providerLocks := state.providerLocks - 1 }, .echo)
  else if state.paused then (state, .paused)
  else (state, .foreign)

end WaylandState

end Y4p
