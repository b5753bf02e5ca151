import Y4p.Daemon.Loop
import Y4p.Wayland.Admission

/-!
The reader threads, the worker's queue and the counters that the event loop shares with them
(`crates/wayland/src/ingest.rs`, `ingest_and_send` of `handlers/data_control/device.rs`), as they go
on between any two calls of the loop.
-/

namespace Y4p

open Gauges

-- Where a reader thread stands. It drains its pipe, offers what it read, if anything, and
-- counts the payload that was shed; its permit goes when it leaves.
inductive ReaderPlace where
  | drain
  | offer
  | record
  | leave
  | gone
  deriving DecidableEq

-- A selection that is to be read: `event` is how many things had happened with it.
structure Selected where
  event : Nat
  mime : Str

structure ReaderThread where
  selected : Selected
  slot : Nat
  producer : Option Nat
  place : ReaderPlace

def ReaderThread.holds (reader : ReaderThread) : Option Nat :=
  if reader.place = .gone then none else some reader.slot

inductive Happening where
  | dispatch (sensor : Sensor) (event : WaylandEvent)
  | connection (accepted : Option (List Fill))

structure Told where
  past : List Happening
  started : List Selected
  status : Status

-- `asker` is the loop's own caller at the gate. The last three fields record what was done.
structure Ingress where
  house : Gatehouse
  asker : Option Nat
  readers : List ReaderThread
  intake : Intake
  shedReaders : UInt64
  shedQueue : UInt64
  history : List Happening
  received : List Selected
  replies : List Told

inductive IngressAction where
  | acquire (spurious : Bool)
  | drain (reader : Nat) (outcome : Option (Str × Payload))
  | offer (reader : Nat) (spurious elapsed : Bool)
  | record (reader : Nat)
  | leave (reader : Nat)
  | receive
  | finish
  | hangUp
  | discard

def ingestQueueCapacity : Nat := 64
def ingestQueueByteBudget : UInt64 := 64 * 1024 * 1024
def ingestMaxConcurrentReaders : UInt64 := 8

namespace Ingress

def start : Ingress where
  house := .start ingestMaxConcurrentReaders
  asker := none
  readers := []
  intake := .start ingestQueueByteBudget ingestQueueCapacity
  shedReaders := 0
  shedQueue := 0
  history := []
  received := []
  replies := []

def held (ingress : Ingress) : List Nat :=
  ingress.readers.filterMap ReaderThread.holds

def callOf (intake : Intake) (producer : Nat) : Option EnqueueCall :=
  intake.producers[producer]?.bind Producer.current

def afterCall : Place → ReaderPlace
  | .leave .shed => .record
  | _ => .leave

def step (ingress : Ingress) : IngressAction → Ingress
  | .acquire spurious =>
      match ingress.asker with
      | some slot => { ingress with house := ingress.house.step (.advance slot spurious) }
      | none => ingress
  | .drain index outcome =>
      match ingress.readers[index]? with
      | some ⟨selected, slot, none, .drain⟩ =>
          match outcome with
          | none =>
              { ingress with readers := ingress.readers.set index ⟨selected, slot, none, .leave⟩ }
          | some (announced, payload) =>
              let producer := ingress.intake.producers.length
              { ingress with
                readers := ingress.readers.set index ⟨selected, slot, some producer, .offer⟩
                intake := (ingress.intake.step .arrive).step (.call producer announced payload) }
      | _ => ingress
  | .offer index spurious elapsed =>
      match ingress.readers[index]? with
      | some ⟨selected, slot, some producer, .offer⟩ =>
          match callOf ingress.intake producer with
          | some call =>
              let intake := ingress.intake.step (.advance producer spurious elapsed)
              let place :=
                if (callOf intake producer).isSome then ReaderPlace.offer else afterCall call.place
              { ingress with
                readers := ingress.readers.set index ⟨selected, slot, some producer, place⟩
                intake := intake }
          | none => ingress
      | _ => ingress
  | .record index =>
      match ingress.readers[index]? with
      | some ⟨selected, slot, producer, .record⟩ =>
          { ingress with
            readers := ingress.readers.set index ⟨selected, slot, producer, .leave⟩
            shedQueue := ingress.shedQueue + 1 }
      | _ => ingress
  | .leave index =>
      match ingress.readers[index]? with
      | some ⟨selected, slot, producer, .leave⟩ =>
          { ingress with
            house := ingress.house.step (.drop slot)
            readers := ingress.readers.set index ⟨selected, slot, producer, .gone⟩ }
      | _ => ingress
  | .receive => { ingress with intake := ingress.intake.step .receive }
  | .finish => { ingress with intake := ingress.intake.step .finish }
  | .hangUp => { ingress with intake := ingress.intake.step .hangUp }
  | .discard => { ingress with intake := ingress.intake.step .discard }

def run (ingress : Ingress) (actions : List IngressAction) : Ingress :=
  actions.foldl step ingress

-- `try_acquire`, with the other threads going on in between, up to where it returns.
def Acquires (ingress : Ingress) (admitted : Bool) (after : Ingress) : Prop :=
  let slot := ingress.house.askers.length
  ∃ actions : List IngressAction,
    let last :=
      { ingress with house := ingress.house.step .ask, asker := some slot }.run actions
    if admitted then last.house.askers[slot]? = some .holding ∧ after = last
    else last.house.askers[slot]? = some .refused ∧ after = { last with asker := none }

def Senses (ingress : Ingress) :
    (call : SensorCall) → call.Answer → Ingress → Prop
  | .tryAcquire, admitted, after => ingress.Acquires admitted after
  | .dropPermit, _, after =>
      after =
        match ingress.asker with
        | some slot => { ingress with house := ingress.house.step (.drop slot), asker := none }
        | none => ingress
  | .recordShedReader, total, after =>
      total = ingress.shedReaders + 1 ∧
        after = { ingress with shedReaders := ingress.shedReaders + 1 }
  | .receive mime, _, after =>
      after =
        { ingress with
          received := ingress.received ++ [⟨ingress.history.length, mime⟩] }
  | .spawn mime, spawned, after =>
      after =
        match spawned, ingress.asker with
        | true, some slot =>
            { ingress with
              readers := ingress.readers ++
                [⟨⟨ingress.history.length, mime⟩, slot, none, .drain⟩]
              asker := none }
        | _, _ => ingress
  | _, _, after => after = ingress

def Answers (sha3 : Bytes → Bytes) (ingress : Ingress) :
    (call : LoopCall) → call.Answer → Ingress → Prop
  | .sensor call, answer, after => ingress.Senses call answer after
  | .dispatch sensor event, _, after =>
      after = { ingress with history := ingress.history ++ [.dispatch sensor event] }
  | .accept, accepted, after =>
      after = { ingress with history := ingress.history ++ [.connection accepted] }
  | .shedReaders, total, after => total = ingress.shedReaders ∧ after = ingress
  | .shedQueue, total, after => total = ingress.shedQueue ∧ after = ingress
  | .reply status, _, after =>
      after =
        { ingress with
          replies := ingress.replies ++
            [⟨ingress.history, ingress.readers.map ReaderThread.selected, status⟩] }
  | .restore state conn realId, answer, after =>
      (∃ located served, answer = restoreAcross sha3 located served state conn realId) ∧
        after = ingress
  | _, _, after => after = ingress

end Ingress

def LoopCall.May (sha3 : Bytes → Bytes) (call : LoopCall) (ingress : Ingress)
    (answer : call.Answer) (after : Ingress) : Prop :=
  ∃ actions, (ingress.run actions).Answers sha3 call answer after

end Y4p
