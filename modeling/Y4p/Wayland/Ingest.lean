import Mathlib.Data.Finset.Erase
import Mathlib.Data.Finset.Insert
import Y4p.Lib.Gauge
import Y4p.Wayland.State

/-!
Admission to the worker's queue (`crates/wayland/src/ingest.rs`): the reader gate, the byte
budget and the bounded hand-over, as any number of threads go through them step by step.
-/

namespace Y4p

open Gauges

-- `used` is the gate's `active`.
abbrev ReaderGate := Gauge

def ReaderGate.next (limit current : Nat) : Option Nat :=
  if limit ≤ current then none else some (current + 1)

inductive Asker where
  | loading
  | exchanging (current : Nat)
  | holding
  | refused
  | released
  deriving DecidableEq

structure Gatehouse where
  gate : ReaderGate
  askers : List Asker

inductive GateAction where
  | ask
  | advance (asker : Nat) (spurious : Bool)
  | drop (asker : Nat)

namespace Gatehouse

def start (limit : UInt64) : Gatehouse where
  gate := { used := 0, limit := limit.toNat, size := UInt64.size }
  askers := []

def advance (spurious : Bool) (gate : ReaderGate) : Asker → Asker × ReaderGate
  | .loading => (.exchanging gate.used, gate)
  | .exchanging current =>
      match ReaderGate.next gate.limit current with
      | none => (.refused, gate)
      | some next =>
          match gate.exchange current next spurious with
          | (.ok _, gate) => (.holding, gate)
          | (.error actual, gate) => (.exchanging actual, gate)
  | asker => (asker, gate)

-- What is not possible changes nothing.
def step (house : Gatehouse) : GateAction → Gatehouse
  | .ask => { house with askers := house.askers ++ [.loading] }
  | .advance asker spurious =>
      match house.askers[asker]? with
      | some caller =>
          let (caller, gate) := advance spurious house.gate caller
          { gate := gate, askers := house.askers.set asker caller }
      | none => house
  | .drop asker =>
      match house.askers[asker]? with
      | some .holding =>
          { gate := house.gate.fetchSub 1, askers := house.askers.set asker .released }
      | _ => house

def run (house : Gatehouse) (actions : List GateAction) : Gatehouse :=
  actions.foldl step house

def permits (house : Gatehouse) : Nat :=
  house.askers.countP fun asker => asker = .holding

end Gatehouse

-- The `.part` files that are there, and what became of each one created.
structure PartFiles where
  there : Finset SpoolPath
  created : Multiset SpoolPath
  adopted : Multiset SpoolPath
  unlinked : Multiset SpoolPath
  ledger : created = there.val + adopted + unlinked

namespace PartFiles

def empty : PartFiles where
  there := ∅
  created := 0
  adopted := 0
  unlinked := 0
  ledger := rfl

theorem taken_out {there : Finset SpoolPath} {path : SpoolPath} (present : path ∈ there) :
    there.val = path ::ₘ (there.erase path).val := by
  rw [Finset.erase_val]
  exact (Multiset.cons_erase present).symm

def create (path : SpoolPath) (files : PartFiles) : PartFiles :=
  if found : path ∈ files.there then files
  else
    { files with
      there := insert path files.there
      created := path ::ₘ files.created
      ledger := by
        rw [Finset.insert_val_of_notMem found, files.ledger]
        simp only [Multiset.cons_add] }

def adopt (path : SpoolPath) (files : PartFiles) : PartFiles :=
  if present : path ∈ files.there then
    { files with
      there := files.there.erase path
      adopted := path ::ₘ files.adopted
      ledger := by
        rw [files.ledger, taken_out present]
        simp only [Multiset.cons_add, Multiset.add_cons] }
  else files

def unlink (path : SpoolPath) (files : PartFiles) : PartFiles :=
  if present : path ∈ files.there then
    { files with
      there := files.there.erase path
      unlinked := path ::ₘ files.unlinked
      ledger := by
        rw [files.ledger, taken_out present]
        simp only [Multiset.cons_add, Multiset.add_cons] }
  else files

theorem create_there {path : SpoolPath} {files : PartFiles} (absent : path ∉ files.there) :
    (files.create path).there.val = path ::ₘ files.there.val := by
  unfold create
  rw [dif_neg absent]
  exact Finset.insert_val_of_notMem absent

theorem adopt_there {path : SpoolPath} {files : PartFiles} (present : path ∈ files.there) :
    (files.adopt path).there.val = files.there.val.erase path := by
  unfold adopt
  rw [dif_pos present]
  exact Finset.erase_val _ _

theorem unlink_there {path : SpoolPath} {files : PartFiles} (present : path ∈ files.there) :
    (files.unlink path).there.val = files.there.val.erase path := by
  unfold unlink
  rw [dif_pos present]
  exact Finset.erase_val _ _

end PartFiles

abbrev ByteBudget := Gauge

def ByteBudget.next (bytes current : Nat) (budget : ByteBudget) : Option Nat :=
  (Gauge.checkedAdd budget.size current bytes).filter fun next => next ≤ budget.limit

inductive Enqueue where
  | queued
  | shed
  | closed
  deriving DecidableEq

@[ext]
structure Ticket where
  producer : Nat
  number : Nat
  deriving DecidableEq

structure TicketedJob where
  ticket : Ticket
  job : ClipboardJob

namespace TicketedJob

def reserved (offer : TicketedJob) : Nat :=
  match offer.job.permit with
  | some permit => permit.bytes
  | none => 0

-- A dropped job gives its bytes back ...
def release (offer : TicketedJob) (budget : ByteBudget) : ByteBudget :=
  match offer.job.permit with
  | some permit => budget.fetchSub permit.bytes
  | none => budget

-- ... and deletes its spool file.
def unlink (offer : TicketedJob) (files : PartFiles) : PartFiles :=
  match offer.job.payload with
  | .spooled file => files.unlink file.path
  | _ => files

def withPermit (offer : TicketedJob) : TicketedJob :=
  { offer with job := { offer.job with permit := some { bytes := offer.job.accountedBytes } } }

end TicketedJob

inductive Place where
  | entry
  | load
  | exchange (current : Nat)
  | send
  | poll
  | leave (result : Enqueue)

structure EnqueueCall where
  offer : TicketedJob
  place : Place

-- The top of the loop.
def EnqueueCall.again (call : EnqueueCall) : EnqueueCall :=
  { call with place := if call.offer.job.permit.isNone then .load else .send }

structure Producer where
  calls : Nat
  current : Option EnqueueCall

-- `capacity` is the channel's buffer. The last five fields record what became of each job.
structure Intake where
  budget : ByteBudget
  capacity : Nat
  queue : List TicketedJob
  receiver : Bool
  worker : Option TicketedJob
  producers : List Producer
  files : PartFiles
  offered : List Ticket
  queued : List Ticket
  received : List Ticket
  discarded : List Ticket
  dropped : List (Ticket × Enqueue)

inductive IntakeAction where
  | arrive
  | call (producer : Nat) (mime : Str) (payload : Payload)
  | advance (producer : Nat) (spurious elapsed : Bool)
  | receive
  | finish
  | hangUp
  | discard

namespace Intake

def start (limit : UInt64) (capacity : Nat) : Intake where
  budget := { used := 0, limit := limit.toNat, size := UInt64.size }
  capacity := capacity
  queue := []
  receiver := true
  worker := none
  producers := []
  files := .empty
  offered := []
  queued := []
  received := []
  discarded := []
  dropped := []

-- One step of `enqueue_bounded`; `none` once it has returned.
def advance (spurious elapsed : Bool) (call : EnqueueCall) (intake : Intake) :
    Option EnqueueCall × Intake :=
  let offer := call.offer
  match call.place with
  | .entry =>
      if intake.budget.limit < offer.job.accountedBytes then
        (some { call with place := .leave .shed }, intake)
      else (some call.again, intake)
  | .load => (some { call with place := .exchange intake.budget.used }, intake)
  | .exchange current =>
      match intake.budget.next offer.job.accountedBytes current with
      | none => (some { call with place := .poll }, intake)
      | some next =>
          match intake.budget.exchange current next spurious with
          | (.ok _, budget) =>
              (some { offer := offer.withPermit, place := .send }, { intake with budget := budget })
          | (.error actual, budget) =>
              (some { call with place := .exchange actual }, { intake with budget := budget })
  | .send =>
      if intake.receiver = false then (some { call with place := .leave .closed }, intake)
      else if intake.queue.length < intake.capacity then
        (none, { intake with
          queue := intake.queue ++ [offer]
          queued := intake.queued ++ [offer.ticket] })
      else (some { call with place := .poll }, intake)
  | .poll =>
      if elapsed then (some { call with place := .leave .shed }, intake)
      else (some call.again, intake)
  | .leave result =>
      (none, { intake with
        budget := offer.release intake.budget
        files := offer.unlink intake.files
        dropped := intake.dropped ++ [(offer.ticket, result)] })

-- What is not possible changes nothing.
def step (intake : Intake) : IntakeAction → Intake
  | .arrive => { intake with producers := intake.producers ++ [{ calls := 0, current := none }] }
  | .call index mime payload =>
      match intake.producers[index]? with
      | some { calls, current := none } =>
          let offer : TicketedJob :=
            { ticket := { producer := index, number := calls }, job := .fromPayload mime payload }
          { intake with
            producers := intake.producers.set index
              { calls := calls + 1, current := some { offer := offer, place := .entry } }
            offered := intake.offered ++ [offer.ticket] }
      | _ => intake
  | .advance index spurious elapsed =>
      match intake.producers[index]? with
      | some { calls, current := some call } =>
          let (current, intake) := intake.advance spurious elapsed call
          { intake with
            producers := intake.producers.set index { calls := calls, current := current } }
      | _ => intake
  | .receive =>
      match intake.receiver, intake.worker, intake.queue with
      | true, none, offer :: rest =>
          { intake with
            queue := rest
            worker := some offer
            received := intake.received ++ [offer.ticket] }
      | _, _, _ => intake
  | .finish =>
      match intake.worker with
      -- Its payload was taken out of the job.
      | some offer => { intake with budget := offer.release intake.budget, worker := none }
      | none => intake
  | .hangUp => { intake with receiver := false }
  | .discard =>
      match intake.receiver, intake.queue with
      | false, offer :: rest =>
          { intake with
            budget := offer.release intake.budget
            files := offer.unlink intake.files
            queue := rest
            discarded := intake.discarded ++ [offer.ticket] }
      | _, _ => intake

def run (intake : Intake) (actions : List IntakeAction) : Intake :=
  actions.foldl step intake

def inHand (producers : List Producer) : List TicketedJob :=
  producers.filterMap fun producer => producer.current.map EnqueueCall.offer

def waiting (intake : Intake) : List TicketedJob :=
  inHand intake.producers ++ intake.queue

def live (intake : Intake) : List TicketedJob :=
  intake.waiting ++ intake.worker.toList

end Intake

end Y4p
