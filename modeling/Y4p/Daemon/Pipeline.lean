import Y4p.Daemon.Worker
import Y4p.Lib.Ownership
import Y4p.Wayland.Ingest

/-!
A spooled payload's whole way through the daemon: drained by a spooler, queued, converted
and stored, with every call free to succeed or fail and any number of payloads on the way.
-/

namespace Y4p

open Programs

-- A file is created if its name is free. One that is there can be unlinked; one that is not
-- cannot be opened, moved or copied.
def WorkCall.possible (files : PartFiles) : (call : WorkCall) → call.Answer → Bool
  | .createNew path, .ok () => path ∉ files.there
  | .openFile path, .ok _ => path ∈ files.there
  | .removeFile path, .ok () => path ∈ files.there
  | .removeFile path, .error _ => path ∉ files.there
  | _, _ => true

def WorkCall.leaves (files : PartFiles) : (call : WorkCall) → call.Answer → PartFiles
  | .createNew path, .ok () => files.create path
  | .removeFile path, .ok () => files.unlink path
  | _, _ => files

-- Wiping the cache directory is no step of the pipeline.
def Call.possible (files : PartFiles) : (call : Call) → call.Answer → Bool
  | .spool .., _ => false
  | .removeDirAll, _ => false
  | .rename source _, .ok () => source ∈ files.there
  | .copy source _, .ok () => source ∈ files.there
  | .openSpool source, .ok _ => source ∈ files.there
  | .removeSpool source, .ok () => source ∈ files.there
  | .removeSpool source, .error _ => source ∉ files.there
  | _, _ => true

def Call.leaves (files : PartFiles) : (call : Call) → call.Answer → PartFiles
  | .rename source _, .ok () => files.adopt source
  | .removeSpool source, .ok () => files.unlink source
  | _, _ => files

def JobCall.possible (files : PartFiles) : (call : JobCall) → call.Answer → Bool
  | .work call, answer => call.possible files answer
  | .storage call, answer => call.possible files answer

def JobCall.leaves (files : PartFiles) : (call : JobCall) → call.Answer → PartFiles
  | .work call, answer => call.leaves files answer
  | .storage call, answer => call.leaves files answer

-- A guard or a `SpooledFile` is alive from its file's creation until it is dropped or disarmed.
def WorkCall.rules : Discipline WorkCall WorkCall.Answer SpoolPath where
  needs
    | .openFile path | .readAt path _ | .writeAll path _ | .copyToFile _ path _
    | .convertFile _ _ path _ | .removeFile path => some path
    | _ => none
  effect
    | .createNew path, .ok () => some (.gains path)
    | .removeFile path, .ok () => some (.loses path)
    | .removeFile _, .error _ => none
    | _, _ => some .keeps

def Call.rules : Discipline Call Call.Answer SpoolPath where
  needs
    | .rename source _ | .copy source _ | .openSpool source | .removeSpool source => some source
    | _ => none
  effect
    | .spool .., _ => none
    | .removeDirAll, _ => none
    | .rename source _, .ok () => some (.loses source)
    | .removeSpool source, .ok () => some (.loses source)
    | .removeSpool _, .error _ => none
    | _, _ => some .keeps

def JobCall.rules : Discipline JobCall JobCall.Answer SpoolPath where
  needs
    | .work call => WorkCall.rules.needs call
    | .storage call => Call.rules.needs call
  effect
    | .work call, answer => WorkCall.rules.effect call answer
    | .storage call, answer => Call.rules.effect call answer

def SpoolOutcome.spools : SpoolOutcome → Multiset SpoolPath
  | .spooled file => {file.path}
  | _ => 0

def TicketedJob.spools (offer : TicketedJob) : Multiset SpoolPath :=
  match offer.job.payload with
  | .spooled file => {file.path}
  | _ => 0

structure Task (Call : Type) (Answer : Call → Type) (α : Type) where
  program : Program Call Answer α
  owners : Multiset SpoolPath

def Task.call {Call : Type} {Answer : Call → Type} {α : Type}
    (rules : Discipline Call Answer SpoolPath)
    (possible : PartFiles → (request : Call) → Answer request → Bool)
    (leaves : PartFiles → (request : Call) → Answer request → PartFiles)
    (reply : (request : Call) → Answer request) (files : PartFiles) (task : Task Call Answer α) :
    Task Call Answer α × PartFiles :=
  match task.program with
  | .ret _ => (task, files)
  | .call request next =>
      match possible files request (reply request), rules.effect request (reply request) with
      | true, some effect =>
          ({ program := next (reply request), owners := effect.after task.owners },
            leaves files request (reply request))
      | _, _ => (task, files)

-- `spooling` holds the calls of `spool` whose outcome has not been offered yet, `storing` the
-- worker's `store_spooled`.
structure Pipeline where
  ingest : Intake
  next : Nat
  spooling : List (Task WorkCall WorkCall.Answer SpoolOutcome)
  storing : Option (Task JobCall JobCall.Answer (Except String (Option Saved)))

inductive PipelineAction where
  | spool (head : Bytes) (src : Reader) (limit : UInt64)
  | spoolCall (index : Nat) (reply : (call : WorkCall) → call.Answer)
  | offerSpooled (index producer : Nat) (mime : Str)
  | offerMemory (producer : Nat) (mime : Str) (data : Bytes)
  | arrive
  | advance (producer : Nat) (spurious elapsed : Bool)
  | receive (now : Int) (tie : TieOrder) (maxHistory : UInt64)
  | storeCall (reply : (call : JobCall) → call.Answer)
  | finish
  | hangUp
  | discard

namespace Pipeline

def start (limit : UInt64) (capacity : Nat) : Pipeline where
  ingest := .start limit capacity
  next := 0
  spooling := []
  storing := none

section
variable (sha3 : Bytes → Bytes)

def taken (now : Int) (tie : TieOrder) (maxHistory : UInt64) (offer : TicketedJob) :
    Option (Task JobCall JobCall.Answer (Except String (Option Saved))) :=
  match offer.job.payload with
  | .spooled file =>
      some
        { program := storeSpooled sha3 now tie offer.job.mime file maxHistory
          owners := {file.path} }
  | _ => none

-- What is not possible changes nothing.
def step (pipeline : Pipeline) : PipelineAction → Pipeline
  | .spool head src limit =>
      { pipeline with
        next := pipeline.next + 1
        spooling := pipeline.spooling ++
          [{ program := FileSpooler.spool sha3 { next := pipeline.next } head src limit
             owners := 0 }] }
  | .spoolCall index reply =>
      match pipeline.spooling[index]? with
      | some task =>
          let (task, files) := task.call WorkCall.rules WorkCall.possible WorkCall.leaves reply
            pipeline.ingest.files
          { pipeline with
            ingest := { pipeline.ingest with files := files }
            spooling := pipeline.spooling.set index task }
      | none => pipeline
  | .offerSpooled index producer mime =>
      match pipeline.spooling[index]?, pipeline.ingest.producers[producer]? with
      | some { program := .ret (.spooled file), .. }, some { current := none, .. } =>
          { pipeline with
            ingest := pipeline.ingest.step (.call producer mime (.spooled file))
            spooling := pipeline.spooling.eraseIdx index }
      | _, _ => pipeline
  | .offerMemory producer mime data =>
      { pipeline with ingest := pipeline.ingest.step (.call producer mime (.memory data)) }
  | .arrive => { pipeline with ingest := pipeline.ingest.step .arrive }
  | .advance producer spurious elapsed =>
      { pipeline with ingest := pipeline.ingest.step (.advance producer spurious elapsed) }
  | .receive now tie maxHistory =>
      match pipeline.ingest.receiver, pipeline.ingest.worker, pipeline.ingest.queue with
      | true, none, offer :: _ =>
          { pipeline with
            ingest := pipeline.ingest.step .receive
            storing := taken sha3 now tie maxHistory offer }
      | _, _, _ => pipeline
  | .storeCall reply =>
      match pipeline.storing with
      | some task =>
          let (task, files) := task.call JobCall.rules JobCall.possible JobCall.leaves reply
            pipeline.ingest.files
          { pipeline with
            ingest := { pipeline.ingest with files := files }
            storing := some task }
      | none => pipeline
  | .finish =>
      match pipeline.storing with
      | some { program := .call _ _, .. } => pipeline
      | _ => { pipeline with ingest := pipeline.ingest.step .finish, storing := none }
  | .hangUp => { pipeline with ingest := pipeline.ingest.step .hangUp }
  | .discard => { pipeline with ingest := pipeline.ingest.step .discard }

def run (pipeline : Pipeline) (actions : List PipelineAction) : Pipeline :=
  actions.foldl (step sha3) pipeline

end

def alive {Call : Type} {Answer : Call → Type} {α : Type} (carried : α → Multiset SpoolPath)
    (task : Task Call Answer α) : Multiset SpoolPath :=
  match task.program with
  | .ret value => carried value
  | .call _ _ => task.owners

def spools (offers : List TicketedJob) : Multiset SpoolPath :=
  (offers.map TicketedJob.spools).sum

def owners (pipeline : Pipeline) : Multiset SpoolPath :=
  (pipeline.spooling.map (alive SpoolOutcome.spools)).sum + spools pipeline.ingest.waiting +
    (pipeline.storing.map (alive fun _ => 0)).getD 0

def Finished (pipeline : Pipeline) : Prop :=
  (∀ task ∈ pipeline.spooling, ∃ outcome, task.program = .ret outcome ∧ outcome.spools = 0) ∧
    pipeline.ingest.live = []

end Pipeline

end Y4p
