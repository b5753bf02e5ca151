import Y4p.Image.Transcode

/-!
One run of an external filter: `run_filter_inner` (`crates/image/src/pipeline.rs`) on the calling
thread, its feeder, drainer and watchdog threads, and the processes of the child.
-/

namespace Y4p

structure Holding where
  stdin : Bool
  stdout : Bool
  stderr : Bool
  inGroup : Bool
  deriving DecidableEq

-- A live process. `leader`: the child itself; the others descend from it.
structure Process extends Holding where
  leader : Bool
  deriving DecidableEq

def Process.narrow (process : Process) (kept : Holding) : Process where
  stdin := process.stdin && kept.stdin
  stdout := process.stdout && kept.stdout
  stderr := process.stderr && kept.stderr
  inGroup := process.inGroup && kept.inGroup
  leader := process.leader

-- A zombie keeps its pid; the pid of a reaped child may name anything.
inductive ChildState where
  | running
  | zombie (code : Option Int)
  | reaped (code : Option Int)
  deriving DecidableEq

-- An exit code of `none` stands for death by a signal.
def ChildState.exit (code : Option Int) : ChildState → ChildState
  | .running => .zombie code
  | state => state

structure Pipe where
  capacity : Nat
  buffered : Bytes
  deriving DecidableEq

def Pipe.room (pipe : Pipe) : Nat :=
  pipe.capacity - pipe.buffered.length

inductive FeedFailure where
  | source (error : String)
  | child (error : String)
  deriving DecidableEq

inductive RelayFailure where
  | sink (error : String)
  | child (error : String)
  deriving DecidableEq

inductive Feeder where
  | reading (total : Nat)
  | writing (total size : Nat) (rest : Bytes)
  | ended (result : Except FeedFailure Nat)

inductive Drainer where
  | reading (kept : Bytes)
  | ended (kept : Bytes)
  deriving DecidableEq

inductive WatchState where
  | running
  | finished
  | timedOut
  deriving DecidableEq

-- `Watchdog::supervise`. From `checking` to `signalled` the thread holds the lock.
inductive Supervisor where
  | starting
  | checking
  | parked
  | deciding
  | killing
  | signalled
  | ended
  deriving DecidableEq

-- What the calling thread does next. `relayed`: how `drain` ended.
inductive Caller (T : Type) where
  | takingPipes
  | spawningFeeder
  | spawningDrainer
  | spawningWatchdog
  | draining
  | killing (failure : RelayFailure)
  | waiting (relayed : Except RelayFailure T)
  | finishing (relayed : Except RelayFailure T)
  | standing (relayed : Except RelayFailure T)
  | reaping (relayed : Except RelayFailure T) (timedOut : Bool)
  | joiningFeeder (relayed : Except RelayFailure T) (timedOut : Bool) (status : Option Int)
  | joiningDrainer (relayed : Except RelayFailure T) (timedOut : Bool) (status : Option Int)
      (fed : Option (Except FeedFailure Nat))
  | joiningWatchdog (relayed : Except RelayFailure T) (timedOut : Bool) (status : Option Int)
      (fed : Option (Except FeedFailure Nat)) (captured : Bytes)
  | abandoning (error : String)
  | abandonKilling (error : String)
  | abandonReaping (error : String)
  | leaving (result : Except PipelineError (Nat × T))
  | returned (result : Except PipelineError (Nat × T))

inductive Party where
  | caller
  | watchdog
  deriving DecidableEq

inductive Sender where
  | relay
  | reaper
  | watchdog
  deriving DecidableEq

-- A SIGKILL, and what the pid it is sent to was at that moment.
structure Signal where
  sender : Sender
  child : ChildState
  deriving DecidableEq

structure FilterRun (T : Type) where
  timeout : Option Nat
  streamed : Bool
  descriptorLen : Nat
  caller : Caller T
  feeder : Option Feeder
  drainer : Option Drainer
  watchdog : Option Supervisor
  watch : WatchState
  lock : Option Party
  expired : Bool
  processes : List Process
  child : ChildState
  stdin : Pipe
  stderr : Pipe
  signals : List Signal
  answered : Option Bool

-- `drained` is what the caller's `drain` makes of the child's output.
inductive CallerReply (T : Type) where
  | proceeds
  | refused (error : String)
  | drained (relayed : Except RelayFailure T)

-- An empty read is the end of the source.
inductive SourceReply where
  | data (bytes : Bytes)
  | interrupted
  | failed (error : String)

inductive FilterAction (T : Type) where
  | caller (reply : CallerReply T)
  | feeder (reply : SourceReply)
  | drainer (fails : Bool)
  | watchdog
  | expire
  | exit (index : Nat) (code : Option Int)
  | fork (index : Nat) (kept : Holding)
  | narrow (index : Nat) (kept : Holding)
  | consume (index count : Nat)
  | complain (index : Nat) (bytes : Bytes)

namespace FilterRun

variable {T : Type}

def start (T : Type) (timeout : Option Nat) (streamed : Bool)
    (descriptorLen stdinCapacity stderrCapacity : Nat) : FilterRun T where
  timeout := timeout
  streamed := streamed
  descriptorLen := descriptorLen
  caller := .takingPipes
  feeder := none
  drainer := none
  watchdog := none
  watch := .running
  lock := none
  expired := false
  processes :=
    [{ stdin := streamed, stdout := true, stderr := true, inGroup := true, leader := true }]
  child := .running
  stdin := { capacity := stdinCapacity, buffered := [] }
  stderr := { capacity := stderrCapacity, buffered := [] }
  signals := []
  answered := none

def feeding (run : FilterRun T) : Bool :=
  match run.feeder with
  | some (.reading _) | some (.writing ..) => true
  | some (.ended _) | none => false

def draining (run : FilterRun T) : Bool :=
  match run.drainer with
  | some (.reading _) => true
  | some (.ended _) | none => false

def watching (run : FilterRun T) : Bool :=
  match run.watchdog with
  | some .ended | none => false
  | some _ => true

def killGroup (sender : Sender) (run : FilterRun T) : FilterRun T :=
  { run with
    processes := run.processes.filter fun process => !process.inGroup
    child :=
      if run.processes.any fun process => process.leader && process.inGroup then
        run.child.exit none
      else run.child
    signals := run.signals ++ [{ sender := sender, child := run.child }] }

-- `Child::kill`
def killChild (run : FilterRun T) : FilterRun T :=
  { run with
    processes := run.processes.filter fun process => !process.leader
    child := run.child.exit none
    signals := run.signals ++ [{ sender := .reaper, child := run.child }] }

def conclude (run : FilterRun T) (relayed : Except RelayFailure T) (timedOut : Bool)
    (status : Option Int) (fed : Option (Except FeedFailure Nat)) (captured : Bytes) :
    Except PipelineError (Nat × T) :=
  if timedOut then .error (.timeout (run.timeout.getD 0))
  else
    match relayed with
    | .error (.sink error) => .error (.sink error)
    | .error (.child error) => .error (.child error)
    | .ok drained =>
        match fed.getD (.ok run.descriptorLen) with
        | .error (.source error) => .error (.source error)
        | .error (.child error) => .error (.child error)
        | .ok bytesIn =>
            if status = some 0 then .ok (bytesIn, drained)
            else .error (.failed status (String.ofList (trim (fromUtf8Lossy captured))))

-- Without a watchdog nothing is waited for before the reap.
def relay (relayed : Except RelayFailure T) (run : FilterRun T) : FilterRun T :=
  { run with
    caller := if run.watchdog = none then .reaping relayed false else .waiting relayed }

def stepCaller (reply : CallerReply T) (run : FilterRun T) : FilterRun T :=
  match run.caller with
  | .takingPipes =>
      match reply with
      | .refused _ => { run with caller := .abandoning "child pipe handle missing" }
      | _ => { run with caller := .spawningFeeder }
  | .spawningFeeder =>
      if run.streamed then
        match reply with
        | .refused error => { run with caller := .abandoning error }
        | _ => { run with feeder := some (.reading 0), caller := .spawningDrainer }
      else { run with caller := .spawningDrainer }
  | .spawningDrainer =>
      match reply with
      | .refused error => { run with caller := .abandoning error }
      | _ => { run with drainer := some (.reading []), caller := .spawningWatchdog }
  | .spawningWatchdog =>
      if run.timeout.isSome then
        match reply with
        | .refused error => { run with caller := .abandoning error }
        | _ => { run with watchdog := some .starting, caller := .draining }
      else { run with caller := .draining }
  | .draining =>
      match reply with
      | .drained (.error failure) => { run with caller := .killing failure }
      | .drained (.ok drained) =>
          -- End of file: nobody holds the other end.
          if run.processes.any fun process => process.stdout then run
          else run.relay (.ok drained)
      | _ => run
  | .killing failure => (run.killGroup .relay).relay (.error failure)
  | .waiting relayed =>
      match run.child with
      | .running => run
      | _ => { run with caller := .finishing relayed }
  | .finishing relayed =>
      if run.lock = none then { run with lock := some .caller, caller := .standing relayed }
      else run
  | .standing relayed =>
      let watch := if run.watch = .running then .finished else run.watch
      let timedOut := decide (watch = .timedOut)
      { run with
        watch := watch, lock := none, answered := some timedOut,
        caller := .reaping relayed timedOut }
  | .reaping relayed timedOut =>
      match run.child with
      | .zombie code =>
          { run with child := .reaped code, caller := .joiningFeeder relayed timedOut code }
      | _ => run
  | .joiningFeeder relayed timedOut status =>
      match run.feeder with
      | none => { run with caller := .joiningDrainer relayed timedOut status none }
      | some (.ended result) =>
          { run with caller := .joiningDrainer relayed timedOut status (some result) }
      | some _ => run
  | .joiningDrainer relayed timedOut status fed =>
      match run.drainer with
      | some (.ended kept) =>
          { run with caller := .joiningWatchdog relayed timedOut status fed kept }
      | _ => run
  | .joiningWatchdog relayed timedOut status fed captured =>
      match run.watchdog with
      | none | some .ended =>
          { run with caller := .leaving (run.conclude relayed timedOut status fed captured) }
      | some _ => run
  | .abandoning error => { run.killGroup .reaper with caller := .abandonKilling error }
  | .abandonKilling error => { run.killChild with caller := .abandonReaping error }
  | .abandonReaping error =>
      match run.child with
      | .zombie code => { run with child := .reaped code, caller := .leaving (.error (.child error)) }
      | _ => run
  | .leaving result =>
      -- `thread::scope` joins what is left.
      if run.feeding || run.draining || run.watching then run
      else { run with caller := .returned result }
  | .returned _ => run

-- A write blocks while the pipe is full, and breaks once nobody can read.
def stepFeeder (reply : SourceReply) (run : FilterRun T) : FilterRun T :=
  match run.feeder with
  | some (.reading total) =>
      match reply with
      | .data bytes =>
          match bytes.take pipelineChunkBytes with
          | [] => { run with feeder := some (.ended (.ok total)) }
          | chunk => { run with feeder := some (.writing total chunk.length chunk) }
      | .interrupted => run
      | .failed error => { run with feeder := some (.ended (.error (.source error))) }
  | some (.writing total size rest) =>
      match reply with
      | .failed error => { run with feeder := some (.ended (.error (.child error))) }
      | _ =>
          if run.processes.any fun process => process.stdin then
            { run with
              feeder :=
                match rest.drop run.stdin.room with
                | [] => some (.reading (total + size))
                | left => some (.writing total size left)
              stdin :=
                { run.stdin with buffered := run.stdin.buffered ++ rest.take run.stdin.room } }
          else { run with feeder := some (.ended (.ok total)) }
  | _ => run

def stepDrainer (fails : Bool) (run : FilterRun T) : FilterRun T :=
  match run.drainer with
  | some (.reading kept) =>
      if fails then { run with drainer := some (.ended kept) }
      else
        match run.stderr.buffered with
        | [] =>
            if run.processes.any fun process => process.stderr then run
            else { run with drainer := some (.ended kept) }
        | buffered =>
            let room := pipelineStderrCapBytes - kept.length
            { run with
              drainer := some (.reading (kept ++ (buffered.take 4096).take room))
              stderr := { run.stderr with buffered := buffered.drop 4096 } }
  | _ => run

-- A parked thread may wake at any moment.
def stepWatchdog (run : FilterRun T) : FilterRun T :=
  match run.watchdog with
  | some .starting | some .parked =>
      if run.lock = none then { run with lock := some .watchdog, watchdog := some .checking }
      else run
  | some .checking =>
      if run.watch ≠ .running ∨ run.expired then { run with watchdog := some .deciding }
      else { run with lock := none, watchdog := some .parked }
  | some .deciding =>
      if run.watch = .running then { run with watchdog := some .killing }
      else { run with lock := none, watchdog := some .ended }
  | some .killing => { run.killGroup .watchdog with watchdog := some .signalled }
  | some .signalled =>
      { run with watch := .timedOut, lock := none, watchdog := some .ended }
  | some .ended | none => run

def stepProcess (index : Nat) (change : Process → FilterRun T) (run : FilterRun T) : FilterRun T :=
  match run.processes[index]? with
  | some process => change process
  | none => run

def step (run : FilterRun T) : FilterAction T → FilterRun T
  | .caller reply => run.stepCaller reply
  | .feeder reply => run.stepFeeder reply
  | .drainer fails => run.stepDrainer fails
  | .watchdog => run.stepWatchdog
  | .expire => { run with expired := true }
  | .exit index code =>
      run.stepProcess index fun process =>
        { run with
          processes := run.processes.eraseIdx index
          child := if process.leader then run.child.exit code else run.child }
  | .fork index kept =>
      run.stepProcess index fun process =>
        { run with
          processes := run.processes ++ [{ process.narrow kept with leader := false }] }
  | .narrow index kept =>
      run.stepProcess index fun process =>
        { run with processes := run.processes.set index (process.narrow kept) }
  | .consume index count =>
      run.stepProcess index fun process =>
        if process.stdin then
          { run with stdin := { run.stdin with buffered := run.stdin.buffered.drop count } }
        else run
  | .complain index bytes =>
      run.stepProcess index fun process =>
        if process.stderr then
          { run with
            stderr :=
              { run.stderr with
                buffered := run.stderr.buffered ++ bytes.take run.stderr.room } }
        else run

def steps (run : FilterRun T) (actions : List (FilterAction T)) : FilterRun T :=
  actions.foldl step run

end FilterRun

end Y4p
