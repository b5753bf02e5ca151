import Mathlib.Algebra.BigOperators.Group.List.Basic
import Mathlib.Algebra.Order.Group.Multiset
import Y4p.Daemon.Convert
import Y4p.Daemon.Pipeline
import Y4p.Storage.SpooledInsert
import Y4p.Wayland.Admission

/-!
Every spool file has one owner, from its creation until it is unlinked or moved into the
cache, whatever fails on the way.
-/

namespace Y4p

open Programs

section
variable {sha3 : Bytes → Bytes}

theorem unlink_owns (path : SpoolPath) (rest : Multiset SpoolPath) :
    Program.Owns WorkCall.rules (fun _ => rest) (unlink path) (path ::ₘ rest) := by
  refine .ask (fun resource works => ?_) fun answer effect answered => ?_
  · cases works
    exact Multiset.mem_cons_self _ _
  · cases answer with
    | error _ => cases answered
    | ok value =>
        cases answered
        exact ⟨Multiset.mem_cons_self _ _, (Multiset.erase_cons_head _ _).symm⟩

theorem createNew_owns {α : Type} {carried : α → Multiset SpoolPath} {path : SpoolPath}
    {held : Multiset SpoolPath} {rest : Except String Unit → Work α}
    (refused : ∀ error, Program.Owns WorkCall.rules carried (rest (.error error)) held)
    (created : Program.Owns WorkCall.rules carried (rest (.ok ())) (path ::ₘ held)) :
    Program.Owns WorkCall.rules carried (Program.ask (WorkCall.createNew path) >>= rest) held := by
  refine .ask nofun fun answer effect answered => ?_
  cases answer with
  | error error =>
      cases answered
      exact ⟨trivial, refused error⟩
  | ok value =>
      cases answered
      exact ⟨trivial, created⟩

theorem works_on {α : Type} {carried : α → Multiset SpoolPath} {call : WorkCall}
    {path : SpoolPath} {held : Multiset SpoolPath} {rest : call.Answer → Work α}
    (on : WorkCall.rules.needs call = some path) (there : path ∈ held)
    (keeps : ∀ answer, WorkCall.rules.effect call answer = some .keeps)
    (later : ∀ answer, Program.Owns WorkCall.rules carried (rest answer) held) :
    Program.Owns WorkCall.rules carried (Program.ask call >>= rest) held := by
  refine .keep (fun resource works => ?_) keeps later
  rw [on] at works
  cases works
  exact there

theorem finishSpool_owns (digests : ∀ data, (sha3 data).length = digestLen) (path : SpoolPath)
    (head : Bytes) (copied : Except PayloadError Nat × Bytes) :
    Program.Owns WorkCall.rules SpoolOutcome.spools (finishSpool sha3 path head copied) {path} := by
  have kept : ∀ len seen,
      Program.Owns WorkCall.rules SpoolOutcome.spools (finishSpool.spooledAs sha3 path len seen)
        {path} := by
    intro len seen
    unfold finishSpool.spooledAs
    rw [finishTap_some digests]
    exact .pure rfl
  obtain ⟨moved, seen⟩ := copied
  cases moved with
  | ok rest => exact kept _ _
  | error error =>
      cases error with
      | empty => exact kept _ _
      | _ => exact .bind (unlink_owns path 0) fun _ => .pure rfl

theorem FileSpooler.spool_owns (digests : ∀ data, (sha3 data).length = digestLen)
    (spooler : FileSpooler) (head : Bytes) (src : Reader) (limit : UInt64) :
    Program.Owns WorkCall.rules SpoolOutcome.spools (spooler.spool sha3 head src limit) 0 := by
  unfold FileSpooler.spool
  refine createNew_owns (fun error => .pure rfl) ?_
  have here : freshPath spooler.next ∈ freshPath spooler.next ::ₘ (0 : Multiset SpoolPath) :=
    Multiset.mem_cons_self _ _
  dsimp only
  split
  · exact .bind (unlink_owns _ 0) fun _ => .pure rfl
  · refine works_on rfl here (fun _ => rfl) fun written => ?_
    cases written with
    | error error => exact .bind (unlink_owns _ 0) fun _ => .pure rfl
    | ok value =>
        exact works_on rfl here (fun _ => rfl) fun copied => finishSpool_owns digests _ head copied

theorem transcodeFile_owns {held : Multiset SpoolPath} (job : Transcode) (input : Bytes)
    {output : SpoolPath} (there : output ∈ held) (limit : UInt64) :
    Program.Owns WorkCall.rules (fun _ => held) (transcodeFile job input output limit) held := by
  refine works_on rfl there (fun _ => rfl) fun converted => ?_
  cases converted with
  | error error => exact .pure rfl
  | ok transfer =>
      have signature : Program.Owns WorkCall.rules (fun _ => held)
          (checkSignature job.output output) held := by
        refine works_on rfl there (fun _ => rfl) fun read => ?_
        cases read with
        | error error => exact .pure rfl
        | ok head =>
            dsimp only
            split <;> exact .pure rfl
      refine .bind signature fun signed => ?_
      cases signed <;> exact .pure rfl

def beside (source : SpoolPath) (output : Option SpooledFile) : Multiset SpoolPath :=
  match output with
  | some file => file.path ::ₘ {source}
  | none => {source}

theorem transcodeSpooled_owns (digests : ∀ data, (sha3 data).length = digestLen)
    (source : SpooledFile) (limit : UInt64) (job : Transcode) :
    Program.Owns WorkCall.rules (fun result => beside source.path result.toOption)
      (transcodeSpooled sha3 source limit job) {source.path} := by
  unfold transcodeSpooled
  refine works_on rfl (Multiset.mem_singleton_self _) (fun _ => rfl) fun opened => ?_
  cases opened with
  | error error => exact .pure rfl
  | ok input =>
      refine createNew_owns (fun error => .pure rfl) ?_
      refine .bind (transcodeFile_owns job input (Multiset.mem_cons_self _ _) limit)
        fun transfer => ?_
      cases transfer with
      | error error => exact .bind (unlink_owns _ _) fun _ => .pure rfl
      | ok transfer =>
          unfold finishTranscode
          dsimp only
          rw [finishTap_some digests]
          exact .pure rfl

theorem apart_owns {α : Type} {carried : α → Multiset SpoolPath} {call : WorkCall}
    {held : Multiset SpoolPath} {rest : call.Answer → Work α}
    (idle : WorkCall.rules.needs call = none)
    (keeps : ∀ answer, WorkCall.rules.effect call answer = some .keeps)
    (later : ∀ answer, Program.Owns WorkCall.rules carried (rest answer) held) :
    Program.Owns WorkCall.rules carried (Program.ask call >>= rest) held := by
  refine .keep (fun resource works => ?_) keeps later
  rw [idle] at works
  cases works

theorem attemptGuarded_owns {source : SpoolPath}
    {attempt : Work (Except PipelineError SpooledFile)}
    (owns : Program.Owns WorkCall.rules (fun result => beside source result.toOption) attempt
      {source}) :
    Program.Owns WorkCall.rules (beside source) (attemptGuarded attempt fun _ => true)
      {source} := by
  refine apart_owns rfl (fun _ => rfl) fun acquired => ?_
  cases acquired with
  | none => exact .pure rfl
  | some permit =>
      refine apart_owns rfl (fun _ => rfl) fun slot => ?_
      cases slot with
      | false => exact apart_owns rfl (fun _ => rfl) fun _ => .pure rfl
      | true =>
          refine .bind owns fun result => ?_
          refine apart_owns rfl (fun _ => rfl) fun _ => ?_
          refine apart_owns rfl (fun _ => rfl) fun _ => ?_
          cases result <;> exact .pure rfl

def FileRoute.output {T : Type} : FileRoute T → Option T
  | .original => none
  | .converted _ output => some output

theorem routeFileForIngest_owns (mime : Str) (head : Bytes) {source : SpoolPath}
    {convert : Transcode → Work (Except PipelineError SpooledFile)}
    (owns : ∀ job, Program.Owns WorkCall.rules (fun result => beside source result.toOption)
      (convert job) {source}) :
    Program.Owns WorkCall.rules (fun route => beside source route.output)
      (routeFileForIngest mime head convert) {source} := by
  unfold routeFileForIngest routeFileWith
  cases plan mime head with
  | none => exact .pure rfl
  | some job =>
      refine .bind (attemptGuarded_owns ?_) fun converted => ?_
      · refine apart_owns rfl (fun _ => rfl) fun available => ?_
        cases available with
        | false => exact .pure rfl
        | true => exact owns job
      · cases converted <;> exact .pure rfl

theorem convertIfWanted_owns (digests : ∀ data, (sha3 data).length = digestLen) (mime : Str)
    (spooled : SpooledFile) :
    Program.Owns WorkCall.rules (fun result => {result.2.path})
      (convertIfWanted sha3 mime spooled) {spooled.path} := by
  have head : Program.Owns WorkCall.rules (fun _ => {spooled.path}) (readHead spooled.path)
      {spooled.path} := by
    refine works_on rfl (Multiset.mem_singleton_self _) (fun _ => rfl) fun opened => ?_
    cases opened <;> exact .pure rfl
  refine .bind head fun head => ?_
  refine .bind (routeFileForIngest_owns mime head fun job =>
    transcodeSpooled_owns digests spooled _ job) fun routed => ?_
  cases routed with
  | original => exact .pure rfl
  | converted converted output =>
      have swapped : beside spooled.path (some output) = spooled.path ::ₘ {output.path} :=
        Multiset.cons_swap output.path spooled.path 0
      change Program.Owns WorkCall.rules _ _ (beside spooled.path (some output))
      rw [swapped]
      exact .bind (unlink_owns spooled.path {output.path}) fun _ => .pure rfl

end

theorem SpooledFile.drop_owns (spooled : SpooledFile) :
    Program.Owns Call.rules (fun _ => 0) spooled.drop {spooled.path} := by
  refine .ask (fun resource works => ?_) fun answer effect answered => ?_
  · cases works
    exact Multiset.mem_singleton_self _
  · cases answer with
    | error _ => cases answered
    | ok value =>
        cases answered
        exact ⟨Multiset.mem_singleton_self _, (Multiset.erase_singleton _).symm⟩

theorem readSpooled_owns (spooled : SpooledFile) :
    Program.Owns Call.rules (fun _ => {spooled.path}) (readSpooled spooled) {spooled.path} := by
  unfold readSpooled
  split
  · refine .keep (fun resource works => ?_) (fun _ => rfl) fun opened => ?_
    · cases works
      exact Multiset.mem_singleton_self _
    · cases opened with
      | error message => exact .pure rfl
      | ok handle =>
          refine .keep (fun resource works => ?_) (fun _ => rfl) fun got => ?_
          · cases works
          · cases got <;> exact .pure rfl
  · exact .pure rfl

theorem Call.aside_apart (call : Call) (aside : call.aside = true) :
    Call.rules.needs call = none ∧ ∀ answer, Call.rules.effect call answer = some .keeps := by
  cases call with
  | store op => exact ⟨rfl, fun _ => rfl⟩
  | pathExists hash => exact ⟨rfl, fun _ => rfl⟩
  | write hash data => exact ⟨rfl, fun _ => rfl⟩
  | remove hash => exact ⟨rfl, fun _ => rfl⟩
  | read hash => exact ⟨rfl, fun _ => rfl⟩
  | _ => cases aside

def unadopted (source : SpoolPath) : Except String FileCache.Adoption → Multiset SpoolPath
  | .ok .placed => 0
  | _ => {source}

theorem adopt_owns (hash : Str) (source : SpoolPath) :
    Program.Owns Call.rules (unadopted source) (FileCache.adopt hash source) {source} := by
  have here : ∀ resource, some source = some resource → resource ∈ ({source} : Multiset SpoolPath) := by
    intro resource works
    cases works
    exact Multiset.mem_singleton_self _
  have gone : ({source} : Multiset SpoolPath).erase source = 0 := Multiset.erase_singleton _
  refine .keep nofun (fun _ => rfl) fun present => ?_
  cases present with
  | true => exact .pure rfl
  | false =>
      refine .ask here fun renamed effect answered => ?_
      cases renamed with
      | ok value =>
          cases answered
          exact ⟨Multiset.mem_singleton_self _, gone.symm⟩
      | error message =>
          cases answered
          refine ⟨trivial, .keep here (fun _ => rfl) fun copied => ?_⟩
          cases copied with
          | ok value =>
              refine .ask here fun removed effect answered => ?_
              cases removed with
              | ok value =>
                  cases answered
                  exact ⟨Multiset.mem_singleton_self _, gone.symm⟩
              | error message => cases answered
          | error message => exact .keep nofun (fun _ => rfl) fun _ => .pure rfl

theorem insertSpooled_owns (now : Int) (tie : TieOrder) (mime : Str) (spooled : SpooledFile)
    (maxHistory : UInt64) :
    Program.Owns Call.rules (fun _ => 0) (insertSpooled now tie mime spooled maxHistory)
      {spooled.path} := by
  have upserts : ∀ adoption, Program.Owns Call.rules (fun _ => 0)
      (upsertAdopted now tie mime spooled adoption maxHistory) 0 :=
    fun adoption => .of_issues Call.aside_apart (upsertAdopted_aside _ _ _ _ _ _) 0
  unfold insertSpooled
  split
  · exact .bind (SpooledFile.drop_owns spooled) fun _ => .pure rfl
  · split
    · have read : Program.Owns Call.rules (fun _ => {spooled.path})
          (insertRead now tie mime spooled maxHistory) {spooled.path} := by
        refine .bind (readSpooled_owns spooled) fun got => ?_
        cases got with
        | error message => exact .pure rfl
        | ok data => exact .of_issues Call.aside_apart (insertWithHash_aside _ _ _ _ _ _) _
      exact .bind read fun _ => .bind (SpooledFile.drop_owns spooled) fun _ => .pure rfl
    · refine .bind (adopt_owns spooled.hexDigest spooled.path) fun adopted => ?_
      match adopted with
      | .error message => exact .bind (SpooledFile.drop_owns spooled) fun _ => .pure rfl
      | .ok .placed => exact upserts .placed
      | .ok .present => exact .bind (SpooledFile.drop_owns spooled) fun _ => upserts .present

theorem working_owns {α : Type} {carried : α → Multiset SpoolPath} {program : Work α}
    {held : Multiset SpoolPath} (owns : Program.Owns WorkCall.rules carried program held) :
    Program.Owns JobCall.rules carried (working program) held := by
  refine Program.Owns.lift ?_ ?_ owns
  · exact fun _ => rfl
  · exact fun _ _ => rfl

theorem storing_owns {α : Type} {carried : α → Multiset SpoolPath} {program : Io α}
    {held : Multiset SpoolPath} (owns : Program.Owns Call.rules carried program held) :
    Program.Owns JobCall.rules carried (storing program) held := by
  refine Program.Owns.lift ?_ ?_ owns
  · exact fun _ => rfl
  · exact fun _ _ => rfl

theorem storeSpooled_owns {sha3 : Bytes → Bytes}
    (digests : ∀ data, (sha3 data).length = digestLen) (now : Int) (tie : TieOrder) (mime : Str)
    (spooled : SpooledFile) (maxHistory : UInt64) :
    Program.Owns JobCall.rules (fun _ => 0)
      (storeSpooled sha3 now tie mime spooled maxHistory) {spooled.path} := by
  refine .bind (working_owns (convertIfWanted_owns digests mime spooled)) fun converted => ?_
  refine .bind (storing_owns (insertSpooled_owns now tie converted.1 converted.2 maxHistory))
    fun stored => ?_
  cases stored <;> exact .pure rfl

def Follows {Call : Type} {Answer : Call → Type} (rules : Discipline Call Answer SpoolPath)
    (possible : PartFiles → (request : Call) → Answer request → Bool)
    (leaves : PartFiles → (request : Call) → Answer request → PartFiles) : Prop :=
  ∀ files request answer, possible files request answer = true →
    (∀ path, rules.needs request = some path → path ∈ files.there) →
      ∃ effect, rules.effect request answer = some effect ∧
        ∀ held rest, files.there.val = held + rest → effect.Fits held →
          (leaves files request answer).there.val = effect.after held + rest

theorem WorkCall.follows : Follows WorkCall.rules WorkCall.possible WorkCall.leaves := by
  intro files request answer possible needs
  cases request with
  | createNew path =>
      cases answer with
      | error error => exact ⟨.keeps, rfl, fun held rest split _ => split⟩
      | ok value =>
          refine ⟨.gains path, rfl, fun held rest split _ => ?_⟩
          have absent : path ∉ files.there := of_decide_eq_true possible
          refine (PartFiles.create_there absent).trans ?_
          rw [split]
          exact (Multiset.cons_add _ _ _).symm
  | removeFile path =>
      have present := needs path rfl
      cases answer with
      | error error => exact absurd present (of_decide_eq_true possible)
      | ok value =>
          refine ⟨.loses path, rfl, fun held rest split fits => ?_⟩
          refine (PartFiles.unlink_there present).trans ?_
          rw [split]
          exact Multiset.erase_add_left_pos _ fits
  | _ => exact ⟨.keeps, rfl, fun held rest split _ => split⟩

theorem Call.follows : Follows Call.rules Call.possible Call.leaves := by
  intro files request answer possible needs
  cases request with
  | spool source data => cases possible
  | removeDirAll => cases possible
  | rename source hash =>
      cases answer with
      | error error => exact ⟨.keeps, rfl, fun held rest split _ => split⟩
      | ok value =>
          refine ⟨.loses source, rfl, fun held rest split fits => ?_⟩
          refine (PartFiles.adopt_there (needs source rfl)).trans ?_
          rw [split]
          exact Multiset.erase_add_left_pos _ fits
  | removeSpool source =>
      have present := needs source rfl
      cases answer with
      | error error => exact absurd present (of_decide_eq_true possible)
      | ok value =>
          refine ⟨.loses source, rfl, fun held rest split fits => ?_⟩
          refine (PartFiles.unlink_there present).trans ?_
          rw [split]
          exact Multiset.erase_add_left_pos _ fits
  | _ => exact ⟨.keeps, rfl, fun held rest split _ => split⟩

theorem JobCall.follows : Follows JobCall.rules JobCall.possible JobCall.leaves := by
  intro files request answer possible needs
  cases request with
  | work call => exact WorkCall.follows files call answer possible needs
  | storage call => exact Call.follows files call answer possible needs

theorem Task.call_keeps {Call : Type} {Answer : Call → Type} {α : Type}
    {rules : Discipline Call Answer SpoolPath}
    {possible : PartFiles → (request : Call) → Answer request → Bool}
    {leaves : PartFiles → (request : Call) → Answer request → PartFiles}
    (follows : Follows rules possible leaves) {carried : α → Multiset SpoolPath}
    {task : Task Call Answer α} (owns : Program.Owns rules carried task.program task.owners)
    (reply : (request : Call) → Answer request) {files : PartFiles} {rest : Multiset SpoolPath}
    (split : files.there.val = task.owners + rest) :
    let after := task.call rules possible leaves reply files
    Program.Owns rules carried after.1.program after.1.owners ∧
      after.2.there.val = after.1.owners + rest := by
  obtain ⟨program, owners⟩ := task
  cases program with
  | ret value => exact ⟨owns, split⟩
  | call request next =>
      unfold Task.call
      dsimp only at owns split ⊢
      cases allowed : possible files request (reply request) with
      | false => exact ⟨owns, split⟩
      | true =>
          have needs : ∀ path, rules.needs request = some path → path ∈ files.there := by
            intro path works
            have held := owns.1 path works
            rw [Finset.mem_def, split]
            exact Multiset.mem_add.mpr (.inl held)
          obtain ⟨effect, answered, tracked⟩ := follows files request _ allowed needs
          obtain ⟨fits, later⟩ := owns.2 _ effect answered
          rw [answered]
          exact ⟨later, tracked owners rest split fits⟩

theorem Task.alive_eq {Call : Type} {Answer : Call → Type} {α : Type}
    {rules : Discipline Call Answer SpoolPath} {carried : α → Multiset SpoolPath}
    {task : Task Call Answer α} (owns : Program.Owns rules carried task.program task.owners) :
    Pipeline.alive carried task = task.owners := by
  obtain ⟨program, owners⟩ := task
  cases program with
  | ret value => exact owns
  | call request next => rfl

namespace Intake

open Pipeline

variable {intake : Intake}

theorem unlink_rest {offer : TicketedJob} {files : PartFiles} {rest : Multiset SpoolPath}
    (split : files.there.val = rest + offer.spools) :
    (offer.unlink files).there.val = rest := by
  unfold TicketedJob.unlink
  unfold TicketedJob.spools at split
  cases payload : offer.job.payload with
  | spooled file =>
      rw [payload] at split
      have present : file.path ∈ files.there := by
        rw [Finset.mem_def, split]
        exact Multiset.mem_add.mpr (.inr (Multiset.mem_singleton_self _))
      refine (PartFiles.unlink_there present).trans ?_
      rw [split, Multiset.erase_add_right_pos _ (Multiset.mem_singleton_self _),
        Multiset.erase_singleton, add_zero]
  | memory data =>
      rw [payload] at split
      exact split.trans (add_zero rest)
  | file hash =>
      rw [payload] at split
      exact split.trans (add_zero rest)

@[simp] theorem spools_nil : spools [] = 0 := rfl

@[simp] theorem spools_cons (offer : TicketedJob) (rest : List TicketedJob) :
    spools (offer :: rest) = offer.spools + spools rest :=
  List.sum_cons

@[simp] theorem spools_append (first second : List TicketedJob) :
    spools (first ++ second) = spools first + spools second := by
  unfold spools
  rw [List.map_append, List.sum_append]

theorem moves_spools {after : Intake} (moved : Moves intake after)
    (offered : after.offered = intake.offered) (received : after.received = intake.received)
    {rest : Multiset SpoolPath}
    (split : intake.files.there.val = rest + spools intake.waiting) :
    after.files.there.val = rest + spools after.waiting := by
  unfold waiting at split ⊢
  cases moved with
  | rests => exact split
  | arrives => simpa [inHand_split, inHand] using split
  | offers => exact absurd offered (by simp)
  | stays found =>
      rw [found] at split
      simpa [inHand_split] using split
  | reserves found =>
      rw [found] at split
      simpa [inHand_split, TicketedJob.withPermit, TicketedJob.spools] using split
  | queues found =>
      rw [found] at split
      refine split.trans ?_
      simp only [inHand_split, spools_append, Option.map_some, Option.map_none, Option.toList_some,
        Option.toList_none, spools_cons, spools_nil, add_zero]
      ac_rfl
  | drops found =>
      rw [found] at split
      refine unlink_rest (split.trans ?_)
      simp only [inHand_split, spools_append, Option.map_some, Option.map_none, Option.toList_some,
        Option.toList_none, spools_cons, spools_nil, add_zero]
      ac_rfl
  | receives => exact absurd received (by simp)
  | finishes => exact split
  | hangsUp => exact split
  | discards _ found =>
      rw [found] at split
      refine unlink_rest (split.trans ?_)
      simp only [spools_append, spools_cons]
      ac_rfl

/-- An idle producer's call adds its payload to what waits. -/
theorem call_waiting {index calls : Nat} (mime : Str) (payload : Payload)
    (found : intake.producers[index]? = some { calls := calls, current := none }) :
    (intake.step (.call index mime payload)).files = intake.files ∧
      (intake.step (.call index mime payload)).worker = intake.worker ∧
        spools (intake.step (.call index mime payload)).waiting =
          spools intake.waiting +
            TicketedJob.spools
              { ticket := { producer := index, number := calls }
                job := .fromPayload mime payload } := by
  obtain ⟨before, last, split, rfl, set⟩ := Lists.split_at found
  have stepped : intake.step (.call before.length mime payload) =
      { intake with
        producers := before ++
          { calls := calls + 1
            current := some
              { offer :=
                  { ticket := { producer := before.length, number := calls }
                    job := .fromPayload mime payload }
                place := .entry } } :: last
        offered := intake.offered ++ [{ producer := before.length, number := calls }] } := by
    unfold step
    dsimp only
    rw [found]
    dsimp only
    rw [set]
  rw [stepped]
  refine ⟨rfl, rfl, ?_⟩
  unfold waiting
  rw [split]
  simp only [inHand_split, spools_append, Option.map_some, Option.map_none, Option.toList_some,
    Option.toList_none, spools_cons, spools_nil, add_zero]
  ac_rfl

theorem call_refused {index : Nat} {mime : Str} {payload : Payload}
    (busy : ∀ calls, intake.producers[index]? ≠ some { calls := calls, current := none }) :
    intake.step (.call index mime payload) = intake := by
  unfold step
  dsimp only
  split
  · rename_i calls found
    exact absurd found (busy calls)
  · rfl

theorem receive_waiting {offer : TicketedJob} {rest : List TicketedJob}
    (listening : intake.receiver = true) (free : intake.worker = none)
    (found : intake.queue = offer :: rest) :
    (intake.step .receive).files = intake.files ∧
      (intake.step .receive).worker = some offer ∧
        spools intake.waiting = spools (intake.step .receive).waiting + offer.spools := by
  have stepped : intake.step .receive =
      { intake with
        queue := rest
        worker := some offer
        received := intake.received ++ [offer.ticket] } := by
    unfold step
    dsimp only
    rw [listening, free, found]
  rw [stepped]
  refine ⟨rfl, rfl, ?_⟩
  unfold waiting
  rw [found]
  simp only [spools_append, spools_cons]
  ac_rfl

theorem finish_waiting (intake : Intake) :
    (intake.step .finish).files = intake.files ∧
      (intake.step .finish).waiting = intake.waiting := by
  unfold step
  dsimp only
  split <;> exact ⟨rfl, rfl⟩

end Intake

namespace Pipeline

def spoolingOwners (pipeline : Pipeline) : Multiset SpoolPath :=
  (pipeline.spooling.map Task.owners).sum

def storingOwners (pipeline : Pipeline) : Multiset SpoolPath :=
  (pipeline.storing.map Task.owners).getD 0

structure Kept (pipeline : Pipeline) : Prop where
  sound : pipeline.ingest.AllSound
  spooling : ∀ task ∈ pipeline.spooling,
    Program.Owns WorkCall.rules SpoolOutcome.spools task.program task.owners
  storing : ∀ task, pipeline.storing = some task →
    Program.Owns JobCall.rules (fun _ => 0) task.program task.owners
  idle : pipeline.ingest.worker = none → pipeline.storing = none
  exact : pipeline.ingest.files.there.val =
    pipeline.spoolingOwners + pipeline.storingOwners + spools pipeline.ingest.waiting

variable {pipeline : Pipeline}

theorem Kept.quiet (kept : pipeline.Kept) (action : IntakeAction)
    (silent : action.isCall = false) (aside : action.ofWorker = false) :
    Kept { pipeline with ingest := pipeline.ingest.step action } := by
  have offered := Intake.step_offered silent pipeline.ingest
  obtain ⟨received, worker⟩ := Intake.step_worker aside pipeline.ingest
  have moved := Intake.step_moves kept.sound action
  exact {
    sound := Intake.moves_sound moved kept.sound
    spooling := kept.spooling
    storing := kept.storing
    idle := fun free => kept.idle (worker.symm.trans free)
    exact := Intake.moves_spools moved offered received kept.exact }

theorem Kept.offer (kept : pipeline.Kept) {index calls : Nat} (mime : Str) (payload : Payload)
    (found : pipeline.ingest.producers[index]? = some { calls := calls, current := none })
    {spooling : List (Task WorkCall WorkCall.Answer SpoolOutcome)}
    (rest : ∀ task ∈ spooling, task ∈ pipeline.spooling)
    (passed : pipeline.spoolingOwners =
      (spooling.map Task.owners).sum +
        TicketedJob.spools
          { ticket := { producer := index, number := calls }, job := .fromPayload mime payload }) :
    Kept { pipeline with
      ingest := pipeline.ingest.step (.call index mime payload)
      spooling := spooling } := by
  obtain ⟨files, worker, waits⟩ := Intake.call_waiting mime payload found
  have moved := Intake.step_moves kept.sound (.call index mime payload)
  exact {
    sound := Intake.moves_sound moved kept.sound
    spooling := fun task member => kept.spooling task (rest task member)
    storing := kept.storing
    idle := fun free => kept.idle (worker.symm.trans free)
    exact := by
      change (pipeline.ingest.step _).files.there.val =
        (spooling.map Task.owners).sum + pipeline.storingOwners + spools (Intake.waiting _)
      rw [files, waits, kept.exact, passed]
      ac_rfl }

theorem sum_split {spooling before last : List (Task WorkCall WorkCall.Answer SpoolOutcome)}
    {task : Task WorkCall WorkCall.Answer SpoolOutcome} (split : spooling = before ++ task :: last) :
    (spooling.map Task.owners).sum = ((before ++ last).map Task.owners).sum + task.owners := by
  rw [split]
  simp only [List.map_append, List.map_cons, List.sum_append, List.sum_cons]
  ac_rfl

theorem Kept.spooling_share (kept : pipeline.Kept)
    {before last : List (Task WorkCall WorkCall.Answer SpoolOutcome)}
    {task : Task WorkCall WorkCall.Answer SpoolOutcome}
    (split : pipeline.spooling = before ++ task :: last) :
    pipeline.ingest.files.there.val = task.owners +
      (((before ++ last).map Task.owners).sum + pipeline.storingOwners +
        spools pipeline.ingest.waiting) := by
  rw [kept.exact]
  unfold spoolingOwners
  rw [sum_split split]
  ac_rfl

theorem Kept.storing_share (kept : pipeline.Kept)
    {task : Task JobCall JobCall.Answer (Except String (Option Saved))}
    (found : pipeline.storing = some task) :
    pipeline.ingest.files.there.val = task.owners +
      (pipeline.spoolingOwners + spools pipeline.ingest.waiting) := by
  rw [kept.exact]
  unfold storingOwners
  rw [found]
  simp only [Option.map_some, Option.getD_some]
  ac_rfl

section
variable {sha3 : Bytes → Bytes} (digests : ∀ data, (sha3 data).length = digestLen)
include digests

theorem Kept.spool (kept : pipeline.Kept) (head : Bytes) (src : Reader) (limit : UInt64) :
    Kept (pipeline.step sha3 (.spool head src limit)) where
  sound := kept.sound
  spooling := by
    intro task member
    rcases List.mem_append.mp member with old | new
    · exact kept.spooling task old
    · rw [List.mem_singleton.mp new]
      exact FileSpooler.spool_owns digests _ head src limit
  storing := kept.storing
  idle := kept.idle
  exact := by
    refine kept.exact.trans ?_
    unfold spoolingOwners step
    simp only [List.map_append, List.map_cons, List.map_nil, List.sum_append, List.sum_cons,
      List.sum_nil, add_zero]
    rfl

theorem Kept.receive (kept : pipeline.Kept) (now : Int) (tie : TieOrder) (maxHistory : UInt64) :
    Kept (pipeline.step sha3 (.receive now tie maxHistory)) := by
  unfold step
  dsimp only
  split
  · rename_i offer rest listening free found
    obtain ⟨files, worker, waits⟩ := Intake.receive_waiting listening free found
    have moved := Intake.step_moves kept.sound .receive
    have empty := kept.idle free
    have owns : ∀ task, taken sha3 now tie maxHistory offer = some task →
        Program.Owns JobCall.rules (fun _ => 0) task.program task.owners := by
      intro task took
      unfold taken at took
      split at took
      · cases took
        exact storeSpooled_owns digests now tie _ _ maxHistory
      · cases took
    have passed : ((taken sha3 now tie maxHistory offer).map Task.owners).getD 0 = offer.spools := by
      unfold taken TicketedJob.spools
      cases offer.job.payload <;> rfl
    exact {
      sound := Intake.moves_sound moved kept.sound
      spooling := kept.spooling
      storing := owns
      idle := fun other => absurd (worker.symm.trans other) nofun
      exact := by
        change (pipeline.ingest.step .receive).files.there.val =
          pipeline.spoolingOwners + ((taken sha3 now tie maxHistory offer).map Task.owners).getD 0 +
            spools (Intake.waiting _)
        have share := kept.exact
        unfold storingOwners at share
        rw [empty, waits] at share
        rw [files, passed, share]
        simp only [Option.map_none, Option.getD_none, add_zero]
        ac_rfl }
  · exact kept

end

theorem Kept.spoolCall (kept : pipeline.Kept) (sha3 : Bytes → Bytes) (index : Nat)
    (reply : (call : WorkCall) → call.Answer) :
    Kept (pipeline.step sha3 (.spoolCall index reply)) := by
  unfold step
  dsimp only
  cases found : pipeline.spooling[index]? with
  | none => exact kept
  | some task =>
      obtain ⟨before, last, split, rfl, set⟩ := Lists.split_at found
      have member : task ∈ pipeline.spooling := List.mem_of_getElem? found
      obtain ⟨owns, after⟩ := Task.call_keeps WorkCall.follows (kept.spooling task member) reply
        (kept.spooling_share split)
      dsimp only
      rw [set]
      exact {
        sound := kept.sound
        spooling := by
          intro other among
          rcases List.mem_append.mp among with early | late
          · exact kept.spooling other (split ▸ List.mem_append_left _ early)
          · rcases List.mem_cons.mp late with rfl | late
            · exact owns
            · refine kept.spooling other ?_
              rw [split]
              exact List.mem_append_right _ (List.mem_cons_of_mem _ late)
        storing := kept.storing
        idle := kept.idle
        exact := by
          refine after.trans ?_
          unfold spoolingOwners
          dsimp only
          rw [sum_split rfl]
          change _ = _ + _ + pipeline.storingOwners + spools pipeline.ingest.waiting
          ac_rfl }

theorem Kept.storeCall (kept : pipeline.Kept) (sha3 : Bytes → Bytes)
    (reply : (call : JobCall) → call.Answer) :
    Kept (pipeline.step sha3 (.storeCall reply)) := by
  unfold step
  dsimp only
  cases found : pipeline.storing with
  | none => exact kept
  | some task =>
      obtain ⟨owns, after⟩ := Task.call_keeps JobCall.follows (kept.storing task found) reply
        (kept.storing_share found)
      exact {
        sound := kept.sound
        spooling := kept.spooling
        storing := by
          intro other same
          cases same
          exact owns
        idle := fun free => absurd (found.symm.trans (kept.idle free)) nofun
        exact := by
          refine after.trans ?_
          change _ = pipeline.spoolingOwners + _ + spools pipeline.ingest.waiting
          simp only [storingOwners, Option.map_some, Option.getD_some]
          ac_rfl }

theorem Kept.offerSpooled (kept : pipeline.Kept) (sha3 : Bytes → Bytes) (index producer : Nat)
    (mime : Str) : Kept (pipeline.step sha3 (.offerSpooled index producer mime)) := by
  unfold step
  dsimp only
  split
  · rename_i file owners calls spooled idle
    obtain ⟨before, last, split, rfl, _⟩ := Lists.split_at spooled
    have member := List.mem_of_getElem? spooled
    have carried : ({file.path} : Multiset SpoolPath) = owners := kept.spooling _ member
    have rest : pipeline.spooling.eraseIdx before.length = before ++ last := by
      rw [split, List.eraseIdx_append_of_length_le (Nat.le_refl _), Nat.sub_self]
      rfl
    rw [rest]
    refine kept.offer mime (.spooled file) idle ?_ ?_
    · intro task among
      rw [split]
      rcases List.mem_append.mp among with early | late
      · exact List.mem_append_left _ early
      · exact List.mem_append_right _ (List.mem_cons_of_mem _ late)
    · refine (sum_split split).trans ?_
      rw [← carried]
      rfl
  · exact kept

theorem Kept.offerMemory (kept : pipeline.Kept) (sha3 : Bytes → Bytes) (producer : Nat)
    (mime : Str) (data : Bytes) :
    Kept (pipeline.step sha3 (.offerMemory producer mime data)) := by
  by_cases free : ∃ calls, pipeline.ingest.producers[producer]? =
      some { calls := calls, current := none }
  · obtain ⟨calls, found⟩ := free
    exact kept.offer mime (.memory data) found (fun _ member => member) (add_zero _).symm
  · have refused : pipeline.ingest.step (.call producer mime (.memory data)) = pipeline.ingest :=
      Intake.call_refused fun calls found => free ⟨calls, found⟩
    unfold step
    dsimp only
    rw [refused]
    exact kept

theorem Kept.finish (kept : pipeline.Kept) (sha3 : Bytes → Bytes) :
    Kept (pipeline.step sha3 .finish) := by
  have ended : pipeline.storingOwners = 0 →
      Kept { pipeline with ingest := pipeline.ingest.step .finish, storing := none } := by
    intro empty
    obtain ⟨files, waits⟩ := Intake.finish_waiting pipeline.ingest
    have moved := Intake.step_moves kept.sound .finish
    exact {
      sound := Intake.moves_sound moved kept.sound
      spooling := kept.spooling
      storing := nofun
      idle := fun _ => rfl
      exact := by
        change (pipeline.ingest.step .finish).files.there.val =
          pipeline.spoolingOwners + 0 + spools (pipeline.ingest.step .finish).waiting
        rw [files, waits, kept.exact, empty] }
  unfold step
  dsimp only
  split
  · exact kept
  · rename_i unasked
    refine ended ?_
    unfold storingOwners
    cases found : pipeline.storing with
    | none => rfl
    | some task =>
        obtain ⟨program, owners⟩ := task
        cases program with
        | ret value => exact (kept.storing _ found).symm
        | call request next => exact absurd found (unasked request next owners)

section
variable {sha3 : Bytes → Bytes} (digests : ∀ data, (sha3 data).length = digestLen)
include digests

theorem Kept.step (kept : pipeline.Kept) (action : PipelineAction) :
    Kept (pipeline.step sha3 action) := by
  cases action with
  | spool head src limit => exact kept.spool digests head src limit
  | spoolCall index reply => exact kept.spoolCall sha3 index reply
  | offerSpooled index producer mime => exact kept.offerSpooled sha3 index producer mime
  | offerMemory producer mime data => exact kept.offerMemory sha3 producer mime data
  | arrive => exact kept.quiet .arrive rfl rfl
  | advance producer spurious elapsed => exact kept.quiet (.advance producer spurious elapsed) rfl rfl
  | receive now tie maxHistory => exact kept.receive digests now tie maxHistory
  | storeCall reply => exact kept.storeCall sha3 reply
  | finish => exact kept.finish sha3
  | hangUp => exact kept.quiet .hangUp rfl rfl
  | discard => exact kept.quiet .discard rfl rfl

theorem Kept.run (kept : pipeline.Kept) (actions : List PipelineAction) :
    Kept (pipeline.run sha3 actions) := by
  induction actions generalizing pipeline with
  | nil => exact kept
  | cons action rest ih => exact ih (kept.step digests action)

end

theorem start_kept (limit : UInt64) (capacity : Nat) : Kept (start limit capacity) where
  sound := nofun
  spooling := nofun
  storing := nofun
  idle := fun _ => rfl
  exact := rfl

theorem Kept.owners_eq (kept : pipeline.Kept) : pipeline.owners = pipeline.ingest.files.there.val := by
  have spooling : pipeline.spooling.map (alive SpoolOutcome.spools) =
      pipeline.spooling.map Task.owners :=
    List.map_congr_left fun task member => Task.alive_eq (kept.spooling task member)
  have storing : pipeline.storing.map (alive fun _ => 0) = pipeline.storing.map Task.owners :=
    Option.map_congr fun task found => Task.alive_eq (kept.storing task found)
  unfold owners
  rw [kept.exact, spooling, storing]
  unfold spoolingOwners storingOwners
  ac_rfl

-- What holds of every moment of the pipeline: a file that is there has its one owner, the
-- others were moved into the cache or unlinked, and calls work on files that are there.
structure Custody (sha3 : Bytes → Bytes) (pipeline : Pipeline) : Prop where
  owned : pipeline.owners = pipeline.ingest.files.there.val
  ledger : pipeline.ingest.files.created =
    pipeline.owners + pipeline.ingest.files.adopted + pipeline.ingest.files.unlinked
  spoolers : ∀ task ∈ pipeline.spooling, ∀ call next path, task.program = .call call next →
    WorkCall.rules.needs call = some path → path ∈ pipeline.ingest.files.there
  worker : ∀ task, pipeline.storing = some task → ∀ call next path,
    task.program = .call call next → JobCall.rules.needs call = some path →
      path ∈ pipeline.ingest.files.there
  gone : ∀ action, ∀ path ∈ pipeline.ingest.files.there,
    path ∉ (pipeline.step sha3 action).ingest.files.there →
      pipeline.owners.count path = 1 ∧ path ∉ (pipeline.step sha3 action).owners
  finished : pipeline.Finished → pipeline.ingest.files.there = ∅

theorem Kept.finished (kept : pipeline.Kept) (ended : pipeline.Finished) :
    pipeline.ingest.files.there = ∅ := by
  obtain ⟨returned, empty⟩ := ended
  obtain ⟨unheard, received⟩ := List.append_eq_nil_iff.mp empty
  have free : pipeline.ingest.worker = none := Option.toList_eq_nil_iff.mp received
  have spooled : pipeline.spoolingOwners = 0 := by
    refine List.sum_eq_zero fun owners member => ?_
    obtain ⟨task, among, rfl⟩ := List.mem_map.mp member
    obtain ⟨outcome, ended, none⟩ := returned task among
    have owns := kept.spooling task among
    rw [ended] at owns
    exact (none.symm.trans owns).symm
  have share := kept.exact
  unfold storingOwners at share
  rw [spooled, kept.idle free, unheard] at share
  exact Finset.val_eq_zero.mp share

theorem Task.works_there {Call : Type} {Answer : Call → Type} {α : Type}
    {rules : Discipline Call Answer SpoolPath} {carried : α → Multiset SpoolPath}
    {task : Task Call Answer α} (owns : Program.Owns rules carried task.program task.owners)
    {files : PartFiles} (held : task.owners ≤ files.there.val) {call : Call}
    {next : Answer call → Program Call Answer α} {path : SpoolPath}
    (issues : task.program = .call call next) (works : rules.needs call = some path) :
    path ∈ files.there := by
  rw [issues] at owns
  exact Multiset.mem_of_le held (owns.1 path works)

theorem Kept.custody {sha3 : Bytes → Bytes} (digests : ∀ data, (sha3 data).length = digestLen)
    (kept : pipeline.Kept) : Custody sha3 pipeline where
  owned := kept.owners_eq
  ledger := by
    rw [kept.owners_eq]
    exact pipeline.ingest.files.ledger
  spoolers := by
    intro task member call next path issues works
    obtain ⟨before, last, split⟩ := List.append_of_mem member
    refine Task.works_there (kept.spooling task member) ?_ issues works
    rw [kept.spooling_share split]
    exact Multiset.le_add_right _ _
  worker := by
    intro task found call next path issues works
    refine Task.works_there (kept.storing task found) ?_ issues works
    rw [kept.storing_share found]
    exact Multiset.le_add_right _ _
  gone := by
    intro action path there away
    rw [kept.owners_eq, (kept.step digests action).owners_eq]
    exact ⟨Multiset.count_eq_one_of_mem (Finset.nodup _) there, away⟩
  finished := kept.finished

end Pipeline

/-- At every moment of the pipeline the spool files that are there are those that have an owner, and
each of them has one. -/
theorem spool_custody (sha3 : Bytes → Bytes) (digests : ∀ data, (sha3 data).length = digestLen)
    (limit : UInt64) (capacity : Nat) (actions : List PipelineAction) :
    Pipeline.Custody sha3 ((Pipeline.start limit capacity).run sha3 actions) :=
  ((Pipeline.start_kept limit capacity).run digests actions).custody digests

def calmReply : (call : WorkCall) → call.Answer
  | .createNew _ | .writeAll .. | .removeFile _ => .ok ()
  | .copyToFile .. => (.error .empty, [])
  | .openFile _ | .readAt .. => .ok []
  | .convertBuffer .. => .ok []
  | .convertFile .. => .ok (0, [])
  | .acquirePermit => none
  | .acquireSlot | .isAvailable => true
  | .releaseSlot | .resolvePermit .. => ()

theorem spool_custody_sample :
    let queued := (Pipeline.start 64 1).run convertedSha3
      [.arrive, .spool sampleImage (.pipe [] []) 64, .spoolCall 0 calmReply,
        .spoolCall 0 calmReply, .spoolCall 0 calmReply, .offerSpooled 0 0 "image/png".toList,
        .advance 0 false false, .advance 0 false false, .advance 0 false false,
        .advance 0 false false]
    Pipeline.Custody convertedSha3 queued ∧ queued.ingest.files.there = {freshPath 0} ∧
      queued.ingest.queue.length = 1 := by
  refine ⟨spool_custody convertedSha3 convertedSha3_length 64 1 _, ?_, ?_⟩
  · decide
  · decide

end Y4p
