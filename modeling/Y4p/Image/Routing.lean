import Y4p.Image.Route

/-!
What becomes of a payload, its permit and its slot on every way through `route_with` and
`route_file_with`, whatever the guards and the converter answer.
-/

namespace Y4p

open Programs

structure Guards (R : Type) where
  breaker : CircuitBreaker
  throttle : ProcessThrottle
  rest : R

-- `meanwhile`: what other threads do before a call, up to the end of a wait for a slot.
structure Surroundings (R : Type) where
  meanwhile : WorkCall → Guards R → Guards R
  now : Guards R → Instant
  serve : (call : WorkCall) → Guards R → call.Answer × Guards R

def Surroundings.answer {R : Type} (around : Surroundings R) :
    (call : WorkCall) → Guards R → call.Answer × Guards R
  | .acquirePermit, guards =>
      let (permit, breaker) := guards.breaker.acquireAt (around.now guards)
      (permit, { guards with breaker := breaker })
  | .acquireSlot, guards =>
      let (slot, throttle) := guards.throttle.acquire guards.throttle.inUse
      (slot, { guards with throttle := throttle })
  | .releaseSlot, guards => ((), { guards with throttle := guards.throttle.release })
  | .resolvePermit permit outcome, guards =>
      ((), { guards with
        breaker := (permit.resolveAt outcome (around.now guards) guards.breaker).2 })
  | call, guards => around.serve call guards

def Surroundings.step {R : Type} (around : Surroundings R) (call : WorkCall) (guards : Guards R) :
    call.Answer × Guards R :=
  around.answer call (around.meanwhile call guards)

inductive RouteAttempt (T : Type) where
  | refused
  | saturated (permit : Permit)
  | ran (permit : Permit) (reply : Except PipelineError T) (own : List WorkCall)

section
variable {S T : Type} (step : (call : WorkCall) → S → call.Answer × S)
  (attempt : Work (Except PipelineError T))

def attemptWithin (permit : Permit) (slot : Bool × S) : RouteAttempt T :=
  if slot.1 then
    .ran permit (Program.exec step attempt slot.2).1 (Program.calls step attempt slot.2)
  else .saturated permit

def attemptWith (acquired : Option Permit × S) : RouteAttempt T :=
  match acquired.1 with
  | none => .refused
  | some permit => attemptWithin step attempt permit (step .acquireSlot acquired.2)

def attempted (state : S) : RouteAttempt T :=
  attemptWith step attempt (step .acquirePermit state)

end

namespace RouteAttempt

variable {T : Type} (usable : T → Bool)

def calls : RouteAttempt T → List WorkCall
  | .refused => [.acquirePermit]
  | .saturated permit => [.acquirePermit, .acquireSlot, .resolvePermit permit .release]
  | .ran permit reply own =>
      .acquirePermit :: .acquireSlot :: own ++
        [.releaseSlot, .resolvePermit permit (judge usable reply).1]

def result : RouteAttempt T → Option T
  | .ran _ reply _ => (judge usable reply).2
  | _ => none

end RouteAttempt

theorem attemptGuarded_runs {S T : Type} (step : (call : WorkCall) → S → call.Answer × S)
    (attempt : Work (Except PipelineError T)) (usable : T → Bool) (state : S) :
    (Program.exec step (attemptGuarded attempt usable) state).1 =
        (attempted step attempt state).result usable ∧
      Program.calls step (attemptGuarded attempt usable) state =
        (attempted step attempt state).calls usable := by
  unfold attempted attemptWith
  cases asked : step .acquirePermit state with
  | mk acquired after =>
      cases acquired with
      | none =>
          exact ⟨congrArg Prod.fst (Program.exec_answer step asked), Program.calls_answer step asked⟩
      | some permit =>
          dsimp only
          unfold attemptWithin
          cases taken : step .acquireSlot after with
          | mk slot inside =>
              cases slot with
              | false =>
                  refine ⟨?_, ?_⟩
                  · refine (congrArg Prod.fst (Program.exec_answer step asked)).trans ?_
                    exact congrArg Prod.fst (Program.exec_answer step taken)
                  · refine (Program.calls_answer step asked).trans (congrArg _ ?_)
                    exact Program.calls_answer step taken
              | true =>
                  refine ⟨?_, ?_⟩
                  · refine (congrArg Prod.fst (Program.exec_answer step asked)).trans ?_
                    refine (congrArg Prod.fst (Program.exec_answer step taken)).trans ?_
                    exact congrArg Prod.fst (Program.exec_bind step attempt _ _)
                  · refine (Program.calls_answer step asked).trans (congrArg _ ?_)
                    refine (Program.calls_answer step taken).trans (congrArg _ ?_)
                    exact Program.calls_bind step attempt _ _

inductive ConverterFault {T : Type} (usable : T → Bool) : Except PipelineError T → Prop where
  | failed (code : Option Int) (stderr : String) :
      ConverterFault usable (.error (.failed code stderr))
  | timeout (seconds : Nat) : ConverterFault usable (.error (.timeout seconds))
  | child (error : String) : ConverterFault usable (.error (.child error))
  | invalid (output : T) (bad : usable output = false) : ConverterFault usable (.ok output)

section
variable {T : Type} {usable : T → Bool} {reply : Except PipelineError T}

theorem judge_failure : (judge usable reply).1 = .failure ↔ ConverterFault usable reply := by
  cases reply with
  | ok output =>
      cases good : usable output with
      | true =>
          rw [judge_usable good]
          refine iff_of_false nofun ?_
          rintro ⟨⟩
          rename_i bad
          rw [good] at bad
          cases bad
      | false =>
          rw [judge_unusable (by rw [good]; exact Bool.false_ne_true)]
          exact iff_of_true rfl (.invalid output good)
  | error error =>
      cases error with
      | failed code stderr => exact iff_of_true rfl (.failed code stderr)
      | timeout seconds => exact iff_of_true rfl (.timeout seconds)
      | child error => exact iff_of_true rfl (.child error)
      | _ => exact iff_of_false nofun nofun

theorem judge_success :
    (judge usable reply).1 = .success ↔ ∃ output, reply = .ok output ∧ usable output = true := by
  cases reply with
  | ok output =>
      cases good : usable output with
      | true =>
          rw [judge_usable good]
          exact iff_of_true rfl ⟨output, rfl, good⟩
      | false =>
          rw [judge_unusable (by rw [good]; exact Bool.false_ne_true)]
          refine iff_of_false nofun ?_
          rintro ⟨other, same, fine⟩
          cases same
          rw [good] at fine
          cases fine
  | error error =>
      refine iff_of_false ?_ nofun
      change (if isConverterFault error then PermitOutcome.failure else .release) ≠ .success
      split <;> exact nofun

theorem judge_kept {output : T} :
    (judge usable reply).2 = some output ↔ reply = .ok output ∧ usable output = true := by
  cases reply with
  | ok other =>
      cases good : usable other with
      | true =>
          rw [judge_usable good]
          refine ⟨fun same => ?_, fun same => ?_⟩
          · cases same
            exact ⟨rfl, good⟩
          · cases same.1
            rfl
      | false =>
          rw [judge_unusable (by rw [good]; exact Bool.false_ne_true)]
          refine iff_of_false nofun ?_
          rintro ⟨same, fine⟩
          cases same
          rw [good] at fine
          cases fine
  | error error => exact iff_of_false nofun nofun

end

structure RoutedSafely {T R : Type} (job : Option Transcode) (attempt : Transcode → RouteAttempt T)
    (usable : Transcode → T → Bool) (original : R) (converted : Transcode → T → R) (result : R)
    (calls : List WorkCall) : Prop where
  lossless : result = original ∨ ∃ due permit output own, job = some due ∧
    attempt due = .ran permit (.ok output) own ∧ usable due output = true ∧
      result = converted due output
  bypassed : job = none → result = original ∧ calls = []
  refused : ∀ due, job = some due → attempt due = .refused →
    result = original ∧ calls = [.acquirePermit]
  saturated : ∀ due permit, job = some due → attempt due = .saturated permit →
    result = original ∧ calls = [.acquirePermit, .acquireSlot, .resolvePermit permit .release]
  ran : ∀ due permit reply own, job = some due → attempt due = .ran permit reply own →
    ∃ outcome,
      calls = .acquirePermit :: .acquireSlot :: own ++
        [.releaseSlot, .resolvePermit permit outcome] ∧
      (outcome = .failure ↔ ConverterFault (usable due) reply) ∧
      (outcome = .success ↔ ∃ output, reply = .ok output ∧ usable due output = true) ∧
      ∀ output, reply = .ok output → usable due output = true → result = converted due output

section
variable {T R : Type} {attempt : Transcode → RouteAttempt T} {usable : Transcode → T → Bool}
  {original : R} {converted : Transcode → T → R}

theorem routedSafely_bypassed : RoutedSafely none attempt usable original converted original [] where
  lossless := .inl rfl
  bypassed := fun _ => ⟨rfl, rfl⟩
  refused := fun _ same => nomatch same
  saturated := fun _ _ same => nomatch same
  ran := fun _ _ _ _ same => nomatch same

theorem routedSafely_attempted (due : Transcode) :
    RoutedSafely (some due) attempt usable original converted
      (match (attempt due).result (usable due) with
        | some output => converted due output
        | none => original)
      ((attempt due).calls (usable due)) where
  lossless := by
    cases went : attempt due with
    | refused => exact .inl rfl
    | saturated permit => exact .inl rfl
    | ran permit reply own =>
        dsimp only [RouteAttempt.result]
        cases kept : (judge (usable due) reply).2 with
        | none => exact .inl rfl
        | some output =>
            obtain ⟨rfl, good⟩ := judge_kept.mp kept
            exact .inr ⟨due, permit, output, own, rfl, went, good, rfl⟩
  bypassed := nofun
  refused := by
    rintro other ⟨⟩ went
    rw [went]
    exact ⟨rfl, rfl⟩
  saturated := by
    rintro other permit ⟨⟩ went
    rw [went]
    exact ⟨rfl, rfl⟩
  ran := by
    rintro other permit reply own ⟨⟩ went
    rw [went]
    refine ⟨_, rfl, judge_failure, judge_success, fun output same good => ?_⟩
    dsimp only [RouteAttempt.result]
    rw [judge_kept.mpr ⟨same, good⟩]

end

/-- A converted payload is what the converter returned: in memory only where it carries the
target's signature, from a file as it is. Every permit is resolved once and every slot released. -/
theorem routing_settles {R T : Type} (around : Surroundings R) (guards : Guards R) (mime : Str)
    (payload head : Bytes) (convert : Transcode → Bytes → Work (Except PipelineError Bytes))
    (convertFile : Transcode → Work (Except PipelineError T)) :
    RoutedSafely (plan mime payload)
        (fun due => attempted around.step (convert due payload) guards)
        (fun due => isValidOutput due.output) (mime, payload)
        (fun due output => (due.output.mime, output))
        (Program.exec around.step (routeWith mime payload convert) guards).1
        (Program.calls around.step (routeWith mime payload convert) guards) ∧
      RoutedSafely (plan mime head) (fun due => attempted around.step (convertFile due) guards)
        (fun _ _ => true) .original (fun due output => .converted due.output.mime output)
        (Program.exec around.step (routeFileWith mime head convertFile) guards).1
        (Program.calls around.step (routeFileWith mime head convertFile) guards) := by
  refine ⟨?_, ?_⟩
  · unfold routeWith
    cases due : plan mime payload with
    | none => exact routedSafely_bypassed
    | some job =>
        obtain ⟨result, calls⟩ := attemptGuarded_runs around.step (convert job payload)
          (isValidOutput job.output) guards
        dsimp only
        rw [Program.exec_bind, Program.calls_bind, result, calls]
        have settled : RoutedSafely (some job)
            (fun due => attempted around.step (convert due payload) guards)
            (fun due => isValidOutput due.output) (mime, payload)
            (fun due output => (due.output.mime, output)) _ _ := routedSafely_attempted job
        cases kept : (attempted around.step (convert job payload) guards).result
            (isValidOutput job.output) with
        | none =>
            rw [kept] at settled
            rw [Program.calls_pure, List.append_nil]
            exact settled
        | some output =>
            rw [kept] at settled
            rw [Program.calls_pure, List.append_nil]
            exact settled
  · unfold routeFileWith
    cases due : plan mime head with
    | none => exact routedSafely_bypassed
    | some job =>
        obtain ⟨result, calls⟩ := attemptGuarded_runs around.step (convertFile job)
          (fun _ => true) guards
        dsimp only
        rw [Program.exec_bind, Program.calls_bind, result, calls]
        have settled : RoutedSafely (some job)
            (fun due => attempted around.step (convertFile due) guards) (fun _ _ => true)
            FileRoute.original (fun due output => .converted due.output.mime output) _ _ :=
          routedSafely_attempted job
        cases kept : (attempted around.step (convertFile job) guards).result (fun _ => true) with
        | none =>
            rw [kept] at settled
            rw [Program.calls_pure, List.append_nil]
            exact settled
        | some output =>
            rw [kept] at settled
            rw [Program.calls_pure, List.append_nil]
            exact settled

def WorkCall.refusal : (call : WorkCall) → call.Answer
  | .acquirePermit => none
  | .acquireSlot | .isAvailable => false
  | .releaseSlot | .resolvePermit .. => ()
  | .convertBuffer .. | .convertFile .. => .error (.spawn "entity not found")
  | .openFile _ | .readAt .. => .error "entity not found"
  | .copyToFile .. => (.error .empty, [])
  | .createNew _ | .writeAll .. | .removeFile _ => .error "entity not found"

def noOthers : Surroundings Unit where
  meanwhile _ guards := guards
  now _ := 0
  serve call guards := (call.refusal, guards)

def idleGuards : Guards Unit where
  breaker := .new 3 30
  throttle := .new 2
  rest := ()

/-- A converter of files that answers with an empty output is taken at its word. -/
theorem routing_settles_counterexample :
    (Program.exec noOthers.step
        (routeFileWith "image/png".toList sampleImage fun _ => pure (.ok ([] : Bytes)))
        idleGuards).1 = .converted "image/png".toList [] ∧
      isValidOutput .png [] = false := by
  refine ⟨rfl, rfl⟩

end Y4p
