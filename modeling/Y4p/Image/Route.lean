import Y4p.Image.Transcode

/-!
What becomes of a payload on its way to storage (`crates/image/src/route.rs`): the job
it is due, and the attempt at it under the breaker and the throttle, in memory or from a file.
-/

namespace Y4p

open Programs

def sniffHeadBytes : Nat := 512

def ingestTarget : InputFormat → Option OutputFormat
  | .png | .bmp | .jpeg | .webp => some .png
  | .gif => none

def classify (mime : Str) (payload : Bytes) : Option InputFormat :=
  match detectImageMime (payload.take sniffHeadBytes) with
  | some detected => InputFormat.fromMime detected
  | none => InputFormat.fromMime mime

def plan (mime : Str) (head : Bytes) : Option Transcode :=
  if head = [] then none
  else
    match classify mime head with
    | none => none
    | some input =>
        if input = .webp ∧ isAnimatedWebp head then none
        else (ingestTarget input).map fun output => { input := input, output := output }

def isValidOutput (target : OutputFormat) (converted : Bytes) : Bool :=
  converted ≠ [] && detectImageMime converted = some target.mime

def isConverterFault : PipelineError → Bool
  | .failed _ _ | .timeout _ | .child _ => true
  | _ => false

/-- The first bytes decide. -/
theorem plan_take (mime : Str) (payload : Bytes) :
    plan mime (payload.take sniffHeadBytes) = plan mime payload := by
  have kind : classify mime (payload.take sniffHeadBytes) = classify mime payload := by
    unfold classify
    rw [List.take_take, Nat.min_self]
  have moving : isAnimatedWebp (payload.take sniffHeadBytes) = isAnimatedWebp payload :=
    isAnimatedWebp_take (by decide) payload
  have empty : payload.take sniffHeadBytes = [] ↔ payload = [] := by
    rw [List.take_eq_nil_iff]
    exact or_iff_right (by decide)
  unfold plan
  simp only [kind, moving, empty]

def judge {T : Type} (usable : T → Bool) : Except PipelineError T → PermitOutcome × Option T
  | .ok converted => if usable converted then (.success, some converted) else (.failure, none)
  | .error error => (if isConverterFault error then .failure else .release, none)

theorem judge_usable {T : Type} {usable : T → Bool} {converted : T}
    (good : usable converted = true) :
    judge usable (.ok converted) = (.success, some converted) :=
  if_pos good

theorem judge_unusable {T : Type} {usable : T → Bool} {converted : T}
    (bad : ¬ usable converted = true) : judge usable (.ok converted) = (.failure, none) :=
  if_neg bad

def attemptGuarded {T : Type} (attempt : Work (Except PipelineError T)) (usable : T → Bool) :
    Work (Option T) := do
  let acquired : Option Permit ← Program.ask WorkCall.acquirePermit
  match acquired with
  | none => pure none
  | some permit => do
      let slot : Bool ← Program.ask WorkCall.acquireSlot
      if slot then do
        let result ← attempt
        let _ ← Program.ask WorkCall.releaseSlot
        let judged := judge usable result
        let _ ← Program.ask (WorkCall.resolvePermit permit judged.1)
        pure judged.2
      else do
        let _ ← Program.ask (WorkCall.resolvePermit permit .release)
        pure none

def converterCall {T : Type} (run : Work (Except PipelineError T)) :
    Work (Except PipelineError T) := do
  let available : Bool ← Program.ask WorkCall.isAvailable
  if available then run else pure (.error (.spawn "entity not found"))

def routeWith (mime : Str) (payload : Bytes)
    (convert : Transcode → Bytes → Work (Except PipelineError Bytes)) : Work (Str × Bytes) :=
  match plan mime payload with
  | none => pure (mime, payload)
  | some job => do
      let converted ← attemptGuarded (convert job payload) (isValidOutput job.output)
      match converted with
      | some converted => pure (job.output.mime, converted)
      | none => pure (mime, payload)

inductive FileRoute (T : Type) where
  | original
  | converted (mime : Str) (output : T)

def routeFileWith {T : Type} (mime : Str) (head : Bytes)
    (convert : Transcode → Work (Except PipelineError T)) : Work (FileRoute T) :=
  match plan mime head with
  | none => pure .original
  | some job => do
      let converted ← attemptGuarded (convert job) fun _ => true
      match converted with
      | some output => pure (.converted job.output.mime output)
      | none => pure .original

def routeForIngest (mime : Str) (payload : Bytes) : Work (Str × Bytes) :=
  routeWith mime payload fun job input => converterCall (transcode job input)

def routeFileForIngest {T : Type} (mime : Str) (head : Bytes)
    (convert : Transcode → Work (Except PipelineError T)) : Work (FileRoute T) :=
  routeFileWith mime head fun job => converterCall (convert job)

end Y4p
