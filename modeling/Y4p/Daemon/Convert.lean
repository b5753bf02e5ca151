import Y4p.Daemon.Worker
import Y4p.Daemon.Workshop

/-!
The worker's two conversion roads agree: a payload in memory, and the same payload in a
spool file.
-/

namespace Y4p

open Programs

structure Spooled (sha3 : Bytes → Bytes) (source : SpooledFile) (data : Bytes) (dir : SpoolDir) :
    Prop where
  held : dir source.path = some data
  len : source.len.toNat = data.length
  digest : source.digest = sha3 data
  free : dir (derivedPath source.path) = none

structure ConvertsAlike (memory : (Str × Bytes × Str) × Shop) (file : (Str × SpooledFile) × Shop) :
    Prop where
  mime : file.1.1 = memory.1.1
  bytes : file.2.dir file.1.2.path = some memory.1.2.1
  len : file.1.2.len.toNat = memory.1.2.1.length
  key : file.1.2.hexDigest = memory.1.2.2
  calls : file.2.calls = memory.2.calls
  breaker : file.2.breaker = memory.2.breaker
  throttle : file.2.throttle = memory.2.throttle

def Shop.settle (setting : Setting) (permit : Permit) (outcome : PermitOutcome) (shop : Shop) :
    Shop :=
  { shop with
    breaker := (permit.resolveAt outcome setting.told shop.breaker).2
    throttle := shop.throttle.release }

section
variable {sha3 : Bytes → Bytes} {setting : Setting} {source : SpooledFile} {data : Bytes}
  {shop : Shop}

/-- Whether an attempt is made, and under which permit, is decided before it. -/
theorem attemptGuarded_cases (setting : Setting) (shop : Shop) :
    ∃ before : Shop, before.dir = shop.dir ∧ before.calls = shop.calls ∧
      ((∀ {T : Type} (attempt : Work (Except PipelineError T)) (usable : T → Bool),
          Program.exec (WorkCall.run setting) (attemptGuarded attempt usable) shop =
            (none, before)) ∨
        ∃ permit, ∀ {T : Type} (attempt : Work (Except PipelineError T)) (usable : T → Bool),
          Program.exec (WorkCall.run setting) (attemptGuarded attempt usable) shop =
            let attempted := Program.exec (WorkCall.run setting) attempt before
            ((judge usable attempted.1).2,
              attempted.2.settle setting permit (judge usable attempted.1).1)) := by
  cases asked : shop.breaker.acquireAt setting.asked with
  | mk acquired breaker =>
      have acquires : WorkCall.run setting .acquirePermit shop =
          (acquired, { shop with breaker := breaker }) := by
        simp only [WorkCall.run, asked]
        rfl
      cases acquired with
      | none =>
          refine ⟨{ shop with breaker := breaker }, rfl, rfl, .inl fun attempt usable => ?_⟩
          exact (Program.exec_answer _ acquires).trans rfl
      | some permit =>
          cases taken : shop.throttle.acquire setting.held with
          | mk slot throttle =>
              have takes : WorkCall.run setting .acquireSlot { shop with breaker := breaker } =
                  (slot, { shop with breaker := breaker, throttle := throttle }) := by
                simp only [WorkCall.run, taken]
                rfl
              cases slot with
              | false =>
                  refine ⟨{ shop with
                    breaker := (permit.resolveAt .release setting.told breaker).2
                    throttle := throttle }, rfl, rfl, .inl fun attempt usable => ?_⟩
                  refine (Program.exec_answer _ acquires).trans ?_
                  exact (Program.exec_answer _ takes).trans rfl
              | true =>
                  refine ⟨{ shop with breaker := breaker, throttle := throttle }, rfl, rfl,
                    .inr ⟨permit, fun attempt usable => ?_⟩⟩
                  refine (Program.exec_answer _ acquires).trans ?_
                  refine (Program.exec_answer _ takes).trans ?_
                  change Program.exec _ (attempt >>= _) _ = _
                  rw [Program.exec_bind]
                  rfl

theorem isValidOutput_iff (target : OutputFormat) (output : Bytes) :
    isValidOutput target output = true ↔ detectImageMime output = some target.mime := by
  unfold isValidOutput
  rw [Bool.and_eq_true, decide_eq_true_eq, decide_eq_true_eq]
  exact and_iff_right_of_imp target_ne_nil

structure AttemptsAlike (sha3 : Bytes → Bytes) (source : SpooledFile) (dir : SpoolDir)
    (memory : (PermitOutcome × Option Bytes) × Shop)
    (file : (PermitOutcome × Option SpooledFile) × Shop) : Prop where
  verdict : file.1.1 = memory.1.1
  calls : file.2.calls = memory.2.calls
  breaker : file.2.breaker = memory.2.breaker
  throttle : file.2.throttle = memory.2.throttle
  kept : memory.1.2 = none ∧ file.1.2 = none ∧ file.2.dir = dir ∨
    ∃ output derived, memory.1.2 = some output ∧ file.1.2 = some derived ∧
      derived.path ≠ source.path ∧ file.2.dir derived.path = some output ∧
      derived.len.toNat = output.length ∧ derived.digest = sha3 output

theorem attempts_alike (digests : ∀ data, (sha3 data).length = digestLen)
    (bounded : ∀ job input output, setting.converter job input = .ok output →
      output.length ≤ maxPayloadBytes)
    (spooled : Spooled sha3 source data shop.dir) (job : Transcode) :
    let file := Program.exec (WorkCall.run setting)
      (transcodeSpooled sha3 source (.ofNat maxPayloadBytes) job) shop
    AttemptsAlike sha3 source shop.dir
      (judge (isValidOutput job.output) (setting.converter job data), shop.log job data)
      (judge (fun _ => true) file.1, file.2) := by
  have limit : (UInt64.ofNat maxPayloadBytes).toNat = maxPayloadBytes := by decide
  cases converted : setting.converter job data with
  | error error =>
      rw [transcodeSpooled_fails _ spooled.held spooled.free converted]
      exact ⟨rfl, rfl, rfl, rfl, .inl ⟨rfl, rfl, rfl⟩⟩
  | ok output =>
      have small := bounded job data output converted
      rw [transcodeSpooled_converts digests (by decide) spooled.held spooled.free converted
        (limit ▸ small)]
      by_cases signed : detectImageMime output = some job.output.mime
      · have valid := (isValidOutput_iff job.output output).mpr signed
        rw [if_pos signed, judge_usable valid]
        refine ⟨rfl, rfl, rfl, rfl, .inr ⟨output, _, rfl, rfl, derivedPath_ne source.path, ?_, ?_,
          rfl⟩⟩
        · exact SpoolDir.put_self _ _ _
        · refine UInt64.toNat_ofNat_of_lt ?_
          rw [UInt64.size]
          unfold maxPayloadBytes at small
          omega
      · rw [if_neg signed, judge_unusable fun valid => signed ((isValidOutput_iff _ _).mp valid)]
        exact ⟨rfl, rfl, rfl, rfl, .inl ⟨rfl, rfl, rfl⟩⟩

theorem converts_original (spooled : Spooled sha3 source data shop.dir) (mime : Str)
    {after : Shop} (kept : after.dir = shop.dir) :
    ConvertsAlike ((mime, data, fingerprint sha3 data), after) ((mime, source), after) where
  mime := rfl
  bytes := kept ▸ spooled.held
  len := spooled.len
  key := congrArg toHex spooled.digest
  calls := rfl
  breaker := rfl
  throttle := rfl

theorem converterCall_exec {T : Type} (run : Work (Except PipelineError T)) :
    Program.exec (WorkCall.run setting) (converterCall run) shop =
      if setting.available then Program.exec (WorkCall.run setting) run shop
      else (.error (.spawn "entity not found"), shop) := by
  have asked : WorkCall.run setting .isAvailable shop = (setting.available, shop) := rfl
  refine (Program.exec_answer _ asked).trans ?_
  cases setting.available <;> rfl

theorem transcode_exec (job : Transcode) (input : Bytes) :
    Program.exec (WorkCall.run setting) (transcode job input) shop =
      (setting.converter job input, shop.log job input) := rfl

theorem readHead_exec (spooled : Spooled sha3 source data shop.dir) :
    Program.exec (WorkCall.run setting) (readHead source.path) shop =
      (data.take sniffHeadBytes, shop) := by
  have opened : WorkCall.run setting (.openFile source.path) shop = (.ok data, shop) := by
    simp only [WorkCall.run, spooled.held]
  exact Program.exec_answer _ opened

theorem roads_alike (digests : ∀ data, (sha3 data).length = digestLen)
    (bounded : ∀ job input output, setting.converter job input = .ok output →
      output.length ≤ maxPayloadBytes)
    (spooled : Spooled sha3 source data shop.dir) (mime : Str) :
    ConvertsAlike (Program.exec (WorkCall.run setting) (processJob sha3 mime data) shop)
      (Program.exec (WorkCall.run setting) (convertIfWanted sha3 mime source) shop) := by
  unfold processJob convertIfWanted routeForIngest routeFileForIngest routeWith routeFileWith
  rw [Program.exec_bind, Program.exec_bind, readHead_exec spooled, plan_take]
  dsimp only
  cases planned : plan mime data with
  | none => exact converts_original spooled mime rfl
  | some job =>
      obtain ⟨before, sameDir, sameCalls, skipped | ⟨permit, attempted⟩⟩ :=
        attemptGuarded_cases setting shop
      · simp only [Program.exec_bind, skipped]
        exact converts_original spooled mime sameDir
      · have alike := attempts_alike digests bounded (sameDir.symm ▸ spooled) job
        simp only [Program.exec_bind, attempted, converterCall_exec, transcode_exec]
        cases setting.available with
        | false => exact converts_original spooled mime sameDir
        | true =>
            simp only [if_true]
            generalize Program.exec (WorkCall.run setting)
              (transcodeSpooled sha3 source (.ofNat maxPayloadBytes) job) before = file at alike ⊢
            obtain ⟨verdict, calls, breaker, throttle, ⟨unmade, fileUnmade, kept⟩ | ⟨output, derived,
              made, fileMade, apart, held, len, digest⟩⟩ := alike
            · dsimp only at verdict unmade fileUnmade
              rw [verdict, unmade, fileUnmade]
              exact {
                mime := rfl
                bytes := (congrFun (kept.trans sameDir) source.path).trans spooled.held
                len := spooled.len
                key := congrArg toHex spooled.digest
                calls := calls
                breaker := congrArg (fun breaker => (permit.resolveAt _ setting.told breaker).2)
                  breaker
                throttle := congrArg ProcessThrottle.release throttle }
            · dsimp only at verdict made fileMade
              rw [verdict, made, fileMade]
              simp only [settleRoute, Program.exec_pure, Program.exec_bind, unlink_exec]
              exact {
                mime := rfl
                bytes := (SpoolDir.put_other apart none file.2.dir).trans held
                len := len
                key := congrArg toHex digest
                calls := calls
                breaker := congrArg (fun breaker => (permit.resolveAt _ setting.told breaker).2)
                  breaker
                throttle := congrArg ProcessThrottle.release throttle }

end

/-- A payload in memory and the same payload on disk are converted to the same type and bytes, with
the same reports to the guards; an output of another type than the one wanted is a failure. -/
theorem roads_convert_alike (sha3 : Bytes → Bytes)
    (digests : ∀ data, (sha3 data).length = digestLen) (setting : Setting)
    (bounded : ∀ job input output, setting.converter job input = .ok output →
      output.length ≤ maxPayloadBytes)
    (mime : Str) (data : Bytes) (source : SpooledFile) (shop : Shop)
    (spooled : Spooled sha3 source data shop.dir) :
    ConvertsAlike (Program.exec (WorkCall.run setting) (processJob sha3 mime data) shop)
        (Program.exec (WorkCall.run setting) (convertIfWanted sha3 mime source) shop) ∧
      plan mime (data.take sniffHeadBytes) = plan mime data ∧
      ∀ job output, setting.converter job data = .ok output →
        output = [] ∨ detectImageMime output ≠ some job.output.mime →
        (judge (isValidOutput job.output)
            (Program.exec (WorkCall.run setting) (transcode job data) shop).1).1 = .failure ∧
          (judge (fun _ => true) (Program.exec (WorkCall.run setting)
            (transcodeSpooled sha3 source (.ofNat maxPayloadBytes) job) shop).1).1 = .failure := by
  refine ⟨roads_alike digests bounded spooled mime, plan_take mime data, ?_⟩
  intro job output converted bad
  have unsigned : ¬ isValidOutput job.output output = true := by
    intro valid
    have signed := (isValidOutput_iff job.output output).mp valid
    rcases bad with empty | other
    · exact target_ne_nil signed empty
    · exact other signed
  have memory : (judge (isValidOutput job.output)
      (Program.exec (WorkCall.run setting) (transcode job data) shop).1).1 = .failure := by
    rw [transcode_exec, converted, judge_unusable unsigned]
  refine ⟨memory, ?_⟩
  rw [← memory]
  exact (attempts_alike digests bounded spooled job).verdict

-- SHA3-256 on the payload converted, and as long elsewhere.
def convertedSha3 (data : Bytes) : Bytes :=
  if data = sampleImage then sampleSha3 sampleImage else List.replicate digestLen 0

theorem convertedSha3_length (data : Bytes) : (convertedSha3 data).length = digestLen := by
  unfold convertedSha3
  split
  · decide
  · exact List.length_replicate

def sampleSource : SpooledFile :=
  { path := freshPath 3, len := 4, digest := sampleSha3 sampleImage }

def sampleShop : Shop where
  dir path := if path = sampleSource.path then some sampleImage else none
  calls := []
  breaker := .new 3 30
  throttle := .new 2

def sampleSetting : Setting where
  converter _ input := .ok (input.take 4)
  available := true
  spare := true
  replies := [.fails .eintr, .moves 3]
  asked := 0
  held := 0
  told := 1

theorem roads_convert_alike_sample :
    let memory := Program.exec (WorkCall.run sampleSetting)
      (processJob convertedSha3 "image/png".toList sampleImage) sampleShop
    let file := Program.exec (WorkCall.run sampleSetting)
      (convertIfWanted convertedSha3 "image/png".toList sampleSource) sampleShop
    ConvertsAlike memory file ∧ file.1.2.path = derivedPath sampleSource.path ∧
      memory.2.calls = [(⟨.png, .png⟩, sampleImage)] := by
  have bounded : ∀ job input output, sampleSetting.converter job input = .ok output →
      output.length ≤ maxPayloadBytes := by
    rintro job input output ⟨⟩
    exact (List.length_take_le 4 input).trans (by decide)
  exact ⟨(roads_convert_alike convertedSha3 convertedSha3_length sampleSetting bounded _
    sampleImage sampleSource sampleShop ⟨rfl, rfl, rfl, rfl⟩).1, by decide, by decide⟩

end Y4p
