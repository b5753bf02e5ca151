import Y4p.Daemon.Spool
import Y4p.Image.Route

/-!
A system on which the spool directory never fails: what the spooler and the converter
leave there.
-/

namespace Y4p

open Programs

def SpoolDir.put (path : SpoolPath) (file : Option Bytes) (dir : SpoolDir) : SpoolDir :=
  fun other => if other = path then file else dir other

@[simp] theorem SpoolDir.put_self (path : SpoolPath) (file : Option Bytes) (dir : SpoolDir) :
    dir.put path file path = file :=
  if_pos rfl

theorem SpoolDir.put_other {path other : SpoolPath} (apart : other ≠ path) (file : Option Bytes)
    (dir : SpoolDir) : dir.put path file other = dir other :=
  if_neg apart

@[simp] theorem SpoolDir.put_put (path : SpoolPath) (first second : Option Bytes)
    (dir : SpoolDir) : (dir.put path first).put path second = dir.put path second := by
  funext other
  unfold SpoolDir.put
  split <;> rfl

theorem SpoolDir.put_absent {path : SpoolPath} {dir : SpoolDir} (absent : dir path = none) :
    dir.put path none = dir := by
  funext other
  unfold SpoolDir.put
  split
  · rename_i same
    rw [same, absent]
  · rfl

abbrev Converter := Transcode → Bytes → Except PipelineError Bytes

-- `spare` and `replies`: how the kernel moves a stream into a file. The clock is read when the
-- breaker is asked and when it is told; `held` slots are in use when the wait for one ends.
structure Setting where
  converter : Converter
  available : Bool
  spare : Bool
  replies : List Splice.Reply
  asked : Instant
  held : Nat
  told : Instant

structure Shop where
  dir : SpoolDir
  calls : List (Transcode × Bytes)
  breaker : CircuitBreaker
  throttle : ProcessThrottle

namespace Shop

def put (path : SpoolPath) (file : Option Bytes) (shop : Shop) : Shop :=
  { shop with dir := shop.dir.put path file }

def append (path : SpoolPath) (data : Bytes) (shop : Shop) : Shop :=
  shop.put path ((shop.dir path).map (· ++ data))

def log (job : Transcode) (input : Bytes) (shop : Shop) : Shop :=
  { shop with calls := shop.calls ++ [(job, input)] }

end Shop

def Setting.copy (setting : Setting) (stream : Bytes) (limit : UInt64) :
    Except PayloadError Nat × Bytes × Bytes :=
  let (copied, copy) := Splice.copyToFile true setting.spare limit
    (stream.length + setting.replies.length + 1) (.start stream true setting.replies)
  let moved : Except PayloadError Nat :=
    match copied with
    | some (.ok copied) => .ok copied.len
    | some (.error error) => .error error
    -- The turns given are enough.
    | none => .error (.io "the copy did not end")
  (moved, copy.kernel.file, copy.tap.seen)

-- `run_filter_file_in_env` takes an empty output for the caller to judge.
def drained : Except PayloadError Nat → Except PipelineError Nat
  | .ok len => .ok len
  | .error .empty => .ok 0
  | .error (.tooLarge limit) => .error (.sink s!"output exceeds the {limit}-byte limit")
  | .error (.io error) => .error (.sink error)

def WorkCall.run (setting : Setting) : (call : WorkCall) → Shop → call.Answer × Shop
  | .acquirePermit, shop =>
      let (permit, breaker) := shop.breaker.acquireAt setting.asked
      (permit, { shop with breaker := breaker })
  | .acquireSlot, shop =>
      let (slot, throttle) := shop.throttle.acquire setting.held
      (slot, { shop with throttle := throttle })
  | .releaseSlot, shop => ((), { shop with throttle := shop.throttle.release })
  | .resolvePermit permit outcome, shop =>
      ((), { shop with breaker := (permit.resolveAt outcome setting.told shop.breaker).2 })
  | .isAvailable, shop => (setting.available, shop)
  | .convertBuffer job input, shop => (setting.converter job input, shop.log job input)
  | .convertFile job input path limit, shop =>
      match setting.converter job input with
      | .error error => (.error error, shop.log job input)
      | .ok output =>
          let (moved, file, seen) := setting.copy output limit
          ((drained moved).map fun len => (len, seen), (shop.log job input).append path file)
  | .createNew path, shop =>
      match shop.dir path with
      | some _ => (.error "entity already exists", shop)
      | none => (.ok (), shop.put path (some []))
  | .openFile path, shop =>
      match shop.dir path with
      | some file => (.ok file, shop)
      | none => (.error "entity not found", shop)
  | .readAt path count, shop =>
      match shop.dir path with
      | some file => (.ok (file.take count), shop)
      | none => (.error "entity not found", shop)
  | .writeAll path data, shop => (.ok (), shop.append path data)
  | .copyToFile src path limit, shop =>
      let (moved, file, seen) := setting.copy src.rest limit
      let moved :=
        match src.fault with
        | some error => .error (.io error)
        | none => moved
      ((moved, seen), shop.append path file)
  | .removeFile path, shop =>
      match shop.dir path with
      | some _ => (.ok (), shop.put path none)
      | none => (.error "entity not found", shop)

namespace Shop

@[simp] theorem put_dir (path : SpoolPath) (file : Option Bytes) (shop : Shop) :
    (shop.put path file).dir = shop.dir.put path file := rfl

@[simp] theorem log_dir (job : Transcode) (input : Bytes) (shop : Shop) :
    (shop.log job input).dir = shop.dir := rfl

@[simp] theorem put_log (path : SpoolPath) (file : Option Bytes) (job : Transcode) (input : Bytes)
    (shop : Shop) : (shop.put path file).log job input = (shop.log job input).put path file := rfl

@[simp] theorem put_put (path : SpoolPath) (first second : Option Bytes) (shop : Shop) :
    (shop.put path first).put path second = shop.put path second := by
  simp only [put, SpoolDir.put_put]

theorem put_absent {path : SpoolPath} {shop : Shop} (absent : shop.dir path = none) :
    shop.put path none = shop := by
  simp only [put, SpoolDir.put_absent absent]

/-- Appending to a file just created writes it. -/
theorem append_created (path : SpoolPath) (data : Bytes) (shop : Shop) :
    (shop.put path (some [])).append path data = shop.put path (some data) := by
  simp only [append, put_dir, SpoolDir.put_self, Option.map_some, List.nil_append, put_put]

end Shop

theorem Setting.copy_fits (setting : Setting) {limit : UInt64} {stream : Bytes}
    (bounded : stream.length < 2 ^ 64 - 1) (fits : stream.length ≤ limit.toNat) :
    ∃ moved, setting.copy stream limit = (moved, stream, stream) ∧
      drained moved = .ok stream.length ∧
      (moved = .error .empty ∧ stream = [] ∨ moved = .ok stream.length) := by
  obtain ⟨result, copy, copied, file, seen, ended⟩ :=
    Splice.copyToFile_fits true setting.spare (Nat.lt_of_le_of_lt (Nat.min_le_right _ _) bounded)
      setting.replies (Nat.lt_succ_self _) fits
  unfold Setting.copy
  rw [copied]
  dsimp only
  rw [file, seen]
  rcases ended with ⟨empty, rfl⟩ | ⟨count, rfl, len⟩
  · exact ⟨_, rfl, by rw [empty]; rfl, .inl ⟨rfl, empty⟩⟩
  · exact ⟨_, rfl, congrArg _ len, .inr (congrArg _ len)⟩

section
variable {setting : Setting} {shop : Shop}

theorem unlink_exec (path : SpoolPath) :
    Program.exec (WorkCall.run setting) (unlink path) shop = ((), shop.put path none) := by
  simp only [unlink, Program.exec_bind, Program.exec_ask, Program.exec_pure, WorkCall.run]
  cases held : shop.dir path with
  | some file => rfl
  | none => rw [Shop.put_absent held]

theorem createNew_free {path : SpoolPath} (free : shop.dir path = none) :
    WorkCall.run setting (.createNew path) shop = (.ok (), shop.put path (some [])) := by
  simp only [WorkCall.run, free]

theorem checkSignature_exec (target : OutputFormat) {path : SpoolPath} {file : Bytes}
    (held : shop.dir path = some file) :
    Program.exec (WorkCall.run setting) (checkSignature target path) shop =
      (if detectImageMime file = some target.mime then .ok () else .error (notSigned target),
        shop) := by
  have read : WorkCall.run setting (.readAt path signatureProbeBytes) shop =
      (.ok (file.take signatureProbeBytes), shop) := by
    simp only [WorkCall.run, held]
  refine (Program.exec_answer _ read).trans ?_
  change Program.exec _ (if _ then _ else _) shop = _
  by_cases signed : detectImageMime file = some target.mime
  · rw [if_pos ((probe_target target file).mpr signed), if_pos signed]
    rfl
  · rw [if_neg fun both => signed ((probe_target target file).mp both), if_neg signed]
    rfl

theorem transcodeFile_exec {job : Transcode} {input output : Bytes}
    (converted : setting.converter job input = .ok output) {limit : UInt64}
    (bounded : limit.toNat < 2 ^ 64 - 1) (fits : output.length ≤ limit.toNat) (path : SpoolPath) :
    Program.exec (WorkCall.run setting) (transcodeFile job input path limit)
        (shop.put path (some [])) =
      (if detectImageMime output = some job.output.mime then .ok (output.length, output)
        else .error (notSigned job.output), (shop.log job input).put path (some output)) := by
  obtain ⟨moved, copied, len, _⟩ :=
    setting.copy_fits (Nat.lt_of_le_of_lt fits bounded) fits
  have ran : WorkCall.run setting (.convertFile job input path limit) (shop.put path (some [])) =
      (.ok (output.length, output), (shop.log job input).put path (some output)) := by
    simp only [WorkCall.run, converted, copied, len, Shop.put_log, Shop.append_created]
    rfl
  refine (Program.exec_answer _ ran).trans ?_
  change Program.exec _ (checkSignature job.output path >>= _) _ = _
  rw [Program.exec_bind, checkSignature_exec job.output (SpoolDir.put_self _ _ _)]
  by_cases signed : detectImageMime output = some job.output.mime
  · rw [if_pos signed, if_pos signed]
    rfl
  · rw [if_neg signed, if_neg signed]
    rfl

theorem transcodeSpooled_fails {sha3 : Bytes → Bytes} {source : SpooledFile} {job : Transcode}
    {input : Bytes} (limit : UInt64) (held : shop.dir source.path = some input)
    (free : shop.dir (derivedPath source.path) = none) {error : PipelineError}
    (failed : setting.converter job input = .error error) :
    Program.exec (WorkCall.run setting) (transcodeSpooled sha3 source limit job) shop =
      (.error error, shop.log job input) := by
  have opened : WorkCall.run setting (.openFile source.path) shop = (.ok input, shop) := by
    simp only [WorkCall.run, held]
  have undone : (shop.log job input).put (derivedPath source.path) none = shop.log job input :=
    Shop.put_absent free
  have refused : WorkCall.run setting
      (.convertFile job input (derivedPath source.path) limit)
      (shop.put (derivedPath source.path) (some [])) =
        (.error error, (shop.log job input).put (derivedPath source.path) (some [])) := by
    simp only [WorkCall.run, failed, Shop.put_log]
  refine (Program.exec_answer _ opened).trans ?_
  refine (Program.exec_answer _ (createNew_free free)).trans ?_
  refine (Program.exec_answer _ refused).trans ?_
  change Program.exec _ (unlink _ >>= _) _ = _
  rw [Program.exec_bind, unlink_exec, Shop.put_put, undone]
  rfl

theorem transcodeSpooled_converts {sha3 : Bytes → Bytes}
    (digests : ∀ data, (sha3 data).length = digestLen) {source : SpooledFile} {job : Transcode}
    {input output : Bytes} {limit : UInt64} (bounded : limit.toNat < 2 ^ 64 - 1)
    (held : shop.dir source.path = some input) (free : shop.dir (derivedPath source.path) = none)
    (converted : setting.converter job input = .ok output) (fits : output.length ≤ limit.toNat) :
    Program.exec (WorkCall.run setting) (transcodeSpooled sha3 source limit job) shop =
      if detectImageMime output = some job.output.mime then
        (.ok { path := derivedPath source.path, len := .ofNat output.length, digest := sha3 output },
          (shop.log job input).put (derivedPath source.path) (some output))
      else (.error (notSigned job.output), shop.log job input) := by
  have opened : WorkCall.run setting (.openFile source.path) shop = (.ok input, shop) := by
    simp only [WorkCall.run, held]
  have undone : (shop.log job input).put (derivedPath source.path) none = shop.log job input :=
    Shop.put_absent free
  refine (Program.exec_answer _ opened).trans ?_
  refine (Program.exec_answer _ (createNew_free free)).trans ?_
  change Program.exec _ (transcodeFile _ _ _ _ >>= finishTranscode sha3 _) _ = _
  rw [Program.exec_bind, transcodeFile_exec converted bounded fits]
  by_cases signed : detectImageMime output = some job.output.mime
  · rw [if_pos signed, if_pos signed]
    dsimp only [finishTranscode]
    rw [finishTap_some digests]
    rfl
  · rw [if_neg signed, if_neg signed]
    change Program.exec _ (unlink _ >>= _) _ = _
    rw [Program.exec_bind, unlink_exec, Shop.put_put, undone]
    rfl

end

end Y4p
