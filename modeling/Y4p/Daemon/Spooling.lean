import Y4p.Daemon.Convert

/-!
Spooling where every step may fail: what one call of the daemon's spooler answers,
and what it leaves in its directory.
-/

namespace Y4p

open Programs

-- The largest file `off_t` can address.
def maxFileBytes : Nat := 2 ^ 63 - 1

-- After how many bytes a step fails, and how.
abbrev Fault := Nat × String

structure SpoolFaults where
  create : Option String
  write : Option Fault
  copy : Option Fault

def brokenAt (planned : Option Fault) (room total : Nat) : Option Fault :=
  (planned.filter fun fault => fault.1 ≤ min room total).or
    (if room < total then some (room, "File too large") else none)

def Reader.breakAt (count : Nat) (error : String) (reader : Reader) : Reader :=
  { Reader.pipe (reader.rest.take count) reader.reads with fault := some error }

def Shop.room (path : SpoolPath) (shop : Shop) : Nat :=
  maxFileBytes - ((shop.dir path).getD []).length

def WorkCall.runWith (faults : SpoolFaults) (setting : Setting) :
    (call : WorkCall) → Shop → call.Answer × Shop
  | .createNew path, shop =>
      match faults.create with
      | some error => (.error error, shop)
      | none => WorkCall.run setting (.createNew path) shop
  | .writeAll path data, shop =>
      match brokenAt faults.write (shop.room path) data.length with
      | some (count, error) => (.error error, shop.append path (data.take count))
      | none => WorkCall.run setting (.writeAll path data) shop
  | .copyToFile src path limit, shop =>
      match brokenAt faults.copy (shop.room path) src.rest.length with
      | some (count, error) =>
          WorkCall.run setting (.copyToFile (src.breakAt count error) path limit) shop
      | none => WorkCall.run setting (.copyToFile src path limit) shop
  | call, shop => WorkCall.run setting call shop

theorem brokenAt_none {planned : Option Fault} {room total : Nat}
    (whole : brokenAt planned room total = none) : total ≤ room := by
  by_contra beyond
  rw [brokenAt, if_pos (Nat.not_le.mp beyond), Option.or_eq_none_iff] at whole
  cases whole.2

theorem Setting.copy_exceeds (setting : Setting) {limit : UInt64} {stream : Bytes}
    (bounded : stream.length < 2 ^ 64) (beyond : limit.toNat < stream.length) :
    ∃ file seen, setting.copy stream limit = (.error (.tooLarge limit), file, seen) := by
  have agrees := Splice.copyToFile_copies true setting.spare
    (show min limit.toNat stream.length < 2 ^ 64 - 1 by omega) true setting.replies
    (Nat.lt_succ_self _)
  obtain ⟨ended, copied, _, large, _⟩ := agrees.verdict
  unfold Setting.copy
  dsimp only
  rw [copied, large.mpr beyond]
  exact ⟨_, _, rfl⟩

section
variable {faults : SpoolFaults} {setting : Setting} {shop : Shop} {path : SpoolPath}

theorem runWith_createNew :
    (faults.create = none ∧ shop.dir path = none ∧
        WorkCall.runWith faults setting (.createNew path) shop =
          (.ok (), shop.put path (some []))) ∨
      (¬ (faults.create = none ∧ shop.dir path = none) ∧
        ∃ error, WorkCall.runWith faults setting (.createNew path) shop = (.error error, shop)) := by
  cases refused : faults.create with
  | some error =>
      refine .inr ⟨fun both => Option.some_ne_none _ both.1, error, ?_⟩
      simp only [WorkCall.runWith, refused]
  | none =>
      cases held : shop.dir path with
      | some file =>
          refine .inr ⟨fun both => Option.some_ne_none _ both.2, "entity already exists", ?_⟩
          simp only [WorkCall.runWith, WorkCall.run, refused, held]
      | none =>
          refine .inl ⟨rfl, rfl, ?_⟩
          simp only [WorkCall.runWith, WorkCall.run, refused, held]

theorem room_put (file : Bytes) :
    (shop.put path (some file)).room path = maxFileBytes - file.length := by
  rw [Shop.room, Shop.put_dir, SpoolDir.put_self]
  rfl

theorem append_put (file data : Bytes) :
    (shop.put path (some file)).append path data = shop.put path (some (file ++ data)) := by
  simp only [Shop.append, Shop.put_dir, SpoolDir.put_self, Option.map_some, Shop.put_put]

theorem runWith_writeAll (head : Bytes) :
    (brokenAt faults.write maxFileBytes head.length = none ∧
        WorkCall.runWith faults setting (.writeAll path head) (shop.put path (some [])) =
          (.ok (), shop.put path (some head))) ∨
      (brokenAt faults.write maxFileBytes head.length ≠ none ∧
        ∃ error file, WorkCall.runWith faults setting (.writeAll path head)
          (shop.put path (some [])) = (.error error, shop.put path (some file))) := by
  have room : (shop.put path (some [])).room path = maxFileBytes := room_put []
  cases broken : brokenAt faults.write maxFileBytes head.length with
  | none =>
      refine .inl ⟨rfl, ?_⟩
      simp only [WorkCall.runWith, WorkCall.run, room, broken, append_put, List.nil_append]
  | some fault =>
      refine .inr ⟨Option.some_ne_none _, fault.2, head.take fault.1, ?_⟩
      simp only [WorkCall.runWith, room, broken, append_put, List.nil_append]

theorem run_copyToFile_fault {src : Reader} {error : String} (fault : src.fault = some error)
    (head : Bytes) (left : UInt64) :
    ∃ seen file, WorkCall.run setting (.copyToFile src path left) (shop.put path (some head)) =
      ((.error (.io error), seen), shop.put path (some file)) := by
  refine ⟨(setting.copy src.rest left).2.2, head ++ (setting.copy src.rest left).2.1, ?_⟩
  simp only [WorkCall.run, fault, append_put]
  rfl

theorem runWith_copyToFile (head : Bytes) (src : Reader) (left : UInt64) :
    (src.fault = none ∧
        brokenAt faults.copy (maxFileBytes - head.length) src.rest.length = none ∧
        src.rest.length ≤ left.toNat ∧
        ∃ moved, (moved = .error .empty ∧ src.rest = [] ∨ moved = .ok src.rest.length) ∧
          WorkCall.runWith faults setting (.copyToFile src path left) (shop.put path (some head)) =
            ((moved, src.rest), shop.put path (some (head ++ src.rest)))) ∨
      (¬ (src.fault = none ∧
          brokenAt faults.copy (maxFileBytes - head.length) src.rest.length = none ∧
          src.rest.length ≤ left.toNat) ∧
        ∃ error seen file, error ≠ .empty ∧
          WorkCall.runWith faults setting (.copyToFile src path left) (shop.put path (some head)) =
            ((.error error, seen), shop.put path (some file))) := by
  have room : (shop.put path (some head)).room path = maxFileBytes - head.length := room_put head
  cases broken : brokenAt faults.copy (maxFileBytes - head.length) src.rest.length with
  | some fault =>
      obtain ⟨seen, file, ran⟩ := @run_copyToFile_fault setting shop path
        (src.breakAt fault.1 fault.2) fault.2 rfl head left
      refine .inr ⟨fun all => Option.some_ne_none _ all.2.1, .io fault.2, seen, file, ?_, ?_⟩
      · intro same
        cases same
      · simp only [WorkCall.runWith, room, broken]
        exact ran
  | none =>
      have within := brokenAt_none broken
      cases fault : src.fault with
      | some error =>
          obtain ⟨seen, file, ran⟩ := @run_copyToFile_fault setting shop path src error fault head
            left
          refine .inr ⟨fun all => Option.some_ne_none _ all.1, .io error, seen, file, ?_, ?_⟩
          · intro same
            cases same
          · simp only [WorkCall.runWith, room, broken]
            exact ran
      | none =>
          have short : src.rest.length < 2 ^ 64 - 1 := by
            unfold maxFileBytes at within
            omega
          by_cases fits : src.rest.length ≤ left.toNat
          · obtain ⟨moved, copied, _, ended⟩ := setting.copy_fits short fits
            refine .inl ⟨rfl, rfl, fits, moved, ended.imp (fun both => both) (fun same => same), ?_⟩
            simp only [WorkCall.runWith, WorkCall.run, room, broken, fault, copied, append_put]
            rfl
          · obtain ⟨file, seen, copied⟩ :=
              setting.copy_exceeds (by omega) (Nat.not_le.mp fits)
            refine .inr ⟨fun all => fits all.2.2, .tooLarge left, seen, head ++ file, ?_, ?_⟩
            · intro same
              cases same
            · simp only [WorkCall.runWith, WorkCall.run, room, broken, fault, copied, append_put]
              rfl

theorem unlink_execWith :
    Program.exec (WorkCall.runWith faults setting) (unlink path) shop =
      ((), shop.put path none) := by
  have removed := @unlink_exec setting shop path
  exact removed

end

structure SpoolFaults.Spares (faults : SpoolFaults) (dir : SpoolDir) (path : SpoolPath)
    (head : Bytes) (src : Reader) : Prop where
  created : faults.create = none
  free : dir path = none
  written : brokenAt faults.write maxFileBytes head.length = none
  sound : src.fault = none
  copied : brokenAt faults.copy (maxFileBytes - head.length) src.rest.length = none

structure SpoolExact (sha3 : Bytes → Bytes) (dir : SpoolDir) (path : SpoolPath) (head : Bytes)
    (src : Reader) (whole : Prop) (outcome : SpoolOutcome) (after : SpoolDir)
    (calls : List WorkCall) : Prop where
  spooled_iff : (∃ file, outcome = .spooled file) ↔ whole
  described : ∀ file, outcome = .spooled file →
    file.path = path ∧ file.len.toNat = head.length + src.rest.length ∧
      file.digest = sha3 (head ++ src.rest) ∧ after = dir.put path (some (head ++ src.rest))
  otherwise : (∀ file, outcome ≠ .spooled file) → after = dir
  untouched : ∀ rest, outcome = .unavailable rest → rest = src ∧ calls = [.createNew path]

section
variable {sha3 : Bytes → Bytes} {dir : SpoolDir} {path : SpoolPath} {head : Bytes} {src : Reader}
  {whole : Prop} {calls : List WorkCall}

theorem SpoolExact.rejected (failed : ¬ whole) {after : SpoolDir} (same : after = dir) :
    SpoolExact sha3 dir path head src whole .rejected after calls where
  spooled_iff := by
    refine ⟨?_, fun holds => absurd holds failed⟩
    rintro ⟨file, isSpooled⟩
    cases isSpooled
  described := by
    intro file isSpooled
    cases isSpooled
  otherwise := fun _ => same
  untouched := by
    intro rest isUnavailable
    cases isUnavailable

theorem SpoolExact.unavailable (failed : ¬ whole) :
    SpoolExact sha3 dir path head src whole (.unavailable src) dir [.createNew path] where
  spooled_iff := by
    refine ⟨?_, fun holds => absurd holds failed⟩
    rintro ⟨file, isSpooled⟩
    cases isSpooled
  described := by
    intro file isSpooled
    cases isSpooled
  otherwise := fun _ => rfl
  untouched := by
    intro rest isUnavailable
    cases isUnavailable
    exact ⟨rfl, rfl⟩

theorem SpoolExact.spooled (holds : whole) {file : SpooledFile} (named : file.path = path)
    (len : file.len.toNat = head.length + src.rest.length)
    (digest : file.digest = sha3 (head ++ src.rest)) :
    SpoolExact sha3 dir path head src whole (.spooled file)
      (dir.put path (some (head ++ src.rest))) calls where
  spooled_iff := ⟨fun _ => holds, fun _ => ⟨file, rfl⟩⟩
  described := by
    intro other isSpooled
    cases isSpooled
    exact ⟨named, len, digest, rfl⟩
  otherwise := fun none => absurd rfl (none file)
  untouched := by
    intro rest isUnavailable
    cases isUnavailable

end

section
variable {faults : SpoolFaults} {setting : Setting} {shop : Shop} {path : SpoolPath}

theorem reject_exec (free : shop.dir path = none) (file : Bytes) :
    Program.exec (WorkCall.runWith faults setting)
        (do unlink path; pure .rejected : Work SpoolOutcome) (shop.put path (some file)) =
      (.rejected, shop) := by
  rw [Program.exec_bind, unlink_execWith, Shop.put_put, Shop.put_absent free]
  rfl

theorem spooledAs_exec {sha3 : Bytes → Bytes} (digests : ∀ data, (sha3 data).length = digestLen)
    (len : Nat) (seen : Bytes) :
    Program.exec (WorkCall.runWith faults setting) (finishSpool.spooledAs sha3 path len seen) shop =
      (.spooled { path := path, len := .ofNat len, digest := sha3 seen }, shop) := by
  rw [finishSpool.spooledAs, finishTap_some digests]
  rfl

end

theorem FileSpooler.spool_created {sha3 : Bytes → Bytes}
    (digests : ∀ data, (sha3 data).length = digestLen) {faults : SpoolFaults} {setting : Setting}
    {shop : Shop} {spooler : FileSpooler} (free : shop.dir (freshPath spooler.next) = none)
    (answered : WorkCall.runWith faults setting (.createNew (freshPath spooler.next)) shop =
      (.ok (), shop.put (freshPath spooler.next) (some [])))
    {head : Bytes} {src : Reader} {limit : UInt64} {whole : Prop}
    (isWhole : whole ↔ brokenAt faults.write maxFileBytes head.length = none ∧
      src.fault = none ∧ brokenAt faults.copy (maxFileBytes - head.length) src.rest.length = none ∧
      head.length + src.rest.length ≤ limit.toNat) :
    (whole ∧
      Program.exec (WorkCall.runWith faults setting) (spooler.spool sha3 head src limit) shop =
        (.spooled (SpooledFile.mk (freshPath spooler.next)
            (.ofNat (head.length + src.rest.length)) (sha3 (head ++ src.rest))),
          shop.put (freshPath spooler.next) (some (head ++ src.rest)))) ∨
      (¬ whole ∧
        Program.exec (WorkCall.runWith faults setting) (spooler.spool sha3 head src limit) shop =
          (.rejected, shop)) := by
  have started :
      Program.exec (WorkCall.runWith faults setting) (spooler.spool sha3 head src limit) shop = _ :=
    Program.exec_answer _ answered
  change _ = Program.exec _ (if _ then _ else _) _ at started
  rw [started, isWhole]
  by_cases large : limit.toNat < head.length
  · rw [if_pos large, reject_exec free]
    exact .inr ⟨fun all => by omega, rfl⟩
  · rw [if_neg large]
    have below : (UInt64.ofNat head.length).toNat = head.length :=
      UInt64.toNat_ofNat_of_lt (Nat.lt_of_le_of_lt (Nat.not_lt.mp large) limit.toNat_lt)
    have left : (limit - .ofNat head.length).toNat = limit.toNat - head.length := by
      rw [UInt64.toNat_sub_of_le _ _ (by rw [UInt64.le_iff_toNat_le, below]; omega), below]
    rcases @runWith_writeAll faults setting shop (freshPath spooler.next) head with
      ⟨written, wrote⟩ | ⟨broken, error, file, wrote⟩
    · rcases @runWith_copyToFile faults setting shop (freshPath spooler.next) head src
          (limit - .ofNat head.length) with
        ⟨sound, unbroken, fits, moved, ended, copied⟩ | ⟨failed, error, seen, file, known, copied⟩
      · refine .inl ⟨⟨written, sound, unbroken, by omega⟩, ?_⟩
        refine (Program.exec_answer _ wrote).trans ((Program.exec_answer _ copied).trans ?_)
        rcases ended with ⟨rfl, empty⟩ | rfl
        · rw [empty]
          exact spooledAs_exec digests head.length (head ++ [])
        · exact spooledAs_exec digests (head.length + src.rest.length) (head ++ src.rest)
      · refine .inr ⟨fun all => failed ⟨all.2.1, all.2.2.1, by omega⟩, ?_⟩
        refine (Program.exec_answer _ wrote).trans ((Program.exec_answer _ copied).trans ?_)
        cases error with
        | empty => exact absurd rfl known
        | tooLarge _ => exact reject_exec free file
        | io _ => exact reject_exec free file
    · refine .inr ⟨fun all => broken all.1, ?_⟩
      exact (Program.exec_answer _ wrote).trans (reject_exec free file)

/-- Whatever fails and however the kernel splits the copy: a payload is spooled if and only if
it fits and no step fails, and then file, length and digest are those of head and rest; else
the directory is left as it was, and a pipe given back has not been read. -/
theorem FileSpooler.spool_exact (sha3 : Bytes → Bytes)
    (digests : ∀ data, (sha3 data).length = digestLen) (faults : SpoolFaults) (setting : Setting)
    (spooler : FileSpooler) (head : Bytes) (src : Reader) (limit : UInt64) (shop : Shop) :
    let spool := spooler.spool sha3 head src limit
    let ran := Program.exec (WorkCall.runWith faults setting) spool shop
    SpoolExact sha3 shop.dir (freshPath spooler.next) head src
      (head.length + src.rest.length ≤ limit.toNat ∧
        faults.Spares shop.dir (freshPath spooler.next) head src)
      ran.1 ran.2.dir (Program.calls (WorkCall.runWith faults setting) spool shop) := by
  intro spool ran
  rcases @runWith_createNew faults setting shop (freshPath spooler.next) with
    ⟨created, free, answered⟩ | ⟨refused, error, answered⟩
  · have isWhole : (head.length + src.rest.length ≤ limit.toNat ∧
        faults.Spares shop.dir (freshPath spooler.next) head src) ↔
        brokenAt faults.write maxFileBytes head.length = none ∧ src.fault = none ∧
          brokenAt faults.copy (maxFileBytes - head.length) src.rest.length = none ∧
          head.length + src.rest.length ≤ limit.toNat := by
      constructor
      · rintro ⟨fits, spares⟩
        exact ⟨spares.written, spares.sound, spares.copied, fits⟩
      · rintro ⟨written, sound, copied, fits⟩
        exact ⟨fits, created, free, written, sound, copied⟩
    rcases spool_created digests free answered isWhole with ⟨whole, ended⟩ | ⟨failed, ended⟩
    · have same : ran = _ := ended
      have len : (UInt64.ofNat (head.length + src.rest.length)).toNat =
          head.length + src.rest.length :=
        UInt64.toNat_ofNat_of_lt (Nat.lt_of_le_of_lt whole.1 limit.toNat_lt)
      rw [same]
      exact .spooled whole rfl len rfl
    · have same : ran = _ := ended
      rw [same]
      exact .rejected failed rfl
  · have same : ran = (.unavailable src, shop) := Program.exec_answer _ answered
    have calls : Program.calls (WorkCall.runWith faults setting) spool shop =
        [.createNew (freshPath spooler.next)] := Program.calls_answer _ answered
    rw [same, calls]
    exact .unavailable fun whole => refused ⟨whole.2.created, whole.2.free⟩

def sampleSplit : Setting :=
  { sampleSetting with replies := [.fails .eintr, .moves 1, .moves 1, .fails .einval] }

theorem spool_exact_sample :
    let spool := (FileSpooler.mk 0).spool convertedSha3 [137, 80] (.pipe [78, 71] []) 4
    let ran := Program.exec (WorkCall.runWith ⟨none, none, none⟩ sampleSplit) spool sampleShop
    SpoolExact convertedSha3 sampleShop.dir (freshPath 0) [137, 80] (.pipe [78, 71] [])
        ([137, 80].length + (Reader.pipe [78, 71] []).rest.length ≤ (4 : UInt64).toNat ∧
          SpoolFaults.Spares ⟨none, none, none⟩ sampleShop.dir (freshPath 0) [137, 80]
            (.pipe [78, 71] []))
        ran.1 ran.2.dir
        (Program.calls (WorkCall.runWith ⟨none, none, none⟩ sampleSplit) spool sampleShop) ∧
      ran.1 = .spooled { path := freshPath 0, len := 4, digest := sampleSha3 sampleImage } ∧
      ran.2.dir (freshPath 0) = some sampleImage :=
  ⟨FileSpooler.spool_exact convertedSha3 convertedSha3_length _ _ _ _ _ _ _, by rfl, by decide⟩

end Y4p
