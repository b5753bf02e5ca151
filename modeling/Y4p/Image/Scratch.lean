import Y4p.Image.Sandbox

/-!
The scratch directory is private, or there is none and the converter is not run: in every tree,
for every `$XDG_RUNTIME_DIR` and whichever calls fail, as long as the look at that value does not
itself follow a link.
-/

namespace Y4p.Sandbox

open Programs FileTrees

section Promises

variable (process : Process)

def PrivateAt (tree : Tree) (path : Bytes) : Prop :=
  ∃ place entry, tree.named process.workingDir path = some (place, entry) ∧
    isPrivateEntry process.uid entry = true

def OwnDirAt (tree : Tree) (path : Bytes) : Prop :=
  ∃ place entry, tree.named process.workingDir path = some (place, entry) ∧
    entry.kind = .directory ∧ entry.uid = process.uid

inductive Candidate (tree : Tree) : Bytes → Prop
  | runtime {runtime : Bytes} (given : process.runtimeDir = some runtime)
      (absolute : isAbsolute runtime = true) (isPrivate : PrivateAt process tree runtime) :
      Candidate tree (runtimeBase runtime)
  | fallback : Candidate tree (fallbackBase scratchFallbackRoot process.uid)

/-- Nothing is there yet, or a real directory of the user's. -/
def Qualifies (tree : Tree) (base : Bytes) : Prop :=
  Candidate process tree base ∧ ∀ place entry,
    tree.named process.workingDir base = some (place, entry) →
      entry.kind = .directory ∧ entry.uid = process.uid

inductive Reaches (tree : Tree) : Call → Prop
  | next : Reaches tree .fetchNext
  | runtime {runtime : Bytes} (given : process.runtimeDir = some runtime) :
      Reaches tree (.lstat runtime)
  | look {base : Bytes} (candidate : Candidate process tree base) : Reaches tree (.lstat base)
  | make {base : Bytes} (candidate : Candidate process tree base) :
      Reaches tree (.mkdir base privateMode)
  | tighten {base : Bytes} (candidate : Candidate process tree base)
      (own : OwnDirAt process tree base) : Reaches tree (.chmod base privateMode)
  | child {base : Bytes} (candidate : Candidate process tree base)
      (isPrivate : PrivateAt process tree base) (number : UInt64) :
      Reaches tree (.mkdir (join base (runName process.pid number)) privateMode)

end Promises

def Call.path : Call → Option Bytes
  | .lstat path | .mkdir path _ | .chmod path _ | .removeDirAll path => some path
  | .fetchNext | .runFilter _ | .runFilterFile _ => none

def Call.runsFilter : Call → Bool
  | .runFilter _ | .runFilterFile _ => true
  | _ => false

/-- A call that is not failed follows no link, and nothing beneath an entry is reached for unless
that entry is a real private directory of the user's. -/
structure Careful (process : Process) (call : Call) (world : World) : Prop where
  unfollowed : world.fault world.clock = none →
    ∀ path, call.path = some path → ¬ world.tree.Follows process.workingDir path
  reaches : Reaches process world.tree call

/-- Entries stay as they are, but for directories of the user's that are made private, and what
is new is private. -/
structure Evolves (uid : UInt32) (before after : Tree) : Prop where
  kept : ∀ place entry, before.find place = some entry →
    after.find place = some entry ∨
      (entry.kind = .directory ∧ entry.uid = uid ∧
        after.find place = some { entry with mode := privateMode })
  made : ∀ place entry, before.find place = none → after.find place = some entry →
    isPrivateEntry uid entry = true

/-- A new, empty, private directory, in a real private directory of the user's. -/
def Fresh (process : Process) (before after : Tree) (base : Bytes) (dir : ScratchDir) : Prop :=
  ∃ number place parent entry,
    dir.path = join base (runName process.pid number) ∧
    after.named process.workingDir base = some (place, parent) ∧
    isPrivateEntry process.uid parent = true ∧
    after.named process.workingDir dir.path =
      some (runName process.pid number :: place, entry) ∧
    isPrivateEntry process.uid entry = true ∧
    before.find (runName process.pid number :: place) = none ∧
    ∀ name, after.find (name :: runName process.pid number :: place) = none

/-- The run ends for want of a scratch directory, and no filter was started in it. -/
def Unstarted (process : Process) (world : World) (error : IoError)
    (script : Script (Except PipelineError Transfer)) : Prop :=
  (Program.exec (step process) script world).1 = .error (.isolation error.text) ∧
    ∀ issued ∈ Program.trace (step process) script world, issued.1.runsFilter = false

def created (process : Process) (world : World) : Except IoError ScratchDir × World :=
  Program.exec (step process) (createScratchDir process) world

structure PrivateScratch (process : Process) (world : World) : Prop where
  fresh : ∀ dir, (created process world).1 = .ok dir → ∃ base,
    Qualifies process world.tree base ∧
      Fresh process world.tree (created process world).2.tree base dir
  careful : ∀ issued ∈ Program.trace (step process) (createScratchDir process) world,
    Careful process issued.1 issued.2
  evolves : Evolves process.uid world.tree (created process world).2.tree
  refused : (∀ base, ¬ Qualifies process world.tree base) →
    ∃ error, (created process world).1 = .error error
  unstarted : ∀ error, (created process world).1 = .error error →
    (∀ args, Unstarted process world error (run process args)) ∧
    (∀ args timeout, Unstarted process world error (runWithTimeout process args timeout)) ∧
    (∀ args timeout, Unstarted process world error (runFileWithTimeout process args timeout))

/-- `$XDG_RUNTIME_DIR` is the name of a link with a slash or a dot behind it, and the first call is
not failed. -/
def FollowsRuntime (process : Process) (world : World) : Prop :=
  world.fault world.clock = none ∧ ∃ runtime, process.runtimeDir = some runtime ∧
    isAbsolute runtime = true ∧ world.tree.Follows process.workingDir runtime

theorem slash_not_mem_decimal (n : Nat) : slash ∉ decimal n :=
  fun member => absurd (decimal_digits member) (by decide)

theorem isName_of_head {first : UInt8} {name : Name} (head : name.head? = some first)
    (letter : first ≠ 0x2E) (no_slash : slash ∉ name) : IsName name where
  ne_nil := by
    rintro rfl
    cases head
  ne_dot := by
    rintro rfl
    cases head
    exact letter rfl
  ne_dotdot := by
    rintro rfl
    cases head
    exact letter rfl
  no_slash := no_slash

theorem isName_scratchDirName : IsName scratchDirName :=
  isName_of_head (show scratchDirName.head? = some 0x79 by decide) (by decide) (by decide)

theorem isName_fallbackName (uid : UInt32) : IsName (fallbackName uid) := by
  refine isName_of_head (show (fallbackName uid).head? = some 0x79 from rfl) (by decide) ?_
  rw [fallbackName, List.mem_append, List.mem_append, not_or, not_or]
  exact ⟨⟨by decide, by decide⟩, slash_not_mem_decimal _⟩

theorem isName_runName (pid : UInt32) (number : UInt64) : IsName (runName pid number) := by
  refine isName_of_head (show (runName pid number).head? = some 0x72 from rfl) (by decide) ?_
  rw [runName, List.mem_append, List.mem_append, List.mem_append, not_or, not_or, not_or]
  exact ⟨⟨⟨by decide, slash_not_mem_decimal _⟩, by decide⟩, slash_not_mem_decimal _⟩

theorem isPrivateEntry_iff {uid : UInt32} {entry : Entry} :
    isPrivateEntry uid entry = true ↔
      entry.kind = .directory ∧ entry.uid = uid ∧ entry.mode &&& groupOtherBits = 0 := by
  simp [isPrivateEntry, and_assoc]

theorem privateMode_and : privateMode &&& groupOtherBits = 0 := by decide

theorem madeMode_and (holder umask : UInt32) :
    Tree.madeMode holder privateMode umask &&& groupOtherBits = 0 := by
  have apart : ∀ first second third : UInt32,
      (first ||| second) &&& third = (first &&& third) ||| (second &&& third) := fun _ _ _ =>
    UInt32.toBitVec_inj.mp (by simp [BitVec.and_or_distrib_right])
  have groupId : 0o2000 &&& groupOtherBits = 0 := by decide
  rw [Tree.madeMode, apart, UInt32.and_assoc, UInt32.and_comm (~~~umask), ← UInt32.and_assoc,
    privateMode_and, UInt32.and_assoc, groupId, UInt32.zero_and, UInt32.and_zero, UInt32.or_self]

theorem isPrivateEntry_setMode {uid : UInt32} {entry : Entry} (directory : entry.kind = .directory)
    (own : entry.uid = uid) : isPrivateEntry uid { entry with mode := privateMode } = true :=
  isPrivateEntry_iff.mpr ⟨directory, own, privateMode_and⟩

theorem isPrivateEntry_made (uid holder umask : UInt32) :
    isPrivateEntry uid ⟨.directory, uid, Tree.madeMode holder privateMode umask⟩ = true :=
  isPrivateEntry_iff.mpr ⟨rfl, rfl, madeMode_and holder umask⟩

namespace Evolves

variable {uid : UInt32} {before middle after : Tree}

theorem refl (uid : UInt32) (tree : Tree) : Evolves uid tree tree where
  kept _ _ found := .inl found
  made _ _ absent found := by
    rw [absent] at found
    cases found

theorem trans (first : Evolves uid before middle) (second : Evolves uid middle after) :
    Evolves uid before after where
  kept place entry found := by
    rcases first.kept place entry found with same | ⟨directory, own, tightened⟩
    · exact second.kept place entry same
    · rcases second.kept _ _ tightened with same | ⟨-, -, again⟩
      · exact .inr ⟨directory, own, same⟩
      · exact .inr ⟨directory, own, again⟩
  made place entry absent found := by
    cases between : middle.find place with
    | none => exact second.made place entry between found
    | some other =>
        have isPrivate := first.made place other absent between
        obtain ⟨directory, own, -⟩ := isPrivateEntry_iff.mp isPrivate
        rcases second.kept place other between with same | ⟨-, -, tightened⟩
        · rw [found, Option.some.injEq] at same
          exact same ▸ isPrivate
        · rw [found, Option.some.injEq] at tightened
          exact tightened ▸ isPrivateEntry_setMode directory own

theorem grows (evolves : Evolves uid before after) : Grows before after := by
  intro place entry found
  rcases evolves.kept place entry found with same | ⟨-, -, tightened⟩
  · exact ⟨entry, same, rfl⟩
  · exact ⟨_, tightened, rfl⟩

/-- What a path names it still names, with the same kind and owner, as private as it was. -/
theorem named (evolves : Evolves uid before after) {cwd place : Location} {path : Bytes}
    {entry : Entry} (names : before.named cwd path = some (place, entry)) :
    ∃ later, after.named cwd path = some (place, later) ∧ later.kind = entry.kind ∧
      later.uid = entry.uid ∧
      (isPrivateEntry uid entry = true → isPrivateEntry uid later = true) := by
  obtain ⟨later, still, there⟩ := evolves.grows.named names
  obtain ⟨-, found⟩ := Tree.named_eq_some_iff.mp names
  rcases evolves.kept place entry found with same | ⟨directory, own, tightened⟩
  · rw [there, Option.some.injEq] at same
    exact ⟨later, still, same ▸ rfl, same ▸ rfl, fun isPrivate => same ▸ isPrivate⟩
  · rw [there, Option.some.injEq] at tightened
    exact ⟨later, still, tightened ▸ rfl, tightened ▸ rfl,
      fun _ => tightened ▸ isPrivateEntry_setMode directory own⟩

theorem absent (evolves : Evolves uid before after) {place : Location}
    (missing : after.find place = none) : before.find place = none := by
  by_contra there
  obtain ⟨entry, found⟩ := Option.ne_none_iff_exists'.mp there
  obtain ⟨later, still, -⟩ := evolves.grows place entry found
  rw [missing] at still
  cases still

theorem ofMkdir {cwd : Location} {path : Bytes} {umask : UInt32}
    (made : before.mkdir cwd path uid umask privateMode = .ok after) :
    Evolves uid before after := by
  obtain ⟨front, name, dir, left, new, holds, absent, -, -, rfl, rfl⟩ := Tree.mkdir_ok made
  constructor
  · intro place entry found
    have other : place ≠ name :: dir := by
      rintro rfl
      rw [absent] at found
      cases found
    exact .inl (by rwa [Tree.add_find, if_neg other])
  · intro place entry missing found
    rw [Tree.add_find] at found
    split at found
    · cases found
      exact isPrivateEntry_made uid _ umask
    · rw [missing] at found
      cases found

theorem ofChmod {cwd place : Location} {path : Bytes} {entry : Entry}
    (names : before.named cwd path = some (place, entry)) (directory : entry.kind = .directory)
    (own : entry.uid = uid) (changed : before.chmod cwd path privateMode = .ok after) :
    Evolves uid before after := by
  obtain ⟨-, found⟩ := Tree.named_eq_some_iff.mp names
  obtain ⟨rest, walked⟩ := Tree.walk_components names directory
  obtain ⟨dir, left, reached, rfl⟩ := Tree.chmod_ok changed
  rw [walked, Except.ok.injEq, Prod.mk.injEq] at reached
  obtain ⟨rfl, -⟩ := reached
  constructor
  · intro other there present
    rw [Tree.setMode_find]
    split
    · rename_i same
      subst same
      rw [found, Option.some.injEq] at present
      subst present
      exact .inr ⟨directory, own, by rw [found, Option.map_some]⟩
    · exact .inl present
  · intro other there missing present
    rw [Tree.setMode_find, missing] at present
    split at present <;> cases present

end Evolves

section Trees

variable {process : Process} {before after : Tree}

theorem PrivateAt.evolves {path : Bytes} (isPrivate : PrivateAt process before path)
    (evolves : Evolves process.uid before after) : PrivateAt process after path := by
  obtain ⟨place, entry, names, isPrivate⟩ := isPrivate
  obtain ⟨later, still, -, -, kept⟩ := evolves.named names
  exact ⟨place, later, still, kept isPrivate⟩

theorem Candidate.evolves {base : Bytes} (candidate : Candidate process before base)
    (evolves : Evolves process.uid before after) : Candidate process after base := by
  cases candidate with
  | runtime given absolute isPrivate => exact .runtime given absolute (isPrivate.evolves evolves)
  | fallback => exact .fallback

/-- What ends up private was absent or the user's own directory. -/
theorem Candidate.qualifies {base : Bytes} (candidate : Candidate process before base)
    (evolves : Evolves process.uid before after) (isPrivate : PrivateAt process after base) :
    Qualifies process before base := by
  refine ⟨candidate, fun place entry names => ?_⟩
  obtain ⟨other, last, ends, isPrivate⟩ := isPrivate
  obtain ⟨later, still, kind, owner, -⟩ := evolves.named names
  rw [ends, Option.some.injEq, Prod.mk.injEq] at still
  obtain ⟨-, rfl⟩ := still
  obtain ⟨directory, own, -⟩ := isPrivateEntry_iff.mp isPrivate
  exact ⟨kind ▸ directory, owner ▸ own⟩

theorem Candidate.not_follows {tree : Tree} {base : Bytes} {cwd : Location}
    (candidate : Candidate process tree base) : ¬ tree.Follows cwd base := by
  cases candidate with
  | runtime given absolute isPrivate => exact isName_scratchDirName.not_follows
  | fallback => exact (isName_fallbackName process.uid).not_follows

end Trees

section Calls

variable {process : Process} {world : World}

theorem attempt_cases {α : Type} (world : World) (action : Tree → Except Errno (α × Tree)) :
    (∃ error, world.attempt action = (.error error, world.tick)) ∨
      ∃ answer tree, world.fault world.clock = none ∧ action world.tree = .ok (answer, tree) ∧
        world.attempt action = (.ok answer, { world.tick with tree := tree }) := by
  unfold World.attempt
  cases world.fault world.clock with
  | some error => exact .inl ⟨error, rfl⟩
  | none =>
      cases acted : action world.tree with
      | error errno => exact .inl ⟨osError errno, rfl⟩
      | ok reply => exact .inr ⟨reply.1, reply.2, rfl, rfl, rfl⟩

theorem lstat_step (process : Process) (world : World) (path : Bytes) :
    ∃ (answer : Except IoError Entry) (after : World),
      step process (.lstat path) world = (answer, after) ∧ after.tree = world.tree ∧
        ∀ entry, answer = .ok entry → world.fault world.clock = none ∧
          world.tree.lstat process.workingDir path = .ok entry := by
  rcases attempt_cases world fun tree =>
    (tree.lstat process.workingDir path).map fun entry => (entry, tree) with
      ⟨error, same⟩ | ⟨answer, tree, unfailed, acted, same⟩
  · exact ⟨_, _, same, rfl, fun _ impossible => nomatch impossible⟩
  · cases looked : world.tree.lstat process.workingDir path with
    | error errno => simp [looked, Except.map] at acted
    | ok entry =>
        simp only [looked, Except.map, Except.ok.injEq, Prod.mk.injEq] at acted
        obtain ⟨rfl, rfl⟩ := acted
        refine ⟨_, _, same, rfl, fun other given => ?_⟩
        rw [Except.ok.injEq] at given
        rw [given]
        exact ⟨unfailed, rfl⟩

theorem changing_step (world : World) (action : Tree → Except Errno Tree) :
    ∃ (answer : Except IoError Unit) (after : World),
      (world.attempt fun tree => (action tree).map fun changed => ((), changed)) =
          (answer, after) ∧
        ((∃ error, answer = .error error) ∧ after.tree = world.tree ∨
          answer = .ok () ∧ action world.tree = .ok after.tree) := by
  rcases attempt_cases world fun tree => (action tree).map fun changed => ((), changed) with
      ⟨error, same⟩ | ⟨answer, tree, -, acted, same⟩
  · exact ⟨_, _, same, .inl ⟨⟨error, rfl⟩, rfl⟩⟩
  · cases changed : action world.tree with
    | error errno => simp [changed, Except.map] at acted
    | ok tree =>
        simp only [changed, Except.map, Except.ok.injEq, Prod.mk.injEq] at acted
        obtain ⟨-, rfl⟩ := acted
        exact ⟨_, _, same, .inr ⟨rfl, rfl⟩⟩

theorem mkdir_step (process : Process) (world : World) (path : Bytes) :
    ∃ (answer : Except IoError Unit) (after : World),
      step process (.mkdir path privateMode) world = (answer, after) ∧
        ((∃ error, answer = .error error) ∧ after.tree = world.tree ∨
          answer = .ok () ∧ world.tree.mkdir process.workingDir path process.uid process.umask
            privateMode = .ok after.tree) :=
  changing_step world fun tree =>
    tree.mkdir process.workingDir path process.uid process.umask privateMode

theorem chmod_step (process : Process) (world : World) (path : Bytes) :
    ∃ (answer : Except IoError Unit) (after : World),
      step process (.chmod path privateMode) world = (answer, after) ∧
        ((∃ error, answer = .error error) ∧ after.tree = world.tree ∨
          answer = .ok () ∧
            world.tree.chmod process.workingDir path privateMode = .ok after.tree) :=
  changing_step world fun tree => tree.chmod process.workingDir path privateMode

end Calls

section Ensuring

variable {process : Process} {world : World} {before : Tree} {base : Bytes}

theorem isPrivateDir_guarded {path : Bytes} (careful : Careful process (.lstat path) world) :
    Program.Guarded (step process) (Careful process)
      (fun found after => after.tree = world.tree ∧
        (found = true → PrivateAt process world.tree path))
      (isPrivateDir path process.uid) world := by
  obtain ⟨answer, after, stepped, same, looked⟩ := lstat_step process world path
  refine .bind (.ask careful ?_)
  rw [stepped]
  cases answer with
  | error error => exact .pure ⟨same, fun impossible => nomatch impossible⟩
  | ok entry =>
      refine .pure ⟨same, fun isPrivate => ?_⟩
      obtain ⟨unfailed, looked⟩ := looked entry rfl
      obtain ⟨place, names⟩ := Tree.named_of_lstat looked
        (isPrivateEntry_iff.mp isPrivate).1 (careful.unfollowed unfailed path rfl)
      exact ⟨place, entry, names, isPrivate⟩

theorem Candidate.careful {call : Call} (candidate : Candidate process world.tree base)
    (path : call.path = some base) (reaches : Reaches process world.tree call) :
    Careful process call world where
  unfollowed _ other same := by
    rw [path, Option.some.injEq] at same
    exact same ▸ candidate.not_follows
  reaches := reaches

def Settled (process : Process) (before : Tree) (base : Bytes) (ensured : Except IoError Unit)
    (after : World) : Prop :=
  Evolves process.uid before after.tree ∧ (ensured = .ok () → PrivateAt process after.tree base)

theorem Settled.failed {error : IoError} (evolves : Evolves process.uid before world.tree) :
    Settled process before base (.error error) world :=
  ⟨evolves, fun impossible => nomatch impossible⟩

theorem confirmPrivateDir_guarded (evolves : Evolves process.uid before world.tree)
    (candidate : Candidate process world.tree base) :
    Program.Guarded (step process) (Careful process) (Settled process before base)
      (confirmPrivateDir base process.uid) world := by
  refine .bind ((isPrivateDir_guarded (candidate.careful rfl (.look candidate))).mono ?_)
  rintro found after ⟨same, isPrivate⟩
  cases found with
  | true => exact .pure ⟨same ▸ evolves, fun _ => same ▸ isPrivate rfl⟩
  | false => exact .pure (.failed (same ▸ evolves))

theorem tightenPrivateDir_guarded (evolves : Evolves process.uid before world.tree)
    (candidate : Candidate process world.tree base) :
    Program.Guarded (step process) (Careful process) (Settled process before base)
      (tightenPrivateDir base process.uid) world := by
  obtain ⟨answer, looking, stepped, same, looked⟩ := lstat_step process world base
  refine .bind (.ask (candidate.careful rfl (.look candidate)) ?_)
  rw [stepped]
  rw [← same] at evolves candidate looked
  cases answer with
  | error error => exact .pure (.failed evolves)
  | ok entry =>
      dsimp only
      split
      · exact .pure (.failed evolves)
      · rename_i ours
        rw [not_or, not_not, not_not] at ours
        obtain ⟨directory, own⟩ := ours
        split
        · obtain ⟨place, names⟩ :=
            Tree.named_of_lstat (looked entry rfl).2 directory candidate.not_follows
          have mine : OwnDirAt process looking.tree base := ⟨place, entry, names, directory, own⟩
          obtain ⟨outcome, changing, answered, changes⟩ := chmod_step process looking base
          refine .bind (.ask (candidate.careful rfl (.tighten candidate mine)) ?_)
          rw [answered]
          rcases changes with ⟨⟨error, rfl⟩, unchanged⟩ | ⟨rfl, changed⟩
          · exact .pure (.failed (unchanged ▸ evolves))
          · have tightens := Evolves.ofChmod names directory own changed
            exact confirmPrivateDir_guarded (evolves.trans tightens) (candidate.evolves tightens)
        · exact confirmPrivateDir_guarded evolves candidate

theorem ensurePrivateDir_guarded (evolves : Evolves process.uid before world.tree)
    (candidate : Candidate process world.tree base) :
    Program.Guarded (step process) (Careful process) (Settled process before base)
      (ensurePrivateDir base process.uid) world := by
  obtain ⟨answer, after, stepped, makes⟩ := mkdir_step process world base
  refine .bind (.ask (candidate.careful rfl (.make candidate)) ?_)
  rw [stepped]
  rcases makes with ⟨⟨error, rfl⟩, unchanged⟩ | ⟨rfl, made⟩
  · rw [← unchanged] at evolves candidate
    dsimp only
    split
    · exact tightenPrivateDir_guarded evolves candidate
    · exact .pure (.failed evolves)
  · have makes := Evolves.ofMkdir made
    exact tightenPrivateDir_guarded (evolves.trans makes) (candidate.evolves makes)

end Ensuring

section Locations

variable {process : Process} {world : World}

def Based (process : Process) (before : Tree) (base : Bytes) (after : World) : Prop :=
  Candidate process before base ∧ PrivateAt process after.tree base

theorem runtimePrivateBase_guarded (unfollowed : ¬ FollowsRuntime process world) :
    Program.Guarded (step process) (Careful process)
      (fun found after => Evolves process.uid world.tree after.tree ∧
        ∀ base, found = some base → Based process world.tree base after)
      (runtimePrivateBase process.runtimeDir process.uid) world := by
  have nothing : ∀ {after : World}, Evolves process.uid world.tree after.tree →
      Evolves process.uid world.tree after.tree ∧
        ∀ base, none = some base → Based process world.tree base after :=
    fun evolves => ⟨evolves, fun _ impossible => nomatch impossible⟩
  have unchanged := Evolves.refl process.uid world.tree
  unfold runtimePrivateBase
  cases given : process.runtimeDir with
  | none => exact .pure (nothing unchanged)
  | some runtime =>
      dsimp only
      split
      · rename_i absolute
        have careful : Careful process (.lstat runtime) world := by
          refine ⟨fun unfailed path same => ?_, .runtime given⟩
          cases same
          exact fun follows => unfollowed ⟨unfailed, runtime, given, absolute, follows⟩
        refine .bind ((isPrivateDir_guarded careful).mono ?_)
        rintro found looking ⟨same, isPrivate⟩
        have still : Evolves process.uid world.tree looking.tree := same ▸ unchanged
        cases found with
        | false => exact .pure (nothing still)
        | true =>
            have candidate : Candidate process world.tree (runtimeBase runtime) :=
              .runtime given absolute (isPrivate rfl)
            refine .bind ((ensurePrivateDir_guarded still (same ▸ candidate)).mono ?_)
            rintro ensured after ⟨evolves, settled⟩
            cases ensured with
            | error error => exact .pure (nothing evolves)
            | ok done =>
                refine .pure ⟨evolves, fun base found => ?_⟩
                rw [Option.some.injEq] at found
                exact found ▸ ⟨candidate, settled rfl⟩
      · exact .pure (nothing unchanged)

theorem fallbackPrivateBase_guarded {before : Tree}
    (evolves : Evolves process.uid before world.tree) :
    Program.Guarded (step process) (Careful process)
      (fun found after => Evolves process.uid before after.tree ∧
        ∀ base, found = .ok base → Based process before base after)
      (fallbackPrivateBase scratchFallbackRoot process.uid) world := by
  refine .bind ((ensurePrivateDir_guarded evolves .fallback).mono ?_)
  rintro ensured after ⟨evolves, settled⟩
  cases ensured with
  | error error => exact .pure ⟨evolves, fun _ impossible => nomatch impossible⟩
  | ok done =>
      refine .pure ⟨evolves, fun base found => ?_⟩
      rw [Except.ok.injEq] at found
      exact found ▸ ⟨.fallback, settled rfl⟩

theorem privateBase_guarded (unfollowed : ¬ FollowsRuntime process world) :
    Program.Guarded (step process) (Careful process)
      (fun found after => Evolves process.uid world.tree after.tree ∧
        ∀ base, found = .ok base → Based process world.tree base after)
      (privateBase process.runtimeDir scratchFallbackRoot process.uid) world := by
  refine .bind ((runtimePrivateBase_guarded unfollowed).mono ?_)
  rintro found after ⟨evolves, based⟩
  cases found with
  | none => exact fallbackPrivateBase_guarded evolves
  | some base =>
      refine .pure ⟨evolves, fun other found => ?_⟩
      rw [Except.ok.injEq] at found
      exact found ▸ based base rfl

end Locations

section Children

variable {process : Process} {world : World} {before tree after : Tree} {base : Bytes}

/-- What is created in a private base is new, empty and private. -/
theorem fresh_of_mkdir {number : UInt64} (evolves : Evolves process.uid before tree)
    (isPrivate : PrivateAt process tree base)
    (made : tree.mkdir process.workingDir (join base (runName process.pid number)) process.uid
      process.umask privateMode = .ok after) :
    Fresh process before after base ⟨join base (runName process.pid number)⟩ := by
  have isName := isName_runName process.pid number
  have makes := Evolves.ofMkdir made
  obtain ⟨place, parent, names, isPrivate⟩ := isPrivate
  obtain ⟨left, walked⟩ := Tree.walk_names names (isPrivateEntry_iff.mp isPrivate).1
  obtain ⟨later, still, -, -, kept⟩ := makes.named names
  obtain ⟨front, name, dir, rest, new, holds, absent, split, reached, new_eq, rfl⟩ :=
    Tree.mkdir_ok made
  rw [isName.names_join] at split
  obtain ⟨rfl, last⟩ := List.append_inj' split rfl
  cases last
  rw [isName.start_join, walked, Except.ok.injEq, Prod.mk.injEq] at reached
  obtain ⟨rfl, -⟩ := reached
  have there : (tree.add place _ new holds absent).find _ = some new :=
    (Tree.add_find holds absent _).trans (if_pos rfl)
  have entered := enter_ok_iff.mpr ⟨makes.grows.isDirectory holds,
    .inr (.inr ⟨isName.ne_dot, isName.ne_dotdot, there ▸ nofun, rfl⟩)⟩
  refine ⟨number, place, later, new, rfl, still, kept isPrivate,
    Tree.named_eq_some_iff.mpr ⟨?_, there⟩, new_eq ▸ isPrivateEntry_made _ _ _,
    evolves.absent absent, fun name => ?_⟩
  · rw [isName.trimmed_join, isName.start_join, locate_concat, makes.grows.walk walked]
    exact entered
  · rw [Tree.add_find, if_neg (List.cons_ne_self _ _)]
    exact Tree.find_below absent

theorem uniqueChildTries_guarded (tries : Nat) (evolves : Evolves process.uid before world.tree)
    (candidate : Candidate process world.tree base)
    (isPrivate : PrivateAt process world.tree base) :
    Program.Guarded (step process) (Careful process)
      (fun made after => Evolves process.uid before after.tree ∧
        ∀ dir, made = .ok dir → Fresh process before after.tree base dir)
      (uniqueChildTries process.pid base tries) world := by
  induction tries generalizing world with
  | zero => exact .pure ⟨evolves, fun _ impossible => nomatch impossible⟩
  | succ tries ih =>
      have counts : Careful process .fetchNext world :=
        ⟨fun _ _ impossible => (nomatch impossible), .next⟩
      have counted : step process .fetchNext world = (world.next world.clock, world.tick) := rfl
      refine .bind (.ask counts ?_)
      rw [counted]
      dsimp only
      have careful : Careful process (.mkdir
          (join base (runName process.pid (world.next world.clock))) privateMode) world.tick := by
        refine ⟨fun _ path same => ?_, .child candidate isPrivate _⟩
        cases same
        exact (isName_runName _ _).not_follows
      obtain ⟨answer, after, stepped, makes⟩ := mkdir_step process world.tick
        (join base (runName process.pid (world.next world.clock)))
      refine .bind (.ask careful ?_)
      rw [stepped]
      rcases makes with ⟨⟨error, rfl⟩, unchanged⟩ | ⟨rfl, made⟩
      · have same : after.tree = world.tree := unchanged
        rw [← same] at evolves candidate isPrivate
        dsimp only
        split
        · exact ih evolves candidate isPrivate
        · exact .pure ⟨evolves, fun _ impossible => nomatch impossible⟩
      · refine .pure ⟨evolves.trans (Evolves.ofMkdir made), fun dir same => ?_⟩
        rw [Except.ok.injEq] at same
        exact same ▸ fresh_of_mkdir evolves isPrivate made

end Children

section Creation

variable {process : Process} {world : World}

theorem createScratchDir_guarded (unfollowed : ¬ FollowsRuntime process world) :
    Program.Guarded (step process) (Careful process)
      (fun made after => Evolves process.uid world.tree after.tree ∧
        ∀ dir, made = .ok dir → ∃ base, Qualifies process world.tree base ∧
          Fresh process world.tree after.tree base dir)
      (createScratchDir process) world := by
  refine .bind ((privateBase_guarded unfollowed).mono ?_)
  rintro found middle ⟨evolves, based⟩
  cases found with
  | error error => exact .pure ⟨evolves, fun _ impossible => nomatch impossible⟩
  | ok base =>
      obtain ⟨candidate, isPrivate⟩ := based base rfl
      refine (uniqueChildTries_guarded 16 evolves (candidate.evolves evolves) isPrivate).mono ?_
      rintro made after ⟨later, fresh⟩
      exact ⟨later, fun dir same =>
        ⟨base, candidate.qualifies evolves isPrivate, fresh dir same⟩⟩

theorem Reaches.quiet {tree : Tree} {call : Call} (reaches : Reaches process tree call) :
    call.runsFilter = false := by
  cases reaches <;> rfl

/-- What needs a scratch directory ends with the failure to make one. -/
theorem unstarted_of_failed {error : IoError}
    {rest : Except IoError ScratchDir → Script (Except PipelineError Transfer)}
    (failed : (created process world).1 = .error error)
    (careful : ∀ issued ∈ Program.trace (step process) (createScratchDir process) world,
      Careful process issued.1 issued.2)
    (stops : rest (.error error) = pure (.error (.isolation error.text))) :
    Unstarted process world error (createScratchDir process >>= rest) := by
  have ended : (Program.exec (step process) (createScratchDir process) world).1 = .error error :=
    failed
  constructor
  · rw [Program.exec_bind, ended, stops, Program.exec_pure]
  · intro issued member
    rw [Program.trace_bind, ended, stops, Program.trace_pure, List.append_nil] at member
    exact (careful issued member).reaches.quiet

theorem looks_at_runtime {runtime : Bytes} (given : process.runtimeDir = some runtime)
    (absolute : isAbsolute runtime = true) :
    (Call.lstat runtime, world) ∈
      Program.trace (step process) (createScratchDir process) world := by
  have looked : (Call.lstat runtime, world) ∈
      Program.trace (step process) (isPrivateDir runtime process.uid) world :=
    Program.mem_trace_bind _ (List.mem_singleton_self _)
  have first : (Call.lstat runtime, world) ∈
      Program.trace (step process) (runtimePrivateBase process.runtimeDir process.uid) world := by
    simp only [runtimePrivateBase, given, absolute, if_true]
    exact Program.mem_trace_bind _ looked
  exact Program.mem_trace_bind _ (Program.mem_trace_bind _ first)

theorem not_private_of_follows (follows : FollowsRuntime process world) :
    ¬ PrivateScratch process world := by
  obtain ⟨unfailed, runtime, given, absolute, follows⟩ := follows
  intro isPrivate
  have careful := isPrivate.careful _ (looks_at_runtime given absolute)
  exact careful.unfollowed unfailed runtime rfl follows

theorem private_of_not_follows (unfollowed : ¬ FollowsRuntime process world) :
    PrivateScratch process world := by
  obtain ⟨careful, evolves, made⟩ := createScratchDir_guarded unfollowed
  refine ⟨made, careful, evolves, fun unqualified => ?_, fun error failed => ?_⟩
  · cases ended : (created process world).1 with
    | error error => exact ⟨error, rfl⟩
    | ok dir =>
        obtain ⟨base, qualifies, -⟩ := made dir ended
        exact absurd qualifies (unqualified base)
  · exact ⟨fun args => unstarted_of_failed failed careful rfl,
      fun args timeout => unstarted_of_failed failed careful rfl,
      fun args timeout => unstarted_of_failed failed careful rfl⟩

/-- The scratch directory is private or missing exactly where the look at `$XDG_RUNTIME_DIR` does
not follow a link. -/
theorem createScratchDir_private_iff (process : Process) (world : World) :
    PrivateScratch process world ↔ ¬ FollowsRuntime process world :=
  ⟨fun isPrivate follows => not_private_of_follows follows isPrivate, private_of_not_follows⟩

end Creation

-- `/p` is a private directory, `/l` links to it.
def linkedTree : Tree where
  find
    | [] => some ⟨.directory, 0, 0o755⟩
    | [[0x70]] => some ⟨.directory, 1000, 0o700⟩
    | [[0x6C]] => some ⟨.symlink [0x2F, 0x70], 1000, 0o777⟩
    | _ => none
  nested name place found := by
    split at found
    · rename_i same
      cases same
    · rename_i same
      cases same
      rfl
    · rename_i same
      cases same
      rfl
    · exact absurd rfl found

def linkedWorld : World where
  tree := linkedTree
  clock := 0
  fault _ := none
  next := UInt64.ofNat
  filter _ tree := (.error (.spawn "no such program"), tree)
  removed _ tree := tree

def linkedProcess : Process where
  runtimeDir := some [0x2F, 0x6C, 0x2F]
  searchPath := none
  uid := 1000
  pid := 7
  umask := 0o022
  workingDir := []

theorem linked_scratch_not_private :
    (created linkedProcess linkedWorld).1 =
        .ok ⟨strBytes "/l/y4p-magick/run-7-4".toList⟩ ∧
      (created linkedProcess linkedWorld).2.tree.find [scratchDirName, [0x70]] ≠ none ∧
      ¬ PrivateScratch linkedProcess linkedWorld := by
  refine ⟨by decide +kernel, by decide +kernel, not_private_of_follows ?_⟩
  exact ⟨rfl, _, rfl, rfl, rfl, [[0x6C]], _, _, rfl, rfl⟩

example :
    (created { linkedProcess with runtimeDir := some [0x2F, 0x70] } linkedWorld).1 =
      .ok ⟨strBytes "/p/y4p-magick/run-7-4".toList⟩ := by
  decide +kernel

end Y4p.Sandbox
