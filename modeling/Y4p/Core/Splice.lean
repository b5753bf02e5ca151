import Y4p.Core.Payload

/-!
Copying a stream into a file (`crates/core/src/splice.rs`): in the kernel with
`tee` and `splice`, or through a buffer. The kernel is free in how much each call
moves, in how often it is interrupted and in when it refuses.
-/

namespace Y4p.Splice

inductive Errno where
  | eintr
  | einval
  | enosys
  | eopnotsupp
  deriving DecidableEq

-- What the kernel does at one call; a count is cut to what is asked for and there.
inductive Reply where
  | moves (count : Nat)
  | fails (errno : Errno)

-- `file` is what the destination received, `teed` the size of the last `tee`, `moved` what was
-- spliced since, and `replies` what the next calls meet. With none left, a call does all it can.
structure Kernel where
  source : Bytes
  file : Bytes
  scratch : Bytes
  teed : Nat
  moved : Nat
  replies : List Reply

def granted (count want available : Nat) : Nat :=
  min (max 1 count) (min want available)

namespace Kernel

def tee (want : Nat) (reply : Reply) (kernel : Kernel) : Except Errno Nat × Kernel :=
  match reply with
  | .fails errno => (.error errno, kernel)
  | .moves count =>
      let n := granted count want kernel.source.length
      (.ok n, { kernel with
        scratch := kernel.scratch ++ kernel.source.take n, teed := n, moved := 0 })

def move (count want : Nat) (kernel : Kernel) : Except Errno Nat × Kernel :=
  let n := granted count want kernel.source.length
  (.ok n, { kernel with
    source := kernel.source.drop n
    file := kernel.file ++ kernel.source.take n
    moved := kernel.moved + n })

-- A splice that has moved part of what was teed is not refused.
def splice (want : Nat) (reply : Reply) (kernel : Kernel) : Except Errno Nat × Kernel :=
  match reply with
  | .fails errno =>
      if errno ≠ .eintr ∧ 0 < kernel.moved ∧ kernel.moved < kernel.teed then kernel.move want want
      else (.error errno, kernel)
  | .moves count => kernel.move count want

-- A plain read may be interrupted, but not refused.
def read (want : Nat) (reply : Reply) (kernel : Kernel) : Except Errno Bytes × Kernel :=
  match reply with
  | .fails .eintr => (.error .eintr, kernel)
  | .fails _ =>
      let n := granted want want kernel.source.length
      (.ok (kernel.source.take n), { kernel with source := kernel.source.drop n })
  | .moves count =>
      let n := granted count want kernel.source.length
      (.ok (kernel.source.take n), { kernel with source := kernel.source.drop n })

def next (want : Nat) (kernel : Kernel) : Reply × Kernel :=
  match kernel.replies with
  | [] => (.moves want, kernel)
  | reply :: rest => (reply, { kernel with replies := rest })

-- `read_exact`: on a pipe that holds enough, all of it.
def readExact (count : Nat) (kernel : Kernel) : Except String Bytes × Kernel :=
  if count ≤ kernel.scratch.length then
    (.ok (kernel.scratch.take count), { kernel with scratch := kernel.scratch.drop count })
  else (.error "failed to fill whole buffer", { kernel with scratch := [] })

def writeAll (data : Bytes) (kernel : Kernel) : Kernel :=
  { kernel with file := kernel.file ++ data }

end Kernel

def isUnsupported : Errno → Bool
  | .einval | .enosys | .eopnotsupp => true
  | .eintr => false

-- `loop { if interrupted, again }`.
def retryFrom (call : Reply → Kernel → Except Errno Nat × Kernel) (last : Reply) :
    List Reply → Kernel → Except Errno Nat × Kernel
  | [], kernel => call last { kernel with replies := [] }
  | reply :: rest, kernel =>
      match call reply { kernel with replies := rest } with
      | (.error .eintr, kernel) => retryFrom call last rest kernel
      | answer => answer

def spliceOnce (len : Nat) (kernel : Kernel) : Except Errno Nat × Kernel :=
  retryFrom (Kernel.splice len) (.moves len) kernel.replies kernel

def teeOnce (len : Nat) (kernel : Kernel) : Except Errno Nat × Kernel :=
  retryFrom (Kernel.tee len) (.moves len) kernel.replies kernel

inductive SpliceFailure where
  | refused
  | io (error : String)

-- Every turn moves a byte, so there are at most `n`.
def spliceExactFrom (n : Nat) : Nat → Nat → Kernel → Except SpliceFailure Unit × Kernel
  | 0, _, kernel => (.ok (), kernel)
  | turns + 1, moved, kernel =>
      if moved < n then
        match spliceOnce (n - moved) kernel with
        | (.ok 0, kernel) => (.error (.io "unexpected end of file"), kernel)
        | (.ok (more + 1), kernel) => spliceExactFrom n turns (moved + (more + 1)) kernel
        | (.error errno, kernel) =>
            if isUnsupported errno ∧ moved = 0 then (.error .refused, kernel)
            else (.error (.io "splice failed"), kernel)
      else (.ok (), kernel)

def spliceExact (n : Nat) (kernel : Kernel) : Except SpliceFailure Unit × Kernel :=
  spliceExactFrom n n 0 kernel

-- `ByteTap`: what an observer was shown, chunk by chunk.
structure Tap where
  observes : Bool
  chunks : List Bytes

def Tap.update (tap : Tap) (chunk : Bytes) : Tap :=
  { tap with chunks := tap.chunks ++ [chunk] }

def Tap.seen (tap : Tap) : Bytes :=
  tap.chunks.flatten

structure Copied where
  len : Nat
  kernelBytes : Nat

structure Copy where
  kernel : Kernel
  tap : Tap
  copied : Copied

def stageFrom : Nat → Nat → Copy → Except PayloadError Unit × Copy
  | 0, _, copy => (.ok (), copy)
  | turns + 1, left, copy =>
      if 0 < left then
        match copy.kernel.readExact (min left spliceChunkBytes) with
        | (.error error, kernel) => (.error (.io error), { copy with kernel := kernel })
        | (.ok chunk, kernel) =>
            stageFrom turns (left - min left spliceChunkBytes)
              { copy with kernel := kernel, tap := copy.tap.update chunk }
      else (.ok (), copy)

inductive KernelEnd where
  | eof
  | unsupported

inductive Round where
  | ended (kernelEnd : KernelEnd)
  | failed (error : PayloadError)
  | moved (count : Nat)

def observedRound (want : Nat) (copy : Copy) : Round × Copy :=
  match teeOnce want copy.kernel with
  | (.ok 0, kernel) => (.ended .eof, { copy with kernel := kernel })
  | (.ok (more + 1), kernel) =>
      match spliceExact (more + 1) kernel with
      | (.error .refused, kernel) => (.ended .unsupported, { copy with kernel := kernel })
      | (.error (.io error), kernel) => (.failed (.io error), { copy with kernel := kernel })
      | (.ok _, kernel) =>
          match stageFrom (more + 1) (more + 1) { copy with kernel := kernel } with
          | (.error error, copy) => (.failed error, copy)
          | (.ok _, copy) => (.moved (more + 1), copy)
  | (.error errno, kernel) =>
      if isUnsupported errno then (.ended .unsupported, { copy with kernel := kernel })
      else (.failed (.io "tee failed"), { copy with kernel := kernel })

def plainRound (want : Nat) (copy : Copy) : Round × Copy :=
  match spliceOnce want copy.kernel with
  | (.ok 0, kernel) => (.ended .eof, { copy with kernel := kernel })
  | (.ok (more + 1), kernel) => (.moved (more + 1), { copy with kernel := kernel })
  | (.error errno, kernel) =>
      if isUnsupported errno then (.ended .unsupported, { copy with kernel := kernel })
      else (.failed (.io "splice failed"), { copy with kernel := kernel })

def Copy.count (count : Nat) (copy : Copy) : Copy :=
  { copy with copied :=
    { len := copy.copied.len + count, kernelBytes := copy.copied.kernelBytes + count } }

def kernelRound (want : Nat) (copy : Copy) : Round × Copy :=
  if copy.tap.observes then observedRound want copy else plainRound want copy

-- One byte beyond the limit tells an exact fit from an overflow.
def allowance (limit : UInt64) : Nat :=
  min (limit.toNat + 1) (2 ^ 64 - 1)

def kernelRounds (limit : UInt64) : Nat → Copy → Option (Except PayloadError KernelEnd) × Copy
  | 0, copy => (none, copy)
  | turns + 1, copy =>
      match kernelRound (min (allowance limit - copy.copied.len) spliceRoundBytes) copy with
      | (.ended kernelEnd, copy) => (some (.ok kernelEnd), copy)
      | (.failed error, copy) => (some (.error error), copy)
      | (.moved count, copy) =>
          let copy := copy.count count
          if limit.toNat < copy.copied.len then (some (.error (.tooLarge limit)), copy)
          else kernelRounds limit turns copy

-- `spare`: a scratch pipe could be opened.
def kernelLoop (spare : Bool) (limit : UInt64) (turns : Nat) (copy : Copy) :
    Option (Except PayloadError KernelEnd) × Copy :=
  if copy.tap.observes ∧ ¬ spare then (some (.ok .unsupported), copy)
  else kernelRounds limit turns copy

def Tap.show (tap : Tap) (chunk : Bytes) : Tap :=
  if tap.observes then tap.update chunk else tap

def bufferedLoop (limit : UInt64) : Nat → Copy → Option (Except PayloadError Unit) × Copy
  | 0, copy => (none, copy)
  | turns + 1, copy =>
      let want := min (allowance limit - copy.copied.len) spliceChunkBytes
      let (reply, kernel) := copy.kernel.next want
      match kernel.read want reply with
      | (.error .eintr, kernel) => bufferedLoop limit turns { copy with kernel := kernel }
      | (.error _, kernel) => (some (.error (.io "read failed")), { copy with kernel := kernel })
      | (.ok [], kernel) => (some (.ok ()), { copy with kernel := kernel })
      | (.ok (byte :: rest), kernel) =>
          let chunk := byte :: rest
          let copy : Copy := {
            kernel := kernel.writeAll chunk
            tap := copy.tap.show chunk
            copied := { copy.copied with len := copy.copied.len + chunk.length } }
          if limit.toNat < copy.copied.len then (some (.error (.tooLarge limit)), copy)
          else bufferedLoop limit turns copy

def finish (copied : Copied) : Except PayloadError Copied :=
  if copied.len = 0 then .error .empty else .ok copied

def finishBuffered (limit : UInt64) (turns : Nat) (copy : Copy) :
    Option (Except PayloadError Copied) × Copy :=
  match bufferedLoop limit turns copy with
  | (none, copy) => (none, copy)
  | (some (.error error), copy) => (some (.error error), copy)
  | (some (.ok _), copy) => (some (finish copy.copied), copy)

def Copy.start (stream : Bytes) (observes : Bool) (replies : List Reply) : Copy where
  kernel := { source := stream, file := [], scratch := [], teed := 0, moved := 0, replies := replies }
  tap := { observes := observes, chunks := [] }
  copied := { len := 0, kernelBytes := 0 }

def copyToFile (isPipe spare : Bool) (limit : UInt64) (turns : Nat) (copy : Copy) :
    Option (Except PayloadError Copied) × Copy :=
  if isPipe then
    match kernelLoop spare limit turns copy with
    | (none, copy) => (none, copy)
    | (some (.error error), copy) => (some (.error error), copy)
    | (some (.ok .eof), copy) => (some (finish copy.copied), copy)
    | (some (.ok .unsupported), copy) => finishBuffered limit turns copy
  else finishBuffered limit turns copy

def copyToFileBuffered (limit : UInt64) (turns : Nat) (copy : Copy) :
    Option (Except PayloadError Copied) × Copy :=
  finishBuffered limit turns copy

theorem granted_le_want (count want available : Nat) : granted count want available ≤ want := by
  unfold granted
  omega

theorem granted_le_available (count want available : Nat) :
    granted count want available ≤ available := by
  unfold granted
  omega

theorem granted_pos {count want available : Nat} (asked : 0 < want) (there : 0 < available) :
    0 < granted count want available := by
  unfold granted
  omega

structure Kernel.Advances (n : Nat) (before after : Kernel) : Prop where
  there : n ≤ before.source.length
  source : after.source = before.source.drop n
  file : after.file = before.file ++ before.source.take n
  replies : after.replies.length ≤ before.replies.length

structure Kernel.Moves (n : Nat) (before after : Kernel) : Prop
    extends Kernel.Advances n before after where
  scratch : after.scratch = before.scratch
  teed : after.teed = before.teed
  moved : after.moved = before.moved + n

theorem Kernel.Moves.none {kernel : Kernel} {rest : List Reply}
    (fewer : rest.length ≤ kernel.replies.length) :
    Kernel.Moves 0 kernel { kernel with replies := rest } where
  there := Nat.zero_le _
  source := rfl
  file := by simp
  scratch := rfl
  teed := rfl
  moved := rfl
  replies := fewer

theorem Kernel.Moves.trans {n m : Nat} {first second third : Kernel}
    (earlier : Kernel.Moves n first second) (later : Kernel.Moves m second third) :
    Kernel.Moves (n + m) first third where
  there := by
    have left := later.there
    rw [earlier.source, List.length_drop] at left
    have right := earlier.there
    omega
  source := by rw [later.source, earlier.source, List.drop_drop]
  file := by
    rw [later.file, earlier.file, earlier.source, List.append_assoc, List.take_add]
  scratch := later.scratch.trans earlier.scratch
  teed := later.teed.trans earlier.teed
  moved := by rw [later.moved, earlier.moved, Nat.add_assoc]
  replies := Nat.le_trans later.replies earlier.replies

/-- The call that ends the loop is one that was not interrupted. -/
theorem retryFrom_cases {call : Reply → Kernel → Except Errno Nat × Kernel} {last : Reply}
    (steady : ∀ reply kernel errno, (call reply kernel).1 = .error errno →
      (call reply kernel).2 = kernel)
    (final : ∀ kernel, (call last kernel).1 ≠ .error .eintr) (replies : List Reply)
    (kernel : Kernel) :
    ∃ reply rest, rest.length ≤ replies.length ∧
      retryFrom call last replies kernel = call reply { kernel with replies := rest } ∧
      (call reply { kernel with replies := rest }).1 ≠ .error .eintr := by
  induction replies generalizing kernel with
  | nil => exact ⟨last, [], Nat.le_refl _, rfl, final _⟩
  | cons reply rest ih =>
      cases answered : call reply { kernel with replies := rest } with
      | mk answer after =>
          by_cases again : answer = .error .eintr
          · obtain ⟨next, others, fewer, same, steadily⟩ := ih after
            have kept : after = { kernel with replies := rest } := by
              have unchanged := steady reply { kernel with replies := rest } .eintr
                (by rw [answered]; exact again)
              rw [answered] at unchanged
              exact unchanged
            subst kept again
            refine ⟨next, others, by simp only [List.length_cons]; omega, ?_, steadily⟩
            rw [retryFrom, answered]
            exact same
          · refine ⟨reply, rest, by simp, ?_, by rw [answered]; exact again⟩
            rw [retryFrom, answered]
            cases answer with
            | ok n => rfl
            | error errno =>
                cases errno with
                | eintr => exact absurd rfl again
                | einval => rfl
                | enosys => rfl
                | eopnotsupp => rfl

theorem unsupported_of_ne {errno : Errno} (lasting : errno ≠ .eintr) : isUnsupported errno = true := by
  cases errno with
  | eintr => exact absurd rfl lasting
  | _ => rfl

theorem teeOnce_cases {want : Nat} (asked : 0 < want) (kernel : Kernel) :
    (∃ n rest, rest.length ≤ kernel.replies.length ∧ n ≤ want ∧ n ≤ kernel.source.length ∧
        (0 < kernel.source.length → 0 < n) ∧
        teeOnce want kernel = (.ok n, { kernel with
          replies := rest, scratch := kernel.scratch ++ kernel.source.take n, teed := n,
          moved := 0 })) ∨
      ∃ errno rest, rest.length ≤ kernel.replies.length ∧ isUnsupported errno = true ∧
        teeOnce want kernel = (.error errno, { kernel with replies := rest }) := by
  have steady : ∀ reply kernel errno, (Kernel.tee want reply kernel).1 = .error errno →
      (Kernel.tee want reply kernel).2 = kernel := by
    intro reply kernel errno failed
    cases reply with
    | moves count => cases failed
    | fails other => rfl
  have final : ∀ kernel, (Kernel.tee want (.moves want) kernel).1 ≠ .error .eintr := by
    intro kernel failed
    cases failed
  obtain ⟨reply, rest, fewer, same, steadily⟩ :=
    retryFrom_cases steady final kernel.replies kernel
  unfold teeOnce
  rw [same]
  cases reply with
  | moves count =>
      exact .inl ⟨_, rest, fewer, granted_le_want _ _ _, granted_le_available _ _ _,
        granted_pos asked, rfl⟩
  | fails errno =>
      refine .inr ⟨errno, rest, fewer, unsupported_of_ne ?_, rfl⟩
      rintro rfl
      exact steadily rfl

theorem move_moves (count want : Nat) (kernel : Kernel) {rest : List Reply}
    (fewer : rest.length ≤ kernel.replies.length) :
    ∃ n, n = granted count want kernel.source.length ∧
      Kernel.move count want { kernel with replies := rest } =
        (.ok n, (Kernel.move count want { kernel with replies := rest }).2) ∧
      Kernel.Moves n kernel (Kernel.move count want { kernel with replies := rest }).2 :=
  ⟨_, rfl, rfl, ⟨granted_le_available _ _ _, rfl, rfl, fewer⟩, rfl, rfl, rfl⟩

theorem spliceOnce_cases {want : Nat} (asked : 0 < want) (kernel : Kernel) :
    (∃ n after, n ≤ want ∧ (0 < kernel.source.length → 0 < n) ∧ Kernel.Moves n kernel after ∧
        spliceOnce want kernel = (.ok n, after)) ∨
      ∃ errno after, ¬ (0 < kernel.moved ∧ kernel.moved < kernel.teed) ∧
        isUnsupported errno = true ∧ Kernel.Moves 0 kernel after ∧
        spliceOnce want kernel = (.error errno, after) := by
  have steady : ∀ reply kernel errno, (Kernel.splice want reply kernel).1 = .error errno →
      (Kernel.splice want reply kernel).2 = kernel := by
    intro reply kernel errno failed
    cases reply with
    | moves count => cases failed
    | fails other =>
        simp only [Kernel.splice] at failed ⊢
        split
        · rename_i partly
          rw [if_pos partly] at failed
          cases failed
        · rfl
  have final : ∀ kernel, (Kernel.splice want (.moves want) kernel).1 ≠ .error .eintr := by
    intro kernel failed
    cases failed
  obtain ⟨reply, rest, fewer, same, steadily⟩ :=
    retryFrom_cases steady final kernel.replies kernel
  unfold spliceOnce
  rw [same]
  cases reply with
  | moves count =>
      obtain ⟨n, size, answered, moves⟩ := move_moves count want kernel fewer
      refine .inl ⟨n, _, ?_, ?_, moves, answered⟩
      · rw [size]
        exact granted_le_want _ _ _
      · rw [size]
        exact granted_pos asked
  | fails errno =>
      simp only [Kernel.splice] at steadily ⊢
      by_cases partly : errno ≠ .eintr ∧ 0 < kernel.moved ∧ kernel.moved < kernel.teed
      · rw [if_pos partly]
        obtain ⟨n, size, answered, moves⟩ := move_moves want want kernel fewer
        refine .inl ⟨n, _, ?_, ?_, moves, answered⟩
        · rw [size]
          exact granted_le_want _ _ _
        · rw [size]
          exact granted_pos asked
      · rw [if_neg partly] at steadily ⊢
        have lasting : errno ≠ .eintr := fun same => steadily (by rw [same])
        exact .inr ⟨errno, _, fun middle => partly ⟨lasting, middle⟩, unsupported_of_ne lasting,
          .none fewer, rfl⟩

theorem spliceExactFrom_cases (n turns moved : Nat) (kernel : Kernel) (enough : n - moved ≤ turns)
    (there : n - moved ≤ kernel.source.length) (teed : kernel.teed = n)
    (position : kernel.moved = moved) (within : moved ≤ n) :
    (∃ after, Kernel.Moves (n - moved) kernel after ∧
        spliceExactFrom n turns moved kernel = (.ok (), after)) ∨
      moved = 0 ∧ ∃ after, Kernel.Moves 0 kernel after ∧
        spliceExactFrom n turns moved kernel = (.error .refused, after) := by
  induction turns generalizing moved kernel with
  | zero =>
      have done : n - moved = 0 := by omega
      rw [done]
      exact .inl ⟨kernel, .none (Nat.le_refl _), rfl⟩
  | succ turns ih =>
      unfold spliceExactFrom
      by_cases more : moved < n
      · rw [if_pos more]
        have asked : 0 < n - moved := by omega
        rcases spliceOnce_cases asked kernel with
          ⟨count, after, small, progress, moves, answered⟩ |
            ⟨errno, after, fresh, unsupported, moves, answered⟩
        · have positive := progress (by omega)
          obtain ⟨less, rfl⟩ : ∃ less, count = less + 1 := ⟨count - 1, by omega⟩
          rw [answered]
          have left : after.source.length = kernel.source.length - (less + 1) := by
            rw [moves.source, List.length_drop]
          rcases ih (moved + (less + 1)) after (by omega) (by omega) (moves.teed.trans teed)
            (by rw [moves.moved, position]) (by omega) with ⟨last, rest, ran⟩ | ⟨start, _⟩
          · refine .inl ⟨last, ?_, ran⟩
            have whole : n - moved = less + 1 + (n - (moved + (less + 1))) := by omega
            rw [whole]
            exact moves.trans rest
          · omega
        · rw [answered]
          have start : moved = 0 := by omega
          refine .inr ⟨start, after, moves, ?_⟩
          simp only [unsupported, start, and_self, if_true]
      · rw [if_neg more]
        have done : n - moved = 0 := by omega
        rw [done]
        exact .inl ⟨kernel, .none (Nat.le_refl _), rfl⟩

theorem spliceExact_cases (n : Nat) (kernel : Kernel) (there : n ≤ kernel.source.length)
    (teed : kernel.teed = n) (fresh : kernel.moved = 0) :
    (∃ after, Kernel.Moves n kernel after ∧ spliceExact n kernel = (.ok (), after)) ∨
      ∃ after, Kernel.Moves 0 kernel after ∧ spliceExact n kernel = (.error .refused, after) := by
  rcases spliceExactFrom_cases n n 0 kernel (Nat.le_refl _) there teed fresh (Nat.zero_le _) with
    whole | ⟨_, refused⟩
  · exact .inl whole
  · exact .inr refused

theorem stageFrom_shows (turns left : Nat) (copy : Copy) (enough : left ≤ turns)
    (held : copy.kernel.scratch.length = left) :
    ∃ chunks, chunks.flatten = copy.kernel.scratch ∧
      stageFrom turns left copy = (.ok (), { copy with
        kernel := { copy.kernel with scratch := [] }
        tap := { copy.tap with chunks := copy.tap.chunks ++ chunks } }) := by
  induction turns generalizing left copy with
  | zero =>
      have none : copy.kernel.scratch = [] := List.eq_nil_of_length_eq_zero (by omega)
      refine ⟨[], by simp [none], ?_⟩
      rw [stageFrom, List.append_nil, ← none]
  | succ turns ih =>
      unfold stageFrom
      by_cases more : 0 < left
      · have take : min left spliceChunkBytes ≤ copy.kernel.scratch.length := by omega
        have positive : 0 < min left spliceChunkBytes := by
          unfold spliceChunkBytes
          omega
        rw [if_pos more]
        simp only [Kernel.readExact, if_pos take]
        obtain ⟨chunks, shown, ran⟩ := ih (left - min left spliceChunkBytes)
          { copy with
            kernel := { copy.kernel with
              scratch := copy.kernel.scratch.drop (min left spliceChunkBytes) }
            tap := copy.tap.update (copy.kernel.scratch.take (min left spliceChunkBytes)) }
          (by omega) (by simp only [List.length_drop]; omega)
        refine ⟨copy.kernel.scratch.take (min left spliceChunkBytes) :: chunks, ?_, ?_⟩
        · rw [List.flatten_cons, shown, List.take_append_drop]
        · rw [ran]
          simp only [Tap.update, List.append_assoc, List.singleton_append]
      · have none : copy.kernel.scratch = [] := List.eq_nil_of_length_eq_zero (by omega)
        refine ⟨[], by simp [none], ?_⟩
        rw [if_neg more, List.append_nil, ← none]

structure Copy.Follows (stream : Bytes) (observes : Bool) (copy : Copy) : Prop where
  position : copy.kernel.file ++ copy.kernel.source = stream
  len : copy.copied.len = copy.kernel.file.length
  watched : copy.tap.observes = observes
  seen : copy.tap.seen = if observes then copy.kernel.file else []

def Copy.left (copy : Copy) : Nat :=
  copy.kernel.source.length + copy.kernel.replies.length

theorem Copy.Follows.len_le {stream : Bytes} {observes : Bool} {copy : Copy}
    (follows : copy.Follows stream observes) : copy.copied.len ≤ stream.length := by
  rw [follows.len, ← follows.position, List.length_append]
  exact Nat.le_add_right _ _

theorem Copy.Follows.rests {stream : Bytes} {observes : Bool} {copy : Copy} {kernel : Kernel}
    (follows : copy.Follows stream observes) (moves : Kernel.Advances 0 copy.kernel kernel) :
    ({ copy with kernel := kernel } : Copy).Follows stream observes where
  position := by
    rw [moves.file, moves.source]
    simpa using follows.position
  len := by
    rw [moves.file]
    simpa using follows.len
  watched := follows.watched
  seen := by
    rw [moves.file]
    simpa using follows.seen

theorem Copy.Follows.moves {stream : Bytes} {copy : Copy} {kernel : Kernel} {tap : Tap}
    {copied : Copied} {n : Nat} {observes : Bool} (follows : copy.Follows stream observes)
    (moves : Kernel.Advances n copy.kernel kernel) (same : tap.observes = copy.tap.observes)
    (seen : tap.seen = copy.tap.seen ++ if observes then copy.kernel.source.take n else [])
    (len : copied.len = copy.copied.len + n) :
    (⟨kernel, tap, copied⟩ : Copy).Follows stream observes where
  position := by
    change kernel.file ++ kernel.source = stream
    rw [moves.file, moves.source, List.append_assoc, List.take_append_drop]
    exact follows.position
  len := by
    have size := moves.there
    change copied.len = kernel.file.length
    rw [moves.file, List.length_append, List.length_take, len, follows.len]
    omega
  watched := same.trans follows.watched
  seen := by
    change tap.seen = if observes then kernel.file else []
    rw [seen, follows.seen, moves.file]
    cases observes <;> simp

inductive Round.Outcome (stream : Bytes) (observes : Bool) (want : Nat) (copy : Copy) :
    Round × Copy → Prop where
  | eof {after : Copy} (follows : after.Follows stream observes)
      (drained : after.kernel.source = []) (same : after.copied = copy.copied) :
      Outcome stream observes want copy (.ended .eof, after)
  | unsupported {after : Copy} (follows : after.Follows stream observes)
      (less : after.left ≤ copy.left) (same : after.copied = copy.copied) :
      Outcome stream observes want copy (.ended .unsupported, after)
  | moved {count : Nat} {after : Copy} (follows : (after.count count).Follows stream observes)
      (less : after.left < copy.left) (same : after.copied = copy.copied)
      (positive : 0 < count) (small : count ≤ want) (empty : after.kernel.scratch = []) :
      Outcome stream observes want copy (.moved count, after)

theorem Kernel.Advances.left_lt {n : Nat} {before after : Kernel}
    (moves : Kernel.Advances n before after) (positive : 0 < n) :
    after.source.length + after.replies.length < before.source.length + before.replies.length := by
  have there := moves.there
  have fewer := moves.replies
  rw [moves.source, List.length_drop]
  omega

theorem Kernel.Advances.left_le {n : Nat} {before after : Kernel}
    (moves : Kernel.Advances n before after) :
    after.source.length + after.replies.length ≤ before.source.length + before.replies.length := by
  have fewer := moves.replies
  rw [moves.source, List.length_drop]
  omega

theorem plainRound_outcome {stream : Bytes} {want : Nat} {copy : Copy} (asked : 0 < want)
    (follows : copy.Follows stream false) (empty : copy.kernel.scratch = []) :
    Round.Outcome stream false want copy (plainRound want copy) := by
  unfold plainRound
  rcases spliceOnce_cases asked copy.kernel with
    ⟨count, kernel, small, progress, moves, answered⟩ |
      ⟨errno, kernel, _, unsupported, moves, answered⟩
  · rw [answered]
    cases count with
    | zero =>
        have drained : copy.kernel.source = [] := by
          by_contra some
          exact absurd (progress (List.length_pos_iff.mpr some)) (Nat.lt_irrefl 0)
        refine .eof (follows.rests moves.toAdvances) ?_ rfl
        rw [moves.source, drained, List.drop_nil]
    | succ count =>
        refine .moved (follows.moves moves.toAdvances rfl ?_ rfl)
          (moves.toAdvances.left_lt (Nat.succ_pos _)) rfl (Nat.succ_pos _) small
          (moves.scratch.trans empty)
        simp
  · rw [answered]
    simp only [unsupported, if_true]
    exact .unsupported (follows.rests moves.toAdvances) moves.toAdvances.left_le rfl

theorem observedRound_outcome {stream : Bytes} {want : Nat} {copy : Copy} (asked : 0 < want)
    (follows : copy.Follows stream true) (empty : copy.kernel.scratch = []) :
    Round.Outcome stream true want copy (observedRound want copy) := by
  unfold observedRound
  rcases teeOnce_cases asked copy.kernel with
    ⟨count, rest, fewer, small, there, progress, answered⟩ |
      ⟨errno, rest, fewer, unsupported, answered⟩
  · rw [answered]
    cases count with
    | zero =>
        have drained : copy.kernel.source = [] := by
          by_contra some
          exact absurd (progress (List.length_pos_iff.mpr some)) (Nat.lt_irrefl 0)
        exact .eof ⟨follows.position, follows.len, follows.watched, follows.seen⟩ drained rfl
    | succ count =>
        simp only
        rcases spliceExact_cases (count + 1)
          ⟨copy.kernel.source, copy.kernel.file,
            copy.kernel.scratch ++ copy.kernel.source.take (count + 1), count + 1, 0, rest⟩
          there rfl rfl with ⟨kernel, moves, ran⟩ | ⟨kernel, moves, ran⟩
        · rw [ran]
          have scratch : kernel.scratch = copy.kernel.source.take (count + 1) := by
            rw [moves.scratch]
            simp only [empty, List.nil_append]
          have advances : Kernel.Advances (count + 1) copy.kernel { kernel with scratch := [] } :=
            ⟨moves.there, moves.source, moves.file, Nat.le_trans moves.replies fewer⟩
          obtain ⟨chunks, shown, staged⟩ := stageFrom_shows (count + 1) (count + 1)
            { copy with kernel := kernel } (Nat.le_refl _)
            (by simp only [scratch, List.length_take]; omega)
          dsimp only
          rw [staged]
          refine .moved (follows.moves advances rfl ?_ rfl) (advances.left_lt (Nat.succ_pos _)) rfl
            (Nat.succ_pos _) small rfl
          change (copy.tap.chunks ++ chunks).flatten = _
          rw [List.flatten_append, shown]
          change copy.tap.seen ++ kernel.scratch = _
          rw [scratch]
          rfl
        · rw [ran]
          have advances : Kernel.Advances 0 copy.kernel kernel :=
            ⟨Nat.zero_le _, moves.source, moves.file, Nat.le_trans moves.replies fewer⟩
          exact .unsupported (follows.rests advances) advances.left_le rfl
  · rw [answered]
    simp only [unsupported, if_true]
    exact .unsupported (follows.rests (Kernel.Moves.none fewer).toAdvances)
      (Kernel.Moves.none fewer).toAdvances.left_le rfl

theorem kernelRound_outcome {stream : Bytes} {observes : Bool} {want : Nat} {copy : Copy}
    (asked : 0 < want) (follows : copy.Follows stream observes)
    (empty : copy.kernel.scratch = []) :
    Round.Outcome stream observes want copy (kernelRound want copy) := by
  unfold kernelRound
  rw [follows.watched]
  cases observes with
  | true => exact observedRound_outcome asked follows empty
  | false => exact plainRound_outcome asked follows empty

/-- What a turn asks for: something, and no more than the probe byte beyond the limit. -/
theorem want_bounds {limit : UInt64} {total len size : Nat}
    (bounded : min limit.toNat total < 2 ^ 64 - 1) (small : len ≤ limit.toNat)
    (part : len ≤ total) (positive : 0 < size) :
    0 < min (allowance limit - len) size ∧
      len + min (allowance limit - len) size ≤ limit.toNat + 1 := by
  unfold allowance
  omega

theorem spliceRoundBytes_pos : 0 < spliceRoundBytes := by decide

theorem spliceChunkBytes_pos : 0 < spliceChunkBytes := by decide

theorem kernelRounds_outcome {stream : Bytes} {observes : Bool} {limit : UInt64}
    (bounded : min limit.toNat stream.length < 2 ^ 64 - 1) (turns : Nat) (copy : Copy)
    (enough : copy.left < turns)
    (follows : copy.Follows stream observes) (empty : copy.kernel.scratch = [])
    (small : copy.copied.len ≤ limit.toNat) :
    ∃ after : Copy, after.Follows stream observes ∧
      ((kernelRounds limit turns copy = (some (.ok .eof), after) ∧ after.kernel.source = [] ∧
          after.copied.len ≤ limit.toNat) ∨
        (kernelRounds limit turns copy = (some (.ok .unsupported), after) ∧
          after.left ≤ copy.left ∧ after.copied.len ≤ limit.toNat) ∨
        (kernelRounds limit turns copy = (some (.error (.tooLarge limit)), after) ∧
          after.copied.len = limit.toNat + 1)) := by
  induction turns generalizing copy with
  | zero => omega
  | succ turns ih =>
      unfold kernelRounds
      obtain ⟨asked, room⟩ := want_bounds bounded small follows.len_le spliceRoundBytes_pos
      have outcome := kernelRound_outcome asked follows empty
      generalize kernelRound (min (allowance limit - copy.copied.len) spliceRoundBytes) copy = round
        at outcome ⊢
      cases outcome with
      | eof after drained same =>
          exact ⟨_, after, .inl ⟨rfl, drained, by rw [same]; exact small⟩⟩
      | unsupported after less same =>
          exact ⟨_, after, .inr (.inl ⟨rfl, less, by rw [same]; exact small⟩)⟩
      | @moved count after next less same positive within cleared =>
          have total : (after.count count).copied.len = copy.copied.len + count := by
            change after.copied.len + count = _
            rw [same]
          have atMost : (after.count count).copied.len ≤ limit.toNat + 1 := by
            omega
          dsimp only
          by_cases beyond : limit.toNat < (after.count count).copied.len
          · rw [if_pos beyond]
            exact ⟨_, next, .inr (.inr ⟨rfl, by omega⟩)⟩
          · rw [if_neg beyond]
            have fewer : (after.count count).left < turns := by
              change after.left < turns
              omega
            obtain ⟨last, ended, cases⟩ := ih (after.count count) fewer next cleared (by omega)
            refine ⟨last, ended, ?_⟩
            rcases cases with eof | ⟨ran, left, within⟩ | large
            · exact .inl eof
            · refine .inr (.inl ⟨ran, ?_, within⟩)
              have same : (after.count count).left = after.left := rfl
              omega
            · exact .inr (.inr large)

theorem read_cases {want : Nat} (asked : 0 < want) (kernel : Kernel) :
    (∃ rest, rest.length < kernel.replies.length ∧
        (kernel.next want).2.read want (kernel.next want).1 =
          (.error .eintr, { kernel with replies := rest })) ∨
      ∃ n rest, rest.length ≤ kernel.replies.length ∧ n ≤ want ∧ n ≤ kernel.source.length ∧
        (0 < kernel.source.length → 0 < n) ∧
        (kernel.next want).2.read want (kernel.next want).1 =
          (.ok (kernel.source.take n), { kernel with
            source := kernel.source.drop n, replies := rest }) := by
  unfold Kernel.next
  cases listed : kernel.replies with
  | nil =>
      exact .inr ⟨_, kernel.replies, by simp [listed], granted_le_want _ _ _,
        granted_le_available _ _ _, granted_pos asked, rfl⟩
  | cons reply rest =>
      cases reply with
      | moves count =>
          exact .inr ⟨_, rest, Nat.le_succ _, granted_le_want _ _ _, granted_le_available _ _ _,
            granted_pos asked, rfl⟩
      | fails errno =>
          cases errno with
          | eintr => exact .inl ⟨rest, Nat.lt_succ_self _, rfl⟩
          | _ =>
              exact .inr ⟨_, rest, Nat.le_succ _, granted_le_want _ _ _,
                granted_le_available _ _ _, granted_pos asked, rfl⟩

theorem bufferedLoop_outcome {stream : Bytes} {observes : Bool} {limit : UInt64}
    (bounded : min limit.toNat stream.length < 2 ^ 64 - 1) (turns : Nat) (copy : Copy)
    (enough : copy.left < turns)
    (follows : copy.Follows stream observes) (small : copy.copied.len ≤ limit.toNat) :
    ∃ after : Copy, after.Follows stream observes ∧
      ((bufferedLoop limit turns copy = (some (.ok ()), after) ∧ after.kernel.source = [] ∧
          after.copied.len ≤ limit.toNat) ∨
        (bufferedLoop limit turns copy = (some (.error (.tooLarge limit)), after) ∧
          after.copied.len = limit.toNat + 1)) := by
  induction turns generalizing copy with
  | zero => omega
  | succ turns ih =>
      unfold bufferedLoop
      obtain ⟨asked, room⟩ := want_bounds bounded small follows.len_le spliceChunkBytes_pos
      generalize min (allowance limit - copy.copied.len) spliceChunkBytes = want at asked room ⊢
      dsimp only
      rcases read_cases asked copy.kernel with
        ⟨rest, fewer, answered⟩ | ⟨n, rest, fewer, within, there, progress, answered⟩
      · rw [answered]
        have less : ({ copy with kernel := { copy.kernel with replies := rest } } : Copy).left <
            turns := by
          change copy.kernel.source.length + rest.length < turns
          unfold Copy.left at enough
          omega
        exact ih _ less (follows.rests (Kernel.Moves.none (Nat.le_of_lt fewer)).toAdvances) small
      · rw [answered]
        have advances : Kernel.Advances n copy.kernel
            (Kernel.writeAll (copy.kernel.source.take n)
              { copy.kernel with source := copy.kernel.source.drop n, replies := rest }) :=
          ⟨there, rfl, rfl, fewer⟩
        have size : (copy.kernel.source.take n).length = n := by
          rw [List.length_take]
          omega
        cases chunk : copy.kernel.source.take n with
        | nil =>
            rw [chunk] at size
            have none : n = 0 := size.symm
            have drained : copy.kernel.source = [] := by
              by_contra some
              exact absurd (progress (List.length_pos_iff.mpr some)) (by omega)
            subst none
            refine ⟨_, follows.rests (Kernel.Moves.none fewer).toAdvances, .inl ⟨?_, drained, small⟩⟩
            rw [List.drop_zero]
        | cons byte others =>
            rw [chunk] at size advances
            have shown : (copy.tap.show (byte :: others)).seen =
                copy.tap.seen ++ if observes then copy.kernel.source.take n else [] := by
              rw [chunk]
              unfold Tap.show
              rw [follows.watched]
              cases observes <;> simp [Tap.seen, Tap.update]
            have watched : (copy.tap.show (byte :: others)).observes = copy.tap.observes := by
              unfold Tap.show
              split <;> rfl
            have len : ({ copy.copied with len := copy.copied.len + (byte :: others).length } :
                Copied).len = copy.copied.len + n := by rw [size]
            have next := follows.moves advances watched shown len
            dsimp only
            by_cases beyond : limit.toNat < copy.copied.len + (byte :: others).length
            · rw [if_pos beyond]
              exact ⟨_, next, .inr ⟨rfl, by dsimp only; omega⟩⟩
            · rw [if_neg beyond]
              refine ih _ ?_ next (Nat.le_of_not_lt beyond)
              have less := advances.left_lt (by rw [← size]; exact Nat.succ_pos _)
              exact Nat.lt_of_lt_of_le less (Nat.le_of_lt_succ enough)

structure Agrees (stream : Bytes) (observes : Bool) (limit : UInt64)
    (result : Option (Except PayloadError Copied)) (after : Copy) : Prop where
  verdict : ∃ ended, result = some ended ∧
    (ended = .error .empty ↔ stream = []) ∧
    (ended = .error (.tooLarge limit) ↔ limit.toNat < stream.length) ∧
    (∀ error, ended = .error error → error = .empty ∨ error = .tooLarge limit) ∧
    ∀ copied, ended = .ok copied → copied.len = stream.length ∧ after.kernel.file = stream ∧
      (observes = true → after.tap.seen = stream)
  file : after.kernel.file = stream.take (limit.toNat + 1)
  seen : after.tap.seen = if observes then stream.take (limit.toNat + 1) else []

theorem agrees_drained {stream : Bytes} {observes : Bool} {limit : UInt64} {after : Copy}
    (follows : after.Follows stream observes) (empty : after.kernel.source = [])
    (small : after.copied.len ≤ limit.toNat) :
    Agrees stream observes limit (some (finish after.copied)) after := by
  have file : after.kernel.file = stream := by
    rw [← follows.position, empty, List.append_nil]
  have len : after.copied.len = stream.length := by rw [follows.len, file]
  have whole : stream.take (limit.toNat + 1) = stream := List.take_of_length_le (by omega)
  refine ⟨⟨_, rfl, ?_⟩, by rw [file, whole], by rw [follows.seen, file, whole]⟩
  unfold finish
  by_cases none : after.copied.len = 0
  · rw [if_pos none]
    have nothing : stream = [] := List.eq_nil_of_length_eq_zero (by omega)
    refine ⟨by simp [nothing], ?_, ?_, nofun⟩
    · simp [nothing]
    · rintro error ⟨⟩
      exact .inl rfl
  · rw [if_neg none]
    have something : stream ≠ [] := fun nothing => none (by rw [len, nothing]; rfl)
    refine ⟨by simp [something], ⟨nofun, fun beyond => by omega⟩, nofun, ?_⟩
    rintro copied ⟨⟩
    refine ⟨len, file, fun watched => ?_⟩
    rw [follows.seen, watched, file]
    rfl

theorem agrees_tooLarge {stream : Bytes} {observes : Bool} {limit : UInt64} {after : Copy}
    (follows : after.Follows stream observes) (beyond : after.copied.len = limit.toNat + 1) :
    Agrees stream observes limit (some (.error (.tooLarge limit))) after := by
  have size : after.kernel.file.length = limit.toNat + 1 := by rw [← follows.len, beyond]
  have file : after.kernel.file = stream.take (limit.toNat + 1) := by
    rw [← follows.position, ← size, List.take_left]
  have long : limit.toNat < stream.length := by
    rw [← follows.position, List.length_append]
    omega
  have something : stream ≠ [] := by
    rintro rfl
    simp at long
  refine ⟨⟨_, rfl, by simp [something], by simp [long], ?_, nofun⟩, file, by rw [follows.seen, file]⟩
  rintro error ⟨⟩
  exact .inr rfl

theorem finishBuffered_agrees {stream : Bytes} {observes : Bool} {limit : UInt64}
    (bounded : min limit.toNat stream.length < 2 ^ 64 - 1) {turns : Nat} {copy : Copy}
    (enough : copy.left < turns)
    (follows : copy.Follows stream observes) (small : copy.copied.len ≤ limit.toNat) :
    Agrees stream observes limit (finishBuffered limit turns copy).1
      (finishBuffered limit turns copy).2 := by
  unfold finishBuffered
  obtain ⟨after, ended, cases⟩ := bufferedLoop_outcome bounded turns copy enough follows small
  rcases cases with ⟨ran, drained, within⟩ | ⟨ran, beyond⟩
  · rw [ran]
    exact agrees_drained ended drained within
  · rw [ran]
    exact agrees_tooLarge ended beyond

theorem start_follows (stream : Bytes) (observes : Bool) (replies : List Reply) :
    (Copy.start stream observes replies).Follows stream observes where
  position := rfl
  len := rfl
  watched := rfl
  seen := by cases observes <;> rfl

theorem copyToFileBuffered_agrees {limit : UInt64} {stream : Bytes}
    (bounded : min limit.toNat stream.length < 2 ^ 64 - 1) (observes : Bool) (replies : List Reply)
    {turns : Nat}
    (enough : stream.length + replies.length < turns) :
    Agrees stream observes limit
      (copyToFileBuffered limit turns (.start stream observes replies)).1
      (copyToFileBuffered limit turns (.start stream observes replies)).2 :=
  finishBuffered_agrees bounded enough (start_follows stream observes replies) (Nat.zero_le _)

theorem copyToFile_copies (isPipe spare : Bool) {limit : UInt64} {stream : Bytes}
    (bounded : min limit.toNat stream.length < 2 ^ 64 - 1) (observes : Bool)
    (replies : List Reply) {turns : Nat} (enough : stream.length + replies.length < turns) :
    Agrees stream observes limit
      (copyToFile isPipe spare limit turns (.start stream observes replies)).1
      (copyToFile isPipe spare limit turns (.start stream observes replies)).2 := by
  have follows := start_follows stream observes replies
  have small : (Copy.start stream observes replies).copied.len ≤ limit.toNat := Nat.zero_le _
  unfold copyToFile
  cases isPipe with
  | false => exact finishBuffered_agrees bounded enough follows small
  | true =>
      simp only [if_true]
      unfold kernelLoop
      by_cases poor : (Copy.start stream observes replies).tap.observes = true ∧ ¬ spare = true
      · rw [if_pos poor]
        exact finishBuffered_agrees bounded enough follows small
      · rw [if_neg poor]
        obtain ⟨after, ended, cases⟩ := kernelRounds_outcome bounded turns
          (.start stream observes replies) enough follows rfl small
        rcases cases with ⟨ran, drained, within⟩ | ⟨ran, less, within⟩ | ⟨ran, beyond⟩
        · rw [ran]
          exact agrees_drained ended drained within
        · rw [ran]
          exact finishBuffered_agrees bounded (Nat.lt_of_le_of_lt less enough) ended within
        · rw [ran]
          exact agrees_tooLarge ended beyond

/-- What fits is copied whole. -/
theorem copyToFile_fits (isPipe spare : Bool) {limit : UInt64}
    {stream : Bytes} (bounded : min limit.toNat stream.length < 2 ^ 64 - 1)
    (replies : List Reply) {turns : Nat} (enough : stream.length + replies.length < turns)
    (fits : stream.length ≤ limit.toNat) :
    ∃ result copy, copyToFile isPipe spare limit turns (.start stream true replies) =
        (some result, copy) ∧ copy.kernel.file = stream ∧ copy.tap.seen = stream ∧
      (stream = [] ∧ result = .error .empty ∨
        ∃ copied, result = .ok copied ∧ copied.len = stream.length) := by
  obtain ⟨⟨result, ended, empty, large, known, whole⟩, file, seen⟩ :=
    copyToFile_copies isPipe spare bounded true replies enough
  have all : stream.take (limit.toNat + 1) = stream := List.take_of_length_le (by omega)
  rw [all] at file seen
  refine ⟨result, _, Prod.ext ended rfl, file, seen, ?_⟩
  cases result with
  | ok copied => exact .inr ⟨copied, rfl, (whole copied rfl).1⟩
  | error error =>
      rcases known error rfl with rfl | rfl
      · exact .inl ⟨empty.mp rfl, rfl⟩
      · exact absurd (large.mp rfl) (Nat.not_lt.mpr fits)

/-- On every road and under every list of replies, a stream within the limit is copied whole and
shown whole to an observer; an empty one and one beyond the limit are the only errors. -/
theorem copyToFile_agrees (isPipe spare : Bool) (limit : UInt64)
    (bounded : limit.toNat < 2 ^ 64 - 1) (stream : Bytes) (observes : Bool)
    (replies : List Reply) (turns : Nat) (enough : stream.length + replies.length < turns) :
    Agrees stream observes limit
      (copyToFile isPipe spare limit turns (.start stream observes replies)).1
      (copyToFile isPipe spare limit turns (.start stream observes replies)).2 :=
  copyToFile_copies isPipe spare (Nat.lt_of_le_of_lt (Nat.min_le_left _ _) bounded) observes
    replies enough

/-- Three bytes, five calls that go wrong, and a switch to the buffer in the middle. -/
theorem copyToFile_agrees_sample :
    let ran := copyToFile true true 3 20 (.start [1, 2, 3] true
      [.fails .eintr, .moves 1, .fails .eintr, .moves 1, .moves 2, .fails .einval, .fails .eintr])
    Agrees [1, 2, 3] true 3 ran.1 ran.2 ∧ ran.2.kernel.file = [1, 2, 3] ∧
      ran.2.tap.chunks = [[1], [2, 3]] :=
  ⟨copyToFile_agrees true true 3 (by decide) [1, 2, 3] true _ 20 (by decide), by decide,
    by decide⟩

end Y4p.Splice
