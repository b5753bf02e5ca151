import Y4p.Core.Reader

/-!
Payloads of every kind and their bounded reads, hint and buffer included
(`crates/core/src/payload.rs`).
-/

namespace Y4p

-- What a `Vec` leaves open: whether it can reserve so much, and the room it offers to the next
-- read, given what was reserved and how many bytes it holds.
structure Allocator where
  reserves : Nat → Bool
  room : Nat → Nat → Nat

-- `Read::take`
structure Limited where
  inner : Reader
  left : Nat

def Limited.read (want : Nat) (src : Limited) : Except String (Bytes × Limited) :=
  if src.left = 0 then .ok ([], src)
  else
    match src.inner.read (min want src.left) with
    | .error error => .error error
    | .ok (chunk, inner) => .ok (chunk, { inner := inner, left := src.left - chunk.length })

-- `read_to_end`: reads until one gives nothing.
def readToEnd (allocator : Allocator) (reserved : Nat) :
    Nat → Bytes → Limited → Except String Bytes × Reader
  | 0, payload, src => (.ok payload, src.inner)
  | turns + 1, payload, src =>
      match src.read (max 1 (allocator.room reserved payload.length)) with
      | .error error => (.error error, src.inner)
      | .ok ([], src) => (.ok payload, src.inner)
      | .ok (byte :: more, src) =>
          readToEnd allocator reserved turns (payload ++ byte :: more) src

-- The hint is clamped, and only ever reserved.
def reservedFor (allocator : Allocator) (limit : UInt64) : Option UInt64 → Nat
  | none => 0
  | some hint =>
      let cap := min (min hint.toNat limit.toNat) payloadPreallocCapBytes
      if allocator.reserves cap then cap else 0

-- `read_bounded`, with the reader as it is left.
def readBoundedFrom (allocator : Allocator) (reader : Reader) (limit : UInt64)
    (capacityHint : Option UInt64) : Except PayloadError Bytes × Reader :=
  match readToEnd allocator (reservedFor allocator limit capacityHint) (reader.rest.length + 1) []
      { inner := reader, left := Splice.allowance limit } with
  | (.error error, after) => (.error (.io error), after)
  | (.ok payload, after) =>
      (if payload = [] then .error .empty
        else if limit.toNat < payload.length then .error (.tooLarge limit)
        else .ok payload, after)

structure StreamDescriptor where
  reader : Reader
  lenHint : Option UInt64

structure OpenFile where
  content : Bytes
  reads : List Nat
  len : Option UInt64

def OpenFile.reader (file : OpenFile) : Reader :=
  Reader.pipe file.content file.reads

@[simp] theorem OpenFile.reader_rest (file : OpenFile) : file.reader.rest = file.content := rfl

theorem OpenFile.reader_sound (file : OpenFile) : file.reader.fault = none := rfl

-- `Payload`, with what opening its file gives.
inductive OpenPayload where
  | memory (data : Bytes)
  | stream (descriptor : StreamDescriptor)
  | file (opened : Except String OpenFile)
  | spooled (len : UInt64) (opened : Except String OpenFile)

inductive PayloadReader where
  | memory (data : Bytes) (reads : List Nat)
  | stream (descriptor : StreamDescriptor)
  | file (file : OpenFile)

namespace OpenPayload

def readBounded (allocator : Allocator) (limit : UInt64) :
    OpenPayload → Except PayloadError Bytes × Option Reader
  | .memory data =>
      (if data = [] then .error .empty
        else if limit.toNat < data.length then .error (.tooLarge limit)
        else .ok data, none)
  | .stream descriptor =>
      (readBoundedFrom allocator descriptor.reader limit descriptor.lenHint).map id some
  | .file (.error error) => (.error (.io error), none)
  | .file (.ok found) =>
      if found.len.any fun len => limit < len then (.error (.tooLarge limit), some found.reader)
      else (readBoundedFrom allocator found.reader limit found.len).map id some
  | .spooled len opened =>
      if limit < len then (.error (.tooLarge limit), none)
      else
        match opened with
        | .error error => (.error (.io error), none)
        | .ok found => (readBoundedFrom allocator found.reader limit (some len)).map id some

def Holds (content : Bytes) : OpenPayload → Prop
  | .memory data => data = content
  | .stream descriptor =>
      descriptor.reader.rest = content ∧ descriptor.reader.fault = none
  | .file opened =>
      ∃ file, opened = .ok file ∧ file.content = content ∧
        ∀ len, file.len = some len → len.toNat = content.length
  | .spooled len opened =>
      len.toNat = content.length ∧ ∃ file, opened = .ok file ∧ file.content = content

end OpenPayload

theorem Limited.read_next {want : Nat} (asked : 0 < want) {src : Limited}
    (sound : src.inner.fault = none) :
    ∃ chunk after, src.read want = .ok (chunk, after) ∧ chunk ++ after.inner.rest = src.inner.rest ∧
      chunk.length + after.left = src.left ∧ after.inner.fault = none ∧
      (chunk = [] → src.inner.rest.take src.left = [] ∧ after.inner.rest = src.inner.rest) := by
  unfold Limited.read
  by_cases done : src.left = 0
  · rw [if_pos done, done]
    exact ⟨[], src, rfl, rfl, by rw [List.length_nil, Nat.zero_add, done], sound,
      fun _ => ⟨List.take_zero, rfl⟩⟩
  · rw [if_neg done]
    have positive : 0 < min want src.left := Nat.lt_min.mpr ⟨asked, Nat.pos_of_ne_zero done⟩
    obtain ⟨chunk, inner, read, parts, small, still, last⟩ := Reader.read_next positive sound
    rw [read]
    refine ⟨chunk, { inner := inner, left := src.left - chunk.length }, rfl, parts, ?_, still, ?_⟩
    · dsimp only
      have fits := small.trans (Nat.min_le_right _ _)
      omega
    · intro nothing
      subst nothing
      exact ⟨by rw [last rfl, List.take_nil], parts⟩

theorem readToEnd_rest (allocator : Allocator) (reserved turns : Nat) (payload : Bytes)
    (src : Limited) (sound : src.inner.fault = none) (enough : src.inner.rest.length < turns) :
    ∃ after, readToEnd allocator reserved turns payload src =
        (.ok (payload ++ src.inner.rest.take src.left), after) ∧
      after.rest = src.inner.rest.drop src.left := by
  induction turns generalizing payload src with
  | zero => omega
  | succ turns ih =>
      have asked : 0 < max 1 (allocator.room reserved payload.length) :=
        Nat.lt_of_lt_of_le Nat.one_pos (Nat.le_max_left _ _)
      obtain ⟨chunk, next, read, parts, left, still, last⟩ := Limited.read_next asked sound
      unfold readToEnd
      rw [read]
      cases chunk with
      | nil =>
          obtain ⟨nothing, same⟩ := last rfl
          refine ⟨next.inner, ?_, ?_⟩
          · rw [nothing, List.append_nil]
          · have whole := List.take_append_drop src.left src.inner.rest
            rw [nothing, List.nil_append] at whole
            rw [same, whole]
      | cons byte more =>
          have size : src.inner.rest.length = (byte :: more).length + next.inner.rest.length := by
            rw [← parts, List.length_append]
          have fewer : next.inner.rest.length < turns := by
            simp only [List.length_cons] at size
            omega
          obtain ⟨after, ran, remains⟩ := ih (payload ++ byte :: more) next still fewer
          refine ⟨after, ?_, ?_⟩
          · dsimp only
            rw [ran, ← parts, ← left, List.take_length_add_append, List.append_assoc]
          · rw [remains, ← parts, ← left, List.drop_length_add_append]

structure ReadsBounded (content : Bytes) (limit : UInt64)
    (outcome : Except PayloadError Bytes × Option Reader) : Prop where
  whole : 1 ≤ content.length → content.length ≤ limit.toNat → outcome.1 = .ok content
  empty : content = [] → outcome.1 = .error .empty
  tooLarge : limit.toNat < content.length → outcome.1 = .error (.tooLarge limit)
  taken : ∀ after, outcome.2 = some after →
    ∃ read, read ++ after.rest = content ∧ read.length ≤ limit.toNat + 1

theorem readsBounded_of_bytes (content : Bytes) (limit : UInt64) :
    ReadsBounded content limit
      (if content = [] then .error .empty
        else if limit.toNat < content.length then .error (.tooLarge limit)
        else .ok content, none) := by
  refine ⟨?_, ?_, ?_, ?_⟩
  · intro some fits
    rw [if_neg (List.ne_nil_of_length_pos some), if_neg (Nat.not_lt.mpr fits)]
  · intro nothing
    rw [if_pos nothing]
  · intro beyond
    rw [if_neg (List.ne_nil_of_length_pos (Nat.zero_lt_of_lt beyond)), if_pos beyond]
  · intro after opened
    cases opened

/-- A file whose size tells is refused before any byte of it is read. -/
theorem readsBounded_refused {content : Bytes} {limit : UInt64} (beyond : limit.toNat < content.length)
    {reader : Option Reader} (untouched : ∀ after, reader = some after → after.rest = content) :
    ReadsBounded content limit (.error (.tooLarge limit), reader) := by
  refine ⟨?_, ?_, fun _ => rfl, ?_⟩
  · intro _ fits
    omega
  · rintro rfl
    cases beyond
  · intro after opened
    exact ⟨[], untouched after opened, Nat.zero_le _⟩

theorem readBoundedFrom_reads (allocator : Allocator) {reader : Reader} (sound : reader.fault = none)
    {limit : UInt64} (below : limit.toNat < 2 ^ 64 - 1) (capacityHint : Option UInt64) :
    ReadsBounded reader.rest limit
      ((readBoundedFrom allocator reader limit capacityHint).map id some) := by
  have probe : Splice.allowance limit = limit.toNat + 1 := by
    unfold Splice.allowance
    omega
  obtain ⟨after, ran, remains⟩ := readToEnd_rest allocator
    (reservedFor allocator limit capacityHint) (reader.rest.length + 1) []
    { inner := reader, left := Splice.allowance limit } sound (Nat.lt_succ_self _)
  dsimp only at ran remains
  rw [probe] at remains
  unfold readBoundedFrom
  rw [ran, List.nil_append, probe]
  refine ⟨?_, ?_, ?_, ?_⟩
  · intro some fits
    rw [List.take_of_length_le (Nat.le_succ_of_le fits)]
    exact (readsBounded_of_bytes reader.rest limit).whole some fits
  · intro nothing
    rw [nothing]
    rfl
  · intro beyond
    have probed : (reader.rest.take (limit.toNat + 1)).length = limit.toNat + 1 :=
      List.length_take_of_le beyond
    dsimp only [Prod.map]
    rw [if_neg (List.ne_nil_of_length_pos (by omega)), if_pos (by omega), id]
  · intro left opened
    cases opened
    refine ⟨reader.rest.take (limit.toNat + 1), ?_, List.length_take_le _ _⟩
    rw [remains, List.take_append_drop]

/-- Neither the hint nor the buffer shows in what is read. -/
theorem readBoundedFrom_eq (allocator : Allocator) {reader : Reader} (sound : reader.fault = none)
    (limit : UInt64) (capacityHint : Option UInt64) :
    (readBoundedFrom allocator reader limit capacityHint).1 = readBounded reader limit := by
  obtain ⟨after, ran, _⟩ := readToEnd_rest allocator
    (reservedFor allocator limit capacityHint) (reader.rest.length + 1) []
    { inner := reader, left := Splice.allowance limit } sound (Nat.lt_succ_self _)
  obtain ⟨last, taken, _⟩ := reader.takeToEnd_rest (Splice.allowance limit) sound
  unfold readBoundedFrom readBounded
  rw [ran, taken]
  rfl

/-- Whatever holds the bytes, however they are read and whatever length was announced. -/
theorem readBounded_agrees (allocator : Allocator) (content : Bytes) (limit : UInt64)
    (below : limit.toNat < 2 ^ 64 - 1) :
    (∀ payload : OpenPayload, payload.Holds content →
      ReadsBounded content limit (payload.readBounded allocator limit)) ∧
    ∀ (reader : Reader) (capacityHint : Option UInt64), reader.rest = content →
      reader.fault = none →
      ReadsBounded content limit
        ((readBoundedFrom allocator reader limit capacityHint).map id some) := by
  constructor
  · intro payload holds
    cases payload with
    | memory data =>
        cases holds
        exact readsBounded_of_bytes content limit
    | stream descriptor =>
        obtain ⟨rfl, sound⟩ := holds
        exact readBoundedFrom_reads allocator sound below descriptor.lenHint
    | file opened =>
        obtain ⟨file, rfl, rfl, stated⟩ := holds
        unfold OpenPayload.readBounded
        dsimp only
        split
        · rename_i beyond
          obtain ⟨len, isLen, larger⟩ := (Option.any_eq_true _ _).mp beyond
          have size := stated len isLen
          refine readsBounded_refused (size ▸ UInt64.lt_iff_toNat_lt.mp (of_decide_eq_true larger)) ?_
          intro after opened
          cases opened
          rfl
        · exact readBoundedFrom_reads allocator file.reader_sound below file.len
    | spooled len opened =>
        obtain ⟨size, file, rfl, rfl⟩ := holds
        unfold OpenPayload.readBounded
        dsimp only
        split
        · rename_i beyond
          refine readsBounded_refused (size ▸ UInt64.lt_iff_toNat_lt.mp beyond) ?_
          intro after opened
          cases opened
        · exact readBoundedFrom_reads allocator file.reader_sound below (some len)
  · rintro reader capacityHint rfl sound
    exact readBoundedFrom_reads allocator sound below capacityHint

def sampleAllocator : Allocator where
  reserves := fun _ => true
  room := fun reserved len => reserved + 1 - len

theorem readBounded_agrees_sample :
    ReadsBounded sampleText 2 (OpenPayload.readBounded sampleAllocator 2
      (.stream { reader := .pipe sampleText [1], lenHint := some 1000 })) :=
  (readBounded_agrees sampleAllocator sampleText 2 (by decide)).1 _ ⟨rfl, rfl⟩

end Y4p
