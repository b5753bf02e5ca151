import Y4p.Core.Splice
import Y4p.Core.Utils

/-!
Readers, bounded reads and the routing of payloads (`crates/core/src/payload.rs`).
-/

namespace Y4p

-- A pipe, behind what a cursor chained in front of it still holds. `reads` is how much each read
-- gives, cut to what is asked for and there; `fault` is the error met where the bytes end.
structure Reader where
  buffered : Bytes
  piped : Bytes
  reads : List Nat
  fault : Option String

namespace Reader

def pipe (content : Bytes) (reads : List Nat) : Reader where
  buffered := []
  piped := content
  reads := reads
  fault := none

def rest (reader : Reader) : Bytes :=
  reader.buffered ++ reader.piped

def chain (head : Bytes) (reader : Reader) : Reader :=
  { reader with buffered := head ++ reader.buffered }

def read (want : Nat) (reader : Reader) : Except String (Bytes × Reader) :=
  let count := reader.reads.headD want
  match reader.buffered with
  | [] =>
      match reader.fault, reader.piped with
      | some error, [] => .error error
      | _, piped =>
          let n := Splice.granted count want piped.length
          .ok (piped.take n, { reader with piped := piped.drop n, reads := reader.reads.tail })
  | buffered =>
      let n := Splice.granted count want buffered.length
      .ok (buffered.take n, { reader with buffered := buffered.drop n, reads := reader.reads.tail })

-- `take(left).read_to_end`: every read but the last gives a byte.
def takeFrom : Nat → Nat → Reader → Except String (Bytes × Reader)
  | 0, _, reader => .ok ([], reader)
  | turns + 1, left, reader =>
      if left = 0 then .ok ([], reader)
      else
        match reader.read left with
        | .error error => .error error
        | .ok ([], reader) => .ok ([], reader)
        | .ok (byte :: more, reader) =>
            match takeFrom turns (left - (byte :: more).length) reader with
            | .error error => .error error
            | .ok (others, reader) => .ok (byte :: more ++ others, reader)

def takeToEnd (limit : Nat) (reader : Reader) : Except String (Bytes × Reader) :=
  takeFrom (reader.rest.length + 1) limit reader

@[simp] theorem pipe_rest (content : Bytes) (reads : List Nat) :
    (pipe content reads).rest = content := rfl

@[simp] theorem chain_rest (head : Bytes) (reader : Reader) :
    (reader.chain head).rest = head ++ reader.rest :=
  List.append_assoc _ _ _

@[simp] theorem chain_fault (head : Bytes) (reader : Reader) :
    (reader.chain head).fault = reader.fault := rfl

/-- Where nothing fails, a read gives the next bytes, none of them only at the end. -/
theorem read_next {want : Nat} (asked : 0 < want) {reader : Reader} (sound : reader.fault = none) :
    ∃ chunk after, reader.read want = .ok (chunk, after) ∧ chunk ++ after.rest = reader.rest ∧
      chunk.length ≤ want ∧ after.fault = none ∧ (chunk = [] → reader.rest = []) := by
  obtain ⟨buffered, piped, reads, fault⟩ := reader
  have none : fault = none := sound
  subst none
  have short : ∀ bytes : Bytes,
      (bytes.take (Splice.granted (reads.headD want) want bytes.length)).length ≤ want :=
    fun bytes => (List.length_take_le _ _).trans (Splice.granted_le_want _ _ _)
  have last : ∀ bytes : Bytes,
      bytes.take (Splice.granted (reads.headD want) want bytes.length) = [] → bytes = [] := by
    intro bytes nothing
    by_contra there
    have given : 0 < Splice.granted (reads.headD want) want bytes.length :=
      Splice.granted_pos asked (List.length_pos_iff.mpr there)
    rcases List.take_eq_nil_iff.mp nothing with zero | empty
    · omega
    · exact there empty
  cases buffered with
  | nil =>
      refine ⟨_, _, rfl, ?_, short piped, rfl, last piped⟩
      simp only [rest, List.nil_append, List.take_append_drop]
  | cons byte more =>
      refine ⟨_, _, rfl, ?_, short (byte :: more), rfl, fun nothing => ?_⟩
      · simp only [rest]
        rw [← List.append_assoc, List.take_append_drop]
      · exact absurd (last (byte :: more) nothing) (List.cons_ne_nil _ _)

theorem takeFrom_rest (turns left : Nat) (reader : Reader) (sound : reader.fault = none)
    (enough : reader.rest.length < turns) :
    ∃ after, takeFrom turns left reader = .ok (reader.rest.take left, after) ∧
      after.rest = reader.rest.drop left ∧ after.fault = none := by
  induction turns generalizing left reader with
  | zero => omega
  | succ turns ih =>
      unfold takeFrom
      by_cases done : left = 0
      · rw [if_pos done, done]
        exact ⟨reader, rfl, rfl, sound⟩
      · rw [if_neg done]
        obtain ⟨chunk, next, read, parts, small, still, last⟩ :=
          read_next (Nat.pos_of_ne_zero done) sound
        rw [read]
        cases chunk with
        | nil =>
            have none := last rfl
            rw [List.nil_append] at parts
            rw [none] at parts ⊢
            refine ⟨next, ?_, ?_, still⟩
            · rw [List.take_nil]
            · rw [parts, List.drop_nil]
        | cons byte more =>
            have size : reader.rest.length = (byte :: more).length + next.rest.length := by
              rw [← parts, List.length_append]
            have fewer : next.rest.length < turns := by
              simp only [List.length_cons] at size
              omega
            obtain ⟨after, taken, remains, sound⟩ :=
              ih (left - (byte :: more).length) next still fewer
            dsimp only
            rw [taken]
            refine ⟨after, ?_, ?_, sound⟩
            · rw [← parts, List.take_append, List.take_of_length_le small]
            · rw [remains, ← parts, List.drop_append, List.drop_of_length_le small,
                List.nil_append]

theorem takeToEnd_rest (limit : Nat) (reader : Reader) (sound : reader.fault = none) :
    ∃ after, reader.takeToEnd limit = .ok (reader.rest.take limit, after) ∧
      after.rest = reader.rest.drop limit ∧ after.fault = none :=
  takeFrom_rest _ limit reader sound (Nat.lt_succ_self _)

end Reader

def readBounded (reader : Reader) (limit : UInt64) : Except PayloadError Bytes :=
  match reader.takeToEnd (Splice.allowance limit) with
  | .error error => .error (.io error)
  | .ok (payload, _) =>
      if payload = [] then .error .empty
      else if limit.toNat < payload.length then .error (.tooLarge limit)
      else .ok payload

/-- A payload that fits is read whole, however the reads come. -/
theorem readBounded_fits {reader : Reader} (sound : reader.fault = none) {limit : UInt64}
    (some : reader.rest ≠ []) (fits : reader.rest.length ≤ limit.toNat) :
    readBounded reader limit = .ok reader.rest := by
  have bound := limit.toNat_lt
  obtain ⟨after, taken, _⟩ := reader.takeToEnd_rest (Splice.allowance limit) sound
  have whole : reader.rest.take (Splice.allowance limit) = reader.rest := by
    refine List.take_of_length_le ?_
    unfold Splice.allowance
    omega
  unfold readBounded
  rw [taken, whole]
  dsimp only
  rw [if_neg some, if_neg (by omega)]

inductive PayloadRoute where
  | inline
  | stream
  deriving DecidableEq

def routePayload (mime : Str) (lenHint : Option UInt64) : PayloadRoute :=
  match lenHint with
  | some len => if len.toNat ≤ inlinePayloadThresholdBytes then .inline else .stream
  | none => if isTextLikeMime mime then .inline else .stream

end Y4p
