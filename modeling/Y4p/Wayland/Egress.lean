import Y4p.Core.Bounded
import Y4p.Wayland.Source

/-!
The transfer of an open payload to the receiver (`transfer` of
`handlers/data_control/source.rs`): kernel-side from a file, by a copy from anything else.
-/

namespace Y4p

def PayloadReader.reader : PayloadReader → Reader
  | .memory data reads => Reader.pipe data reads
  | .stream descriptor => descriptor.reader
  | .file opened => opened.reader

-- A pipe has no offset to read from: `sendfile(2)` may be interrupted, then answers `ESPIPE`.
def sendFromStream (reader : Reader) : List SendfileReply → Bytes
  | [] => copyRemaining reader 0
  | .interrupted :: replies => sendFromStream reader replies
  | .moved _ :: _ => copyRemaining reader 0
  | .refused :: _ => copyRemaining reader 0
  | .failed :: _ => []

def transfer (src : PayloadReader) (replies : List SendfileReply) : Bytes :=
  match src with
  | .memory data reads => copyRemaining (Reader.pipe data reads) 0
  | .stream descriptor => sendFromStream descriptor.reader replies
  | .file file => sendFrom file.content file.reads replies 0

def PayloadReader.Opens (content : Bytes) (src : PayloadReader) : Prop :=
  src.reader.rest = content ∧ src.reader.fault = none

theorem sendFromStream_whole {reader : Reader} {replies : List SendfileReply}
    (moves : ∀ reply ∈ replies, reply ≠ .failed) :
    sendFromStream reader replies = copyRemaining reader 0 := by
  induction replies with
  | nil => rfl
  | cons reply rest ih =>
      cases reply with
      | interrupted => exact ih fun other member => moves other (List.mem_cons_of_mem _ member)
      | moved count => rfl
      | refused => rfl
      | failed => exact absurd rfl (moves _ List.mem_cons_self)

/-- Wherever `sendfile` gives up, the receiver has every byte once and in order, as it has from a
plain copy. -/
theorem transfer_once (content : Bytes) (replies : List SendfileReply)
    (moves : ∀ reply ∈ replies, reply ≠ .failed) :
    (∀ file : OpenFile, file.content = content → transfer (.file file) replies = content) ∧
    ∀ src : PayloadReader, src.Opens content →
      transfer src replies = content ∧ copyRemaining src.reader 0 = content := by
  have copied : ∀ src : PayloadReader, src.Opens content →
      copyRemaining src.reader 0 = content := by
    rintro src ⟨rfl, sound⟩
    rw [copyRemaining_sound sound (Nat.zero_le _), List.drop_zero]
  have served : ∀ file : OpenFile, file.content = content →
      transfer (.file file) replies = content := by
    rintro file rfl
    exact sendFrom_whole moves (Nat.zero_le _)
  refine ⟨served, fun src opens => ⟨?_, copied src opens⟩⟩
  cases src with
  | memory data reads => exact copied _ opens
  | stream descriptor => exact (sendFromStream_whole moves).trans (copied _ opens)
  | file file => exact served file opens.1

theorem transfer_once_sample :
    transfer (.file { content := sampleText, reads := [1], len := none })
        [.interrupted, .moved 1, .refused] = sampleText ∧
      transfer (.stream { reader := .pipe sampleText [1], lenHint := none })
        [.interrupted, .moved 1, .refused] = sampleText := by
  have once := transfer_once sampleText [.interrupted, .moved 1, .refused] (by decide)
  exact ⟨once.1 _ rfl, (once.2 _ ⟨rfl, rfl⟩).1⟩

end Y4p
