import Y4p.Core.Mimes
import Y4p.Core.Reader
import Y4p.Wayland.State

/-!
Serving the selection: `mime_is_compatible` (`handlers/data_control/mod.rs`), the events of
`ext_data_control_source_v1` and the egress (`handlers/data_control/source.rs`).
-/

namespace Y4p

def textAliases : List Str :=
  ["text/plain".toList, "utf8_string".toList, "string".toList, "text".toList,
    "compound_text".toList]

def isTextCategory (base : Str) : Bool :=
  startsWithIgnoreAsciiCase base "text/".toList

def isTextAlias (base : Str) : Bool :=
  textAliases.any fun atom => eqIgnoreAsciiCase base atom

def isTextCompatible (base : Str) : Bool :=
  isTextCategory base || isTextAlias base || isHtmlMime base

def mimeIsCompatible (requested target : Str) : Bool :=
  let req := mimeBase requested
  let tgt := mimeBase target
  eqIgnoreAsciiCase req tgt || (isTextCategory req && isTextCategory tgt) ||
    (isHtmlMime req && isHtmlMime tgt) ||
    ((isTextAlias req && isTextCompatible tgt) || (isTextAlias tgt && isTextCompatible req))

-- What a transfer thread is started with. `hash` names a cache file, opened by the thread.
inductive EgressJob where
  | bytes (data : Bytes)
  | file (hash : Str) (stripMarkup : Bool)

-- A spooled payload cannot be duplicated. Without a job the receiver's descriptor is closed.
def DataSource.send (source : DataSource) (mimeType : Str) : Option EgressJob :=
  if mimeIsCompatible mimeType source.mime then
    let stripMarkup := isHtmlMime source.mime && !isHtmlMime mimeType
    match source.payload with
    | .memory data => some (.bytes (if stripMarkup then stripHtmlTags data else data))
    | .file hash => some (.file hash stripMarkup)
    | .spooled _ => none
  else none

-- `refused` stands for `EINVAL`, `ENOSYS` and `ESPIPE`, `failed` for any other error.
inductive SendfileReply where
  | moved (count : Nat)
  | interrupted
  | refused
  | failed
  deriving DecidableEq

-- What `sendfile(2)` has moved already is read and discarded.
def copyRemaining (src : Reader) (alreadySent : Nat) : Bytes :=
  match src.takeToEnd alreadySent with
  | .ok (skipped, src) =>
      if skipped.length = alreadySent then
        match src.takeToEnd src.rest.length with
        | .ok (data, _) => data
        | .error _ => []
      else []
  | .error _ => []

-- From `offset` on. Once the replies are used up, the rest goes at one go.
def sendFrom (content : Bytes) (reads : List Nat) : List SendfileReply → Nat → Bytes
  | [], offset => content.drop offset
  | .moved count :: replies, offset =>
      let n := Splice.granted count (2 ^ 30) (content.length - offset)
      if n = 0 then []
      else (content.drop offset).take n ++ sendFrom content reads replies (offset + n)
  | .interrupted :: replies, offset => sendFrom content reads replies offset
  | .refused :: _, offset => copyRemaining (Reader.pipe content reads) offset
  | .failed :: _, _ => []

def EgressJob.run (files : Str → Option Bytes) (reads : List Nat) (replies : List SendfileReply) :
    EgressJob → Option Bytes
  | .bytes data => some data
  | .file hash stripMarkup =>
      match files hash with
      | none => none
      | some content =>
          if stripMarkup then
            match readBounded (Reader.pipe content reads) (UInt64.ofNat maxPayloadBytes) with
            | .ok data => some (stripHtmlTags data)
            | .error _ => none
          else some (sendFrom content reads replies 0)

def DataSource.paste (source : DataSource) (files : Str → Option Bytes) (reads : List Nat)
    (replies : List SendfileReply) (mimeType : Str) : Option Bytes :=
  (source.send mimeType).bind (EgressJob.run files reads replies)

theorem copyRemaining_sound {reader : Reader} (sound : reader.fault = none) {alreadySent : Nat}
    (within : alreadySent ≤ reader.rest.length) :
    copyRemaining reader alreadySent = reader.rest.drop alreadySent := by
  obtain ⟨after, skipped, rest, still⟩ := reader.takeToEnd_rest alreadySent sound
  obtain ⟨last, taken, _, _⟩ := after.takeToEnd_rest after.rest.length still
  unfold copyRemaining
  rw [skipped]
  dsimp only
  rw [if_pos (List.length_take_of_le within), taken]
  dsimp only
  rw [List.take_length, rest]

theorem copyRemaining_pipe {content : Bytes} {reads : List Nat} {alreadySent : Nat}
    (within : alreadySent ≤ content.length) :
    copyRemaining (Reader.pipe content reads) alreadySent = content.drop alreadySent :=
  @copyRemaining_sound (Reader.pipe content reads) rfl _ within

/-- However the kernel cuts the transfer, interrupts it or gives it up. -/
theorem sendFrom_whole {content : Bytes} {reads : List Nat} {replies : List SendfileReply}
    (moves : ∀ reply ∈ replies, reply ≠ .failed) {offset : Nat} (within : offset ≤ content.length) :
    sendFrom content reads replies offset = content.drop offset := by
  induction replies generalizing offset with
  | nil => rfl
  | cons reply rest ih =>
      have later : ∀ other ∈ rest, other ≠ .failed :=
        fun other member => moves other (List.mem_cons_of_mem _ member)
      cases reply with
      | moved count =>
          have available := Splice.granted_le_available count (2 ^ 30) (content.length - offset)
          unfold sendFrom
          dsimp only
          split
          · rename_i nothing
            have done : content.length - offset = 0 := by
              by_contra left
              have given := @Splice.granted_pos count (2 ^ 30) _ (by decide)
                (Nat.pos_of_ne_zero left)
              omega
            rw [List.drop_of_length_le (by omega)]
          · rw [ih later (by omega), ← List.drop_drop, List.take_append_drop]
      | interrupted => exact ih later within
      | refused => exact copyRemaining_pipe within
      | failed => exact absurd rfl (moves _ List.mem_cons_self)

theorem paste_unlinked {source : DataSource} {files : Str → Option Bytes} {hash : Str}
    (payload : source.payload = .file hash) (unlinked : files hash = none) (reads : List Nat)
    (replies : List SendfileReply) (mimeType : Str) :
    source.paste files reads replies mimeType = none := by
  unfold DataSource.paste DataSource.send
  rw [payload]
  split
  · rw [Option.bind_some]
    unfold EgressJob.run
    dsimp only
    rw [unlinked]
  · rfl

theorem mimeIsCompatible_self (mime : Str) : mimeIsCompatible mime mime = true := by
  unfold mimeIsCompatible eqIgnoreAsciiCase
  simp

theorem compatible_of_alias {requested target : Str}
    (asked : isTextAlias (mimeBase requested) = true)
    (text : isTextCompatible (mimeBase target) = true) :
    mimeIsCompatible requested target = true := by
  unfold mimeIsCompatible
  simp only [asked, text, Bool.and_self, Bool.true_or, Bool.or_true]

theorem compatible_of_html {requested target : Str}
    (asked : isHtmlMime (mimeBase requested) = true)
    (markup : isHtmlMime (mimeBase target) = true) : mimeIsCompatible requested target = true := by
  unfold mimeIsCompatible
  simp only [asked, markup, Bool.and_self, Bool.or_true, Bool.true_or]

theorem textMimeAlts_alias : ∀ alt ∈ textMimeAlts, isTextAlias (mimeBase alt) = true := by
  decide

theorem htmlMimeAlts_markup : ∀ alt ∈ htmlMimeAlts,
    isTextAlias (mimeBase alt) = true ∨ isHtmlMime (mimeBase alt) = true := by
  decide

/-- Of the old string atoms only a text target has one to give. -/
theorem compatible_string (target : Str) :
    mimeIsCompatible "STRING".toList target = true ↔ isTextCompatible (mimeBase target) = true := by
  refine ⟨?_, compatible_of_alias (by decide)⟩
  have base : mimeBase "STRING".toList = "STRING".toList := by decide
  have category : isTextCategory "STRING".toList = false := by decide
  have markup : isHtmlMime "STRING".toList = false := by decide
  unfold mimeIsCompatible
  rw [base]
  simp only [category, markup, Bool.false_and, Bool.or_false, Bool.or_eq_true, Bool.and_eq_true]
  have of_atom : isTextAlias (mimeBase target) = true →
      isTextCompatible (mimeBase target) = true := by
    intro atom
    unfold isTextCompatible
    rw [atom, Bool.or_true, Bool.true_or]
  rintro (same | ⟨_, text⟩ | ⟨atom, _⟩)
  · refine of_atom (List.any_eq_true.mpr ⟨"string".toList, by decide, ?_⟩)
    unfold eqIgnoreAsciiCase at same ⊢
    rw [beq_iff_eq] at same ⊢
    rw [← same]
    decide
  · exact text
  · exact of_atom atom

def Payload.Holds (files : Str → Option Bytes) (data : Bytes) : Payload → Prop
  | .memory bytes => bytes = data
  | .file hash => files hash = some data ∧ data ≠ [] ∧ data.length ≤ maxPayloadBytes
  | .spooled _ => False

structure Answered (mime alt : Str) : Prop where
  compatible : mimeIsCompatible alt mime = true
  pasted : ∀ id payload files data, payload.Holds files data → ∀ reads replies,
    (∀ reply ∈ replies, reply ≠ SendfileReply.failed) →
      (DataSource.mk id mime payload).paste files reads replies alt =
        some (if isHtmlMime mime && !isHtmlMime alt then stripHtmlTags data else data)

theorem answered_iff {mime alt : Str} : Answered mime alt ↔ mimeIsCompatible alt mime = true := by
  refine ⟨Answered.compatible, fun compatible => ⟨compatible, ?_⟩⟩
  intro id payload files data holds reads replies moves
  unfold DataSource.paste DataSource.send
  dsimp only
  rw [if_pos compatible]
  cases payload with
  | memory bytes =>
      cases holds
      rfl
  | spooled file => exact holds.elim
  | file hash =>
      obtain ⟨found, some, fits⟩ := holds
      rw [Option.bind_some]
      unfold EgressJob.run
      dsimp only
      rw [found]
      dsimp only
      split
      · have bound : (UInt64.ofNat maxPayloadBytes).toNat = maxPayloadBytes := by decide
        rw [@readBounded_fits (Reader.pipe data reads) rfl _ some (bound ▸ fits)]
        rfl
      · rw [sendFrom_whole moves (Nat.zero_le _), List.drop_zero]

end Y4p
