import Y4p.Core.Reader
import Y4p.Core.Sniff
import Y4p.Wayland.State

/-!
From a selection's pipe to its job: the reader threads of
`handlers/data_control/device.rs` and the spooler they drain large payloads into (`spool.rs`).
-/

namespace Y4p

abbrev SpoolDir := SpoolPath → Option Bytes

inductive SpoolOutcome where
  | spooled (file : SpooledFile)
  | rejected
  | unavailable (rest : Reader)

-- `PayloadSpooler::spool`.
abbrev PayloadSpooler := SpoolDir → Bytes → Reader → UInt64 → SpoolOutcome × SpoolDir

namespace PayloadSpooler

def Spools (sha3 : Bytes → Bytes) (dir : SpoolDir) (spooler : PayloadSpooler) : Prop :=
  ∀ head src limit, src.fault = none → limit.toNat < 2 ^ 64 - 1 →
    head.length + src.rest.length ≤ limit.toNat →
    ∃ file after, spooler dir head src limit = (.spooled file, after) ∧
      file.len.toNat = (head ++ src.rest).length ∧ file.digest = sha3 (head ++ src.rest) ∧
      after file.path = some (head ++ src.rest)

def GivesBack (dir : SpoolDir) (spooler : PayloadSpooler) : Prop :=
  ∀ head src limit, spooler dir head src limit = (.unavailable src, dir)

end PayloadSpooler

inductive Drained where
  | memory (payload : Bytes)
  | spooled (file : SpooledFile) (head : Bytes)

def readPipePayload (reader : Reader) (limit : UInt64) : Option Bytes :=
  (readBounded reader limit).toOption

def drainPipe (reader : Reader) (mime : Str) (limit : UInt64) (spooler : Option PayloadSpooler)
    (dir : SpoolDir) : Option Drained × SpoolDir :=
  match spooler.filter fun _ => routePayload mime none = .stream with
  | none => ((readPipePayload reader limit).map .memory, dir)
  | some spool =>
      match reader.takeToEnd inlinePayloadThresholdBytes with
      | .error _ => (none, dir)
      | .ok (head, reader) =>
          if head.length < inlinePayloadThresholdBytes then
            (if head = [] then none else some (.memory head), dir)
          else
            match spool dir head reader limit with
            | (.spooled file, dir) => (some (.spooled file head), dir)
            | (.rejected, dir) => (none, dir)
            | (.unavailable rest, dir) =>
                ((readBounded (rest.chain head) limit).toOption.map .memory, dir)

def relabelByMagic (announced : Str) (head : Bytes) : Str :=
  match detectImageMime head with
  | some detected => detected
  | none => announced

def normalisePayload (percentDecode : Bytes → Bytes) (mimeToGet : Str) (payload : Bytes) :
    Option (Str × Bytes) :=
  if mimeBaseEq mimeToGet mimeUriList then
    let normalised := normalizeUriList percentDecode payload
    if normalised = [] then none else some (mimeToGet, normalised)
  else
    match detectImageMime payload with
    | some mime => some (mime, payload)
    | none => some (mimeToGet, payload)

-- What `ingest_and_send` queues.
def ingestedJob (percentDecode : Bytes → Bytes) (reader : Reader) (mimeToGet : Str)
    (spooler : Option PayloadSpooler) (dir : SpoolDir) : Option ClipboardJob × SpoolDir :=
  match drainPipe reader mimeToGet (.ofNat maxPayloadBytes) spooler dir with
  | (some (.memory payload), dir) =>
      ((normalisePayload percentDecode mimeToGet payload).map fun (mime, data) =>
        .new mime data, dir)
  | (some (.spooled file head), dir) =>
      (some (.fromPayload (relabelByMagic mimeToGet head) (.spooled file)), dir)
  | (none, dir) => (none, dir)

def ClipboardJob.denotes (job : ClipboardJob) (dir : SpoolDir) : Option (Str × Bytes) :=
  match job.payload with
  | .memory data => some (job.mime, data)
  | .file _ => none
  | .spooled file => (dir file.path).map fun data => (job.mime, data)

def Ingests (percentDecode : Bytes → Bytes) (mime : Str) (content : Bytes)
    (ingested : Option ClipboardJob × SpoolDir) : Prop :=
  ingested.1.map (fun job => job.denotes ingested.2) =
    (normalisePayload percentDecode mime content).map some

/-- Whether a MIME is an image, a sound or a film, and which hints it holds, does not depend on
case. -/
theorem isTextLikeMime_of_uriList {mime : Str} (list : mimeBaseEq mime mimeUriList = true) :
    isTextLikeMime mime = true := by
  have base : mimeBase mimeUriList = mimeUriList := by decide
  have same : (mimeBase mime).map toAsciiLowercase = mimeUriList := by
    unfold mimeBaseEq eqIgnoreAsciiCase at list
    rw [base, beq_iff_eq] at list
    rw [list]
    decide
  have starts : ∀ start, startsWithIgnoreAsciiCase (mimeBase mime) start =
      (mimeUriList.take start.length == start.map toAsciiLowercase) := by
    intro start
    unfold startsWithIgnoreAsciiCase eqIgnoreAsciiCase
    rw [List.map_take, same]
  unfold isTextLikeMime
  simp only [starts, same]
  decide

theorem routePayload_stream (mime : Str) :
    routePayload mime none = .stream ↔ ¬ isTextLikeMime mime = true := by
  unfold routePayload
  by_cases text : isTextLikeMime mime = true
  · rw [if_pos text]
    exact ⟨nofun, fun other => absurd text other⟩
  · rw [if_neg text]
    exact ⟨fun _ => text, fun _ => rfl⟩

theorem readPipePayload_pipe (reads : List Nat) {content : Bytes} {limit : UInt64}
    (there : content ≠ []) (fits : content.length ≤ limit.toNat) :
    readPipePayload (.pipe content reads) limit = some content := by
  have whole : readBounded (.pipe content reads) limit = .ok content :=
    readBounded_fits rfl there fits
  unfold readPipePayload
  rw [whole]
  rfl

theorem drainPipe_unspooled (reads : List Nat) {mime : Str} {content : Bytes} {limit : UInt64}
    (there : content ≠ []) (fits : content.length ≤ limit.toNat)
    {spooler : Option PayloadSpooler}
    (unspooled : spooler = none ∨ isTextLikeMime mime = true) (dir : SpoolDir) :
    drainPipe (.pipe content reads) mime limit spooler dir = (some (.memory content), dir) := by
  have filtered : (spooler.filter fun _ => routePayload mime none = .stream) = none := by
    rcases unspooled with rfl | text
    · rfl
    · refine Option.filter_eq_none_iff.mpr fun spool _ => ?_
      rw [decide_eq_true_eq, routePayload_stream]
      exact fun other => other text
  unfold drainPipe
  rw [filtered, readPipePayload_pipe reads there fits]
  rfl

/-- The head is read first; once it is full, the spooler is given the pipe behind it. -/
theorem drainPipe_streamed (reads : List Nat) {mime : Str} {content : Bytes} (limit : UInt64)
    (there : content ≠ []) (binary : ¬ isTextLikeMime mime = true) (spool : PayloadSpooler)
    (dir : SpoolDir) :
    ∃ behind : Reader, behind.rest = content.drop inlinePayloadThresholdBytes ∧
      behind.fault = none ∧
      drainPipe (.pipe content reads) mime limit (some spool) dir =
        if content.length < inlinePayloadThresholdBytes then (some (.memory content), dir)
        else
          match spool dir (content.take inlinePayloadThresholdBytes) behind limit with
          | (.spooled file, dir) =>
              (some (.spooled file (content.take inlinePayloadThresholdBytes)), dir)
          | (.rejected, dir) => (none, dir)
          | (.unavailable rest, dir) =>
              ((readBounded (rest.chain (content.take inlinePayloadThresholdBytes))
                limit).toOption.map .memory, dir) := by
  have filtered : ((some spool).filter fun _ => routePayload mime none = .stream) = some spool :=
    Option.filter_some_pos (decide_eq_true ((routePayload_stream mime).mpr binary))
  obtain ⟨behind, taken, remains, sound⟩ :=
    (Reader.pipe content reads).takeToEnd_rest inlinePayloadThresholdBytes rfl
  refine ⟨behind, remains, sound, ?_⟩
  unfold drainPipe
  rw [filtered]
  dsimp only
  rw [taken]
  dsimp only [Reader.pipe, Reader.rest, List.nil_append]
  by_cases short : content.length < inlinePayloadThresholdBytes
  · rw [List.take_of_length_le (Nat.le_of_lt short), if_pos short, if_pos short, if_neg there]
  · have full : ¬ (content.take inlinePayloadThresholdBytes).length <
        inlinePayloadThresholdBytes := by
      rw [List.length_take]
      omega
    rw [if_neg short, if_neg full]

theorem drainPipe_givenBack (reads : List Nat) {mime : Str} {content : Bytes} {limit : UInt64}
    (there : content ≠ []) (fits : content.length ≤ limit.toNat)
    (binary : ¬ isTextLikeMime mime = true) {spool : PayloadSpooler} {dir : SpoolDir}
    (back : spool.GivesBack dir) :
    drainPipe (.pipe content reads) mime limit (some spool) dir = (some (.memory content), dir) := by
  obtain ⟨behind, remains, sound, drained⟩ :=
    drainPipe_streamed reads limit there binary spool dir
  have whole : (behind.chain (content.take inlinePayloadThresholdBytes)).rest = content := by
    rw [Reader.chain_rest, remains, List.take_append_drop]
  have read := readBounded_fits ((Reader.chain_fault _ behind).trans sound)
    (whole.symm ▸ there) (whole.symm ▸ fits)
  rw [drained, back]
  dsimp only
  rw [read, whole]
  exact ite_self _

theorem drainPipe_spooled (reads : List Nat) {mime : Str} {content : Bytes} {limit : UInt64}
    (long : inlinePayloadThresholdBytes ≤ content.length) (fits : content.length ≤ limit.toNat)
    (bounded : limit.toNat < 2 ^ 64 - 1) (binary : ¬ isTextLikeMime mime = true)
    {sha3 : Bytes → Bytes} {spool : PayloadSpooler} {dir : SpoolDir}
    (spools : spool.Spools sha3 dir) :
    ∃ file after, drainPipe (.pipe content reads) mime limit (some spool) dir =
        (some (.spooled file (content.take inlinePayloadThresholdBytes)), after) ∧
      after file.path = some content := by
  have there : content ≠ [] := by
    rintro rfl
    exact absurd long (by decide)
  obtain ⟨behind, remains, sound, drained⟩ :=
    drainPipe_streamed reads limit there binary spool dir
  have whole : content.take inlinePayloadThresholdBytes ++ behind.rest = content := by
    rw [remains, List.take_append_drop]
  have size : (content.take inlinePayloadThresholdBytes).length + behind.rest.length =
      content.length := by
    rw [← List.length_append, whole]
  obtain ⟨file, after, answer, _, _, held⟩ :=
    spools (content.take inlinePayloadThresholdBytes) behind limit sound bounded (by omega)
  refine ⟨file, after, ?_, held.trans (congrArg some whole)⟩
  rw [drained, answer, if_neg (by omega)]

theorem normalisePayload_binary (percentDecode : Bytes → Bytes) {mime : Str}
    (binary : ¬ isTextLikeMime mime = true) (payload : Bytes) :
    normalisePayload percentDecode mime payload = some (relabelByMagic mime payload, payload) := by
  have other : ¬ mimeBaseEq mime mimeUriList = true :=
    fun list => binary (isTextLikeMime_of_uriList list)
  unfold normalisePayload relabelByMagic
  rw [if_neg other]
  cases detectImageMime payload <;> rfl

/-- A head tells the MIME of the whole unless an XML marker ends behind it. -/
theorem relabelByMagic_take {n : Nat} (enough : 17 ≤ n) (mime : Str) (data : Bytes) :
    relabelByMagic mime (data.take n) = relabelByMagic mime data ↔
      ¬ LateMarker n data ∨ mime = "image/svg+xml".toList := by
  unfold relabelByMagic
  by_cases late : LateMarker n data
  · obtain ⟨head, whole⟩ := detectImageMime_late enough late
    rw [head, whole]
    exact ⟨.inr, fun either => either.resolve_left (not_not_intro late)⟩
  · rw [detectImageMime_take enough late]
    exact ⟨fun _ => .inl late, fun _ => rfl⟩

theorem LateMarker.length {n : Nat} {data : Bytes} (late : LateMarker n data) :
    n < data.length := by
  obtain ⟨marker, _, starts, beyond⟩ := late
  have fits := starts.length_le
  have whole := congrArg List.length (List.takeWhile_append_dropWhile (p := isAsciiWhitespace)
    (l := data))
  rw [List.length_append] at whole
  unfold trimAsciiStart at fits
  omega

section Agreement

variable (percentDecode : Bytes → Bytes) {mime : Str} {content : Bytes} {reads : List Nat}
  {spooler : Option PayloadSpooler} {dir : SpoolDir}

theorem ingests_memory {after : SpoolDir}
    (drained : drainPipe (.pipe content reads) mime (.ofNat maxPayloadBytes) spooler dir =
      (some (.memory content), after)) :
    Ingests percentDecode mime content
      (ingestedJob percentDecode (.pipe content reads) mime spooler dir) := by
  unfold Ingests ingestedJob
  rw [drained]
  dsimp only
  cases normalisePayload percentDecode mime content <;> rfl

theorem ingests_spooled (binary : ¬ isTextLikeMime mime = true) {file : SpooledFile}
    {head : Bytes} {after : SpoolDir}
    (drained : drainPipe (.pipe content reads) mime (.ofNat maxPayloadBytes) spooler dir =
      (some (.spooled file head), after))
    (held : after file.path = some content) :
    Ingests percentDecode mime content
        (ingestedJob percentDecode (.pipe content reads) mime spooler dir) ↔
      relabelByMagic mime head = relabelByMagic mime content := by
  have denoted : (ClipboardJob.fromPayload (relabelByMagic mime head) (.spooled file)).denotes
      after = some (relabelByMagic mime head, content) :=
    congrArg (Option.map _) held
  unfold Ingests ingestedJob
  rw [drained, normalisePayload_binary percentDecode binary]
  dsimp only
  rw [Option.map_some, Option.map_some, denoted, Option.some_inj, Option.some_inj, Prod.mk.injEq]
  exact and_iff_left rfl

theorem ingests_streamed (there : content ≠ []) (fits : content.length ≤ maxPayloadBytes)
    (binary : ¬ isTextLikeMime mime = true) {sha3 : Bytes → Bytes} {spool : PayloadSpooler}
    (spools : spool.Spools sha3 dir) :
    Ingests percentDecode mime content
        (ingestedJob percentDecode (.pipe content reads) mime (some spool) dir) ↔
      ¬ LateMarker inlinePayloadThresholdBytes content ∨ mime = "image/svg+xml".toList := by
  by_cases long : inlinePayloadThresholdBytes ≤ content.length
  · obtain ⟨file, after, drained, held⟩ := drainPipe_spooled reads long
      (show content.length ≤ (UInt64.ofNat maxPayloadBytes).toNat from fits) (by decide) binary spools
    rw [ingests_spooled percentDecode binary drained held]
    exact relabelByMagic_take (by decide) mime content
  · obtain ⟨behind, _, _, drained⟩ :=
      drainPipe_streamed reads (.ofNat maxPayloadBytes) there binary spool dir
    rw [if_pos (Nat.lt_of_not_le long)] at drained
    refine ⟨fun _ => .inl fun late => long (Nat.le_of_lt late.length), fun _ => ?_⟩
    exact ingests_memory percentDecode drained

end Agreement

def PayloadSpooler.Answers (sha3 : Bytes → Bytes) (dir : SpoolDir)
    (spooler : Option PayloadSpooler) : Prop :=
  spooler = none ∨ ∃ spool, spooler = some spool ∧ (spool.Spools sha3 dir ∨ spool.GivesBack dir)

/-- A selection becomes the same job on every road, unless it is spooled, is told for XML only
behind the head, and was announced as another type than SVG. -/
theorem ingestedJob_agrees (percentDecode sha3 : Bytes → Bytes) (mime : Str) (content : Bytes)
    (reads : List Nat) (spooler : Option PayloadSpooler) (dir : SpoolDir)
    (there : 1 ≤ content.length) (fits : content.length ≤ maxPayloadBytes)
    (answers : PayloadSpooler.Answers sha3 dir spooler) :
    Ingests percentDecode mime content
        (ingestedJob percentDecode (.pipe content reads) mime spooler dir) ↔
      (∀ spool, spooler = some spool → spool.GivesBack dir) ∨ isTextLikeMime mime = true ∨
        ¬ LateMarker inlinePayloadThresholdBytes content ∨ mime = "image/svg+xml".toList := by
  have some : content ≠ [] := List.length_pos_iff.mp there
  have limit : content.length ≤ (UInt64.ofNat maxPayloadBytes).toNat := fits
  by_cases text : isTextLikeMime mime = true
  · have drained : drainPipe (.pipe content reads) mime (.ofNat maxPayloadBytes) spooler dir =
        (.some (.memory content), dir) :=
      drainPipe_unspooled reads some limit (.inr text) dir
    exact ⟨fun _ => .inr (.inl text), fun _ => ingests_memory percentDecode drained⟩
  · rcases answers with rfl | ⟨spool, rfl, spools | back⟩
    · have drained : drainPipe (.pipe content reads) mime (.ofNat maxPayloadBytes) none dir =
          (.some (.memory content), dir) :=
        drainPipe_unspooled reads some limit (.inl rfl) dir
      exact ⟨fun _ => .inl nofun, fun _ => ingests_memory percentDecode drained⟩
    · have busy : ¬ ∀ other, Option.some spool = .some other → other.GivesBack dir := by
        intro back
        obtain ⟨file, after, answer, _⟩ := spools [] (.pipe [] []) 0 rfl (by decide) (Nat.le_refl 0)
        rw [back spool rfl] at answer
        cases answer
      rw [ingests_streamed percentDecode some fits text spools, or_iff_right busy,
        or_iff_right text]
    · have drained := drainPipe_givenBack reads some limit text back
      refine ⟨fun _ => .inl fun other same => ?_, fun _ => ingests_memory percentDecode drained⟩
      exact Option.some.inj same ▸ back

def sampleSpooler (sha3 : Bytes → Bytes) : PayloadSpooler := fun dir head src limit =>
  let content := head ++ src.rest
  if limit.toNat < content.length then (.rejected, dir)
  else
    (.spooled { path := 0, len := .ofNat content.length, digest := sha3 content },
      fun path => if path = 0 then some content else dir path)

theorem sampleSpooler_spools (sha3 : Bytes → Bytes) (dir : SpoolDir) :
    (sampleSpooler sha3).Spools sha3 dir := by
  intro head src limit _ _ fits
  have bound := limit.toNat_lt
  have size : (head ++ src.rest).length ≤ limit.toNat := by
    rw [List.length_append]
    exact fits
  refine ⟨_, _, if_neg (Nat.not_lt.mpr size), ?_, rfl, if_pos rfl⟩
  exact Nat.mod_eq_of_lt (by omega)

@[irreducible] def longImage : Bytes := sampleImage ++ List.replicate inlinePayloadThresholdBytes 0

theorem longImage_length : longImage.length = inlinePayloadThresholdBytes + 4 := by
  rw [longImage, List.length_append, List.length_replicate, Nat.add_comm]
  rfl

theorem longImage_early : ¬ LateMarker inlinePayloadThresholdBytes longImage := by
  rintro ⟨marker, isMarker, starts, _⟩
  have bare : trimAsciiStart longImage = longImage := by
    rw [longImage]
    rfl
  rw [bare, longImage] at starts
  obtain ⟨rest, same⟩ := starts
  rcases isMarker with rfl | rfl
  · exact absurd (List.cons.inj same).1 (by decide)
  · exact absurd (List.cons.inj same).1 (by decide)

def longImageJob : Option ClipboardJob × SpoolDir :=
  ingestedJob id (.pipe longImage [1, 2]) "image/png".toList (some (sampleSpooler sampleSha3))
    fun _ => none

theorem longImageJob_spooled :
    ∃ mime file, longImageJob.1 = some (.fromPayload mime (.spooled file)) := by
  have long : inlinePayloadThresholdBytes ≤ longImage.length := by
    rw [longImage_length]
    exact Nat.le_add_right _ _
  have fits : longImage.length ≤ (UInt64.ofNat maxPayloadBytes).toNat := by
    rw [longImage_length]
    decide
  have binary : ¬ isTextLikeMime "image/png".toList = true := by decide
  obtain ⟨file, after, drained, _⟩ := drainPipe_spooled [1, 2] long fits (by decide) binary
    (sampleSpooler_spools sampleSha3 fun _ => none)
  refine ⟨relabelByMagic "image/png".toList (longImage.take inlinePayloadThresholdBytes), file, ?_⟩
  rw [longImageJob, ingestedJob, drained]

theorem ingestedJob_agrees_sample :
    (∃ mime file, longImageJob.1 = some (.fromPayload mime (.spooled file))) ∧
      Ingests id "image/png".toList longImage longImageJob := by
  have there : 1 ≤ longImage.length := by
    rw [longImage_length]
    decide
  have fits : longImage.length ≤ maxPayloadBytes := by
    rw [longImage_length]
    decide
  refine ⟨longImageJob_spooled, ?_⟩
  exact (ingestedJob_agrees id sampleSha3 _ _ _ _ _ there fits
    (.inr ⟨_, rfl, .inl (sampleSpooler_spools sampleSha3 _)⟩)).mpr (.inr (.inr (.inl longImage_early)))

def blankSvg : Bytes := List.replicate inlinePayloadThresholdBytes 0x20 ++ svgOpen

-- SHA3-256 of `blankSvg`.
def blankSvgDigest : Bytes :=
  [68, 247, 193, 66, 169, 144, 252, 227, 184, 211, 65, 102, 161, 184, 33, 3,
    42, 168, 222, 36, 172, 164, 208, 200, 4, 192, 24, 86, 26, 204, 77, 169]

theorem blankSvg_length : blankSvg.length = inlinePayloadThresholdBytes + 4 := by
  rw [blankSvg, List.length_append, List.length_replicate]
  rfl

theorem blankSvg_late : LateMarker inlinePayloadThresholdBytes blankSvg := by
  have blank : ∀ byte ∈ List.replicate inlinePayloadThresholdBytes (0x20 : UInt8),
      isAsciiWhitespace byte = true := by
    intro byte member
    rw [List.eq_of_mem_replicate member]
    decide
  refine ⟨svgOpen, .inr rfl, ?_, ?_⟩
  · rw [trimAsciiStart, blankSvg, List.dropWhile_append_of_pos blank]
    decide
  · rw [blankSvg, List.takeWhile_append_of_pos blank, List.length_append, List.length_replicate]
    have marked : 0 < svgOpen.length := by decide
    omega

theorem ingestedJob_agrees_counterexample :
    1 ≤ blankSvg.length ∧ blankSvg.length ≤ maxPayloadBytes ∧
      (sampleSpooler fun _ => blankSvgDigest).Spools (fun _ => blankSvgDigest) (fun _ => none) ∧
      ¬ Ingests id "image/png".toList blankSvg
        (ingestedJob id (.pipe blankSvg []) "image/png".toList
          (some (sampleSpooler fun _ => blankSvgDigest)) fun _ => none) := by
  have spools := sampleSpooler_spools (fun _ => blankSvgDigest) fun _ => none
  have large : blankSvg.length ≤ maxPayloadBytes := by
    rw [blankSvg_length]
    decide
  have there : blankSvg ≠ [] := by
    intro empty
    have size := blankSvg_length
    rw [empty] at size
    cases size
  refine ⟨List.length_pos_iff.mpr there, large, spools, ?_⟩
  rw [ingests_streamed id there large (by decide) spools]
  rintro (early | named)
  · exact early blankSvg_late
  · exact absurd named (by decide)

end Y4p
