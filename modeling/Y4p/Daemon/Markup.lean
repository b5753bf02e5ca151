import Y4p.Core.UriList
import Y4p.Core.Xml
import Y4p.Daemon.Bypass
import Y4p.Daemon.Restore
import Y4p.Storage.TextMimes

/-!
What becomes of an XML document announced as text: whether ingestion keeps it as the text it is,
all the way to storage, search and the offers of a restore.
-/

namespace Y4p

def ingestedBytes (percentDecode : Bytes → Bytes) (mime : Str) (payload : Bytes) : Bytes :=
  if mimeBaseEq mime mimeUriList then normalizeUriList percentDecode payload else payload

structure KeptAsText (percentDecode : Bytes → Bytes) (mime : Str) (payload : Bytes) : Prop where
  kept : normalisePayload percentDecode mime payload =
    some (mime, ingestedBytes percentDecode mime payload)
  previewed : (previewOf mime (ingestedBytes percentDecode mime payload)).isSome = true
  stored : contentOf mime (ingestedBytes percentDecode mime payload) (isCacheClass mime) =
      .text (ingestedBytes percentDecode mime payload) ∨
    contentOf mime (ingestedBytes percentDecode mime payload) (isCacheClass mime) =
      .chunked (ingestedBytes percentDecode mime payload)
  searched : textMimeSqlPredicate mime = true
  offered : ∃ offer ∈ offers mime, isTextLikeMime offer = true

theorem contentOf_text {mime : Str} (text : isTextLikeMime mime = true) (data : Bytes)
    (isImage : Bool) :
    (contentOf mime data isImage = .text data ∨ contentOf mime data isImage = .chunked data) ↔
      (isChunkable mime data.length = true ∨ isUtf8 data = true) := by
  unfold contentOf
  rw [text, Bool.and_true]
  by_cases long : isChunkable mime data.length = true
  · rw [if_pos long]
    exact iff_of_true (.inr rfl) (.inl long)
  · rw [if_neg long, or_iff_right long]
    by_cases valid : isUtf8 data = true
    · rw [if_pos valid]
      exact iff_of_true (.inl rfl) valid
    · rw [if_neg valid]
      refine iff_of_false ?_ valid
      split
      · rintro (same | same) <;> cases same
      · rintro (same | same) <;> cases same

theorem textMimeSqlPredicate_of_text {mime : Str} (text : isTextLikeMime mime = true) :
    textMimeSqlPredicate mime = true ↔ HoldsWord mime := by
  have noMedia := ((isTextLikeMime_iff mime).mp text).1
  rw [textMimeSqlPredicate_iff]
  exact and_iff_right fun image => noMedia (.inl (baseIs_image image))

theorem normalisePayload_xml {percentDecode : Bytes → Bytes}
    (decodes : PercentDecodes percentDecode) {mime : Str} (text : isTextLikeMime mime = true)
    {xml : Xml.Text} (proper : xml.Proper) :
    normalisePayload percentDecode mime xml.bytes =
        some (mime, ingestedBytes percentDecode mime xml.bytes) ↔
      mimeBaseEq mime mimeUriList = true ∨ ¬ xml.Mistaken ∧ ¬ Xml.Branded xml.bytes := by
  rw [← Xml.Text.detected proper]
  unfold normalisePayload ingestedBytes
  by_cases list : mimeBaseEq mime mimeUriList = true
  · obtain ⟨blanks, first, rest, isBytes, blank, opens⟩ := Xml.Text.opening proper
    have visible : ∀ byte ∈ ([0xEF, 0x3C, 0xFF, 0xFE, 0x00, 0x4C] : Bytes),
        isAsciiWhitespace byte = false ∧ byte ∉ ([0x23, 0x25, 0x66] : Bytes) := by
      simp only [List.forall_mem_cons, List.not_mem_nil, false_implies, implies_true, and_true]
      decide
    have there : normalizeUriList percentDecode xml.bytes ≠ [] := by
      rw [isBytes]
      exact normalizeUriList_literal decodes
        (fun byte member => Xml.isSpace_blank (blank byte member)) (visible first opens).1
        (visible first opens).2 rest
    rw [if_pos list, if_pos list, if_neg there]
    exact iff_of_true rfl (.inl list)
  · rw [if_neg list, if_neg list, or_iff_right list]
    cases found : detectImageMime xml.bytes with
    | none => exact iff_of_true rfl rfl
    | some detected =>
        refine iff_of_false ?_ (Option.some_ne_none _)
        intro same
        have relabelled : detected = mime := (Prod.mk.inj (Option.some.inj same)).1
        have image := detectImageMime_image found
        rw [relabelled, text] at image
        cases image

def applicationXml : Str := "application/xml".toList

def smallDocument (declaration : Option Bytes) : Xml.Document where
  mark := false
  declaration := declaration
  misc := []
  doctype := none
  root := [0x72]
  rest := [0x2F, 0x3E]

def versionInfo : Bytes :=
  [0x20, 0x76, 0x65, 0x72, 0x73, 0x69, 0x6F, 0x6E, 0x3D, 0x22, 0x31, 0x2E, 0x30, 0x22]

theorem smallDocument_proper {declaration : Option Bytes}
    (known : declaration = none ∨ declaration = some versionInfo) :
    (smallDocument declaration).Proper := by
  have named : Xml.IsName [0x72] :=
    ⟨List.cons_ne_nil _ _, List.forall_mem_singleton.mpr (by decide)⟩
  refine ⟨?_, ?_, ?_, named, ⟨0x2F, rfl, by decide⟩⟩
  · intro info declared
    change declaration = some info at declared
    rcases known with rfl | rfl
    · cases declared
    · cases declared
      refine ⟨fun byte head => ?_, by decide⟩
      cases head
      decide
  · intro item member
    cases member
  · intro body misc declared
    cases declared

end Y4p
