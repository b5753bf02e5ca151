import Y4p.Core.UriList
import Y4p.Daemon.Worker
import Y4p.Wayland.Ingestion

/-!
What ingested text costs the converter: nothing, unless a URI list decodes to what looks like a
picture (`normalise_payload` of `handlers/data_control/device.rs`, `route_with` of
`crates/image/src/route.rs` and `process_job` of `crates/daemon/src/worker.rs`).
-/

namespace Y4p

open Programs

def BeginsRaster (data : Bytes) : Prop :=
  4 ≤ data.length ∧
    (data.take 4 = [0x89, 0x50, 0x4E, 0x47] ∨ data.take 3 = [0xFF, 0xD8, 0xFF] ∨
      (data.take 4 = riff ∧ 12 ≤ data.length ∧ (data.drop 8).take 4 = webp ∧
        isAnimatedWebp data = false))

instance (data : Bytes) : Decidable (BeginsRaster data) :=
  inferInstanceAs (Decidable (_ ∧ _))

/-- Where the label names no format the signature alone decides. -/
theorem classify_unlabelled {mime : Str} (other : InputFormat.fromMime mime = none) (data : Bytes) :
    classify mime data = (detectBinary data).bind InputFormat.fromMime := by
  have svg : InputFormat.fromMime "image/svg+xml".toList = none := by decide
  unfold classify detectImageMime
  rw [detectBinary_take (by decide)]
  cases detectBinary data with
  | some detected => rfl
  | none =>
      dsimp only
      split
      · rename_i detected found
        split at found
        · cases found
          exact svg
        · cases found
      · exact other

theorem plan_unlabelled {mime : Str} (other : InputFormat.fromMime mime = none) (data : Bytes) :
    plan mime data = none ↔ ¬ BeginsRaster data := by
  have png : InputFormat.fromMime "image/png".toList = some .png := by decide
  have jpeg : InputFormat.fromMime "image/jpeg".toList = some .jpeg := by decide
  have gif : InputFormat.fromMime "image/gif".toList = some .gif := by decide
  have webpFormat : InputFormat.fromMime "image/webp".toList = some .webp := by decide
  have avifFormat : InputFormat.fromMime "image/avif".toList = none := by decide
  unfold plan
  rw [classify_unlabelled other]
  unfold detectBinary BeginsRaster
  by_cases short : data.length < 4
  · rw [if_pos short]
    refine ⟨fun _ begins => Nat.not_le.mpr short begins.1, fun _ => ?_⟩
    split <;> rfl
  · have there : data ≠ [] := by
      rintro rfl
      exact short (by decide)
    rw [if_neg short, if_neg there, and_iff_right (Nat.le_of_not_lt short)]
    by_cases isPng : data.take 4 = [0x89, 0x50, 0x4E, 0x47]
    · rw [if_pos isPng, Option.bind_some, png]
      simp [isPng, ingestTarget]
    · rw [if_neg isPng]
      by_cases isJpeg : data.take 3 = [0xFF, 0xD8, 0xFF]
      · rw [if_pos isJpeg, Option.bind_some, jpeg]
        simp [isJpeg, ingestTarget]
      · rw [if_neg isJpeg]
        by_cases isGif : data.take 4 = [0x47, 0x49, 0x46, 0x38]
        · have notRiff : ¬ data.take 4 = riff := by
            rw [isGif]
            decide
          rw [if_pos isGif, Option.bind_some, gif]
          simp [isPng, isJpeg, notRiff, ingestTarget]
        · rw [if_neg isGif]
          by_cases isWebp : data.take 4 = riff ∧ 12 ≤ data.length ∧ (data.drop 8).take 4 = webp
          · have apart : ¬ riff = [0x89, 0x50, 0x4E, 0x47] := by decide
            rw [if_pos isWebp, Option.bind_some, webpFormat]
            cases moving : isAnimatedWebp data <;> simp [apart, isJpeg, isWebp, ingestTarget]
          · have still : ¬ (data.take 4 = riff ∧ 12 ≤ data.length ∧ (data.drop 8).take 4 = webp ∧
                isAnimatedWebp data = false) :=
              fun all => isWebp ⟨all.1, all.2.1, all.2.2.1⟩
            rw [if_neg isWebp]
            refine ⟨fun _ => not_or.mpr ⟨isPng, not_or.mpr ⟨isJpeg, still⟩⟩, fun _ => ?_⟩
            split
            · rename_i none
              rfl
            · rename_i input found
              split at found
              · rw [Option.bind_some, avifFormat] at found
                cases found
              · cases found

theorem fromMime_of_text {mime : Str} (text : isTextLikeMime mime = true) :
    InputFormat.fromMime mime = none := by
  have pictures : ∀ entry ∈ ([("image/png".toList, .png), ("image/jpeg".toList, .jpeg),
      ("image/jpg".toList, .jpeg), ("image/gif".toList, .gif), ("image/webp".toList, .webp),
      ("image/bmp".toList, .bmp), ("image/x-ms-bmp".toList, .bmp)] : List (Str × InputFormat)),
      "image/".toList <+: entry.1.map toAsciiLowercase := by decide
  unfold InputFormat.fromMime
  rw [Option.map_eq_none_iff, List.find?_eq_none]
  rintro entry listed same
  have base : foldedBase mime = entry.1.map toAsciiLowercase := eqIgnoreAsciiCase_iff.mp same
  have image : startsWithIgnoreAsciiCase (mimeBase mime) "image/".toList = true := by
    rw [startsWithIgnoreAsciiCase_iff]
    change _ <+: foldedBase mime
    rw [base]
    exact pictures entry listed
  unfold isTextLikeMime at text
  simp only [image, Bool.true_or, if_true] at text
  cases text

theorem detectImageMime_image {data : Bytes} {detected : Str}
    (found : detectImageMime data = some detected) : isTextLikeMime detected = false := by
  unfold detectImageMime at found
  cases binary : detectBinary data with
  | some mime =>
      rw [binary] at found
      cases found
      unfold detectBinary at binary
      split_ifs at binary <;> cases binary <;> decide
  | none =>
      rw [binary] at found
      dsimp only at found
      split_ifs at found
      cases found
      decide

/-- What is announced as text and not relabelled carries no signature at all. -/
theorem detectBinary_of_text {percentDecode : Bytes → Bytes} {mime : Str}
    (text : isTextLikeMime mime = true) (other : ¬ mimeBaseEq mime mimeUriList = true)
    {payload data : Bytes}
    (accepted : normalisePayload percentDecode mime payload = some (mime, data)) :
    data = payload ∧ detectImageMime payload = none := by
  unfold normalisePayload at accepted
  rw [if_neg other] at accepted
  cases found : detectImageMime payload with
  | none =>
      rw [found] at accepted
      cases accepted
      exact ⟨rfl, rfl⟩
  | some detected =>
      rw [found] at accepted
      cases accepted
      rw [detectImageMime_image found] at text
      cases text

theorem not_beginsRaster {data : Bytes} (none : detectImageMime data = none) :
    ¬ BeginsRaster data := by
  have unsigned : detectBinary data = .none := by
    unfold detectImageMime at none
    cases binary : detectBinary data with
    | none => rfl
    | some detected =>
        rw [binary] at none
        cases none
  have plain : InputFormat.fromMime [] = .none := by decide
  rw [← plan_unlabelled plain]
  unfold plan
  rw [classify_unlabelled plain, unsigned]
  split <;> rfl

structure Bypasses (sha3 : Bytes → Bytes) (mime : Str) (data : Bytes) : Prop where
  routed : ∀ convert, routeWith mime data convert = pure (mime, data)
  processed : processJob sha3 mime data = pure (mime, data, fingerprint sha3 data)

theorem bypasses_iff_plan {sha3 : Bytes → Bytes} {mime : Str} {data : Bytes} :
    Bypasses sha3 mime data ↔ plan mime data = none := by
  constructor
  · intro bypasses
    have routed := bypasses.routed fun _ _ => pure (.error (.spawn ""))
    unfold routeWith at routed
    cases planned : plan mime data with
    | none => rfl
    | some job =>
        rw [planned] at routed
        cases routed
  · intro none
    have routed : ∀ convert, routeWith mime data convert = pure (mime, data) := by
      intro convert
      unfold routeWith
      rw [none]
    refine ⟨routed, ?_⟩
    unfold processJob routeForIngest
    rw [routed]
    rfl

/-- Text never reaches the converter, URI lists only if they decode to the head of a picture. -/
theorem bypasses_iff (percentDecode sha3 : Bytes → Bytes) (mime : Str) (payload data : Bytes)
    (text : isTextLikeMime mime = true)
    (accepted : normalisePayload percentDecode mime payload = some (mime, data)) :
    Bypasses sha3 mime data ↔
      ¬ (mimeBaseEq mime mimeUriList = true ∧
        BeginsRaster (normalizeUriList percentDecode payload)) := by
  rw [bypasses_iff_plan, plan_unlabelled (fromMime_of_text text)]
  by_cases list : mimeBaseEq mime mimeUriList = true
  · have same : data = normalizeUriList percentDecode payload := by
      unfold normalisePayload at accepted
      rw [if_pos list] at accepted
      dsimp only at accepted
      split at accepted
      · cases accepted
      · cases accepted
        rfl
    rw [same, and_iff_right list]
  · obtain ⟨rfl, unsigned⟩ := detectBinary_of_text text list accepted
    exact ⟨fun _ both => list both.1, fun _ => not_beginsRaster unsigned⟩

-- `%89PNG`
def pictureUri : Bytes := [0x25, 0x38, 0x39, 0x50, 0x4E, 0x47]

theorem bypasses_counterexample :
    mimeBaseEq mimeUriList mimeUriList = true ∧
      normalisePayload samplePercentDecode mimeUriList pictureUri =
        some (mimeUriList, sampleImage) ∧
      ¬ Bypasses sampleSha3 mimeUriList sampleImage := by
  refine ⟨by decide, by decide, fun bypasses => ?_⟩
  rw [bypasses_iff_plan] at bypasses
  exact absurd bypasses (by decide)

theorem bypasses_iff_sample :
    Bypasses sampleSha3 mimeUriList [0x2F, 0x61, 0x20, 0x62] :=
  (bypasses_iff samplePercentDecode sampleSha3 mimeUriList
    (fileScheme ++ [0x2F, 0x61, 0x25, 0x32, 0x30, 0x62]) _ (by decide) (by decide)).mpr (by decide)

end Y4p
