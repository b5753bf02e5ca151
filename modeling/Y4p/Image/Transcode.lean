import Y4p.Core.Reader
import Y4p.Core.Sniff
import Y4p.Image.Breaker
import Y4p.Lib.Program

/-!
Transcoding jobs (`crates/image/src/transcode.rs`), run by the external converter from
memory to memory or from file to file (`pipeline.rs`).
-/

namespace Y4p

open Programs

inductive InputFormat where
  | png
  | jpeg
  | gif
  | webp
  | bmp
  deriving DecidableEq

def InputFormat.fromMime (mime : Str) : Option InputFormat :=
  let known : List (Str × InputFormat) :=
    [("image/png".toList, .png), ("image/jpeg".toList, .jpeg), ("image/jpg".toList, .jpeg),
      ("image/gif".toList, .gif), ("image/webp".toList, .webp), ("image/bmp".toList, .bmp),
      ("image/x-ms-bmp".toList, .bmp)]
  (known.find? fun (name, _) => eqIgnoreAsciiCase (mimeBase mime) name).map Prod.snd

-- Between `IMAGE_QUALITY_MIN` and `IMAGE_QUALITY_MAX`.
structure Quality where
  value : UInt8
  bounds : 1 ≤ value ∧ value ≤ 100
  deriving DecidableEq

def Quality.new (raw : UInt8) : Quality where
  value := if raw < 1 then 1 else if 100 < raw then 100 else raw
  bounds := by
    split
    · decide
    · split
      · decide
      · rename_i low high
        exact ⟨UInt8.not_lt.mp low, UInt8.not_lt.mp high⟩

inductive OutputFormat where
  | png
  | webpLossless
  | webpLossy (quality : Quality)
  deriving DecidableEq

def OutputFormat.mime : OutputFormat → Str
  | .png => "image/png".toList
  | .webpLossless | .webpLossy _ => "image/webp".toList

structure Transcode where
  input : InputFormat
  output : OutputFormat
  deriving DecidableEq

inductive PipelineError where
  | spawn (error : String)
  | source (error : String)
  | sink (error : String)
  | child (error : String)
  | failed (code : Option Int) (stderr : String)
  | timeout (seconds : Nat)
  | isolation (error : String)
  deriving DecidableEq

-- The spool file operations take the path for the open file.
inductive WorkCall where
  | acquirePermit
  | acquireSlot
  | releaseSlot
  | resolvePermit (permit : Permit) (outcome : PermitOutcome)
  | isAvailable
  | convertBuffer (job : Transcode) (input : Bytes)
  | convertFile (job : Transcode) (input : Bytes) (output : SpoolPath) (limit : UInt64)
  | createNew (path : SpoolPath)
  | openFile (path : SpoolPath)
  | readAt (path : SpoolPath) (count : Nat)
  | writeAll (path : SpoolPath) (data : Bytes)
  | copyToFile (src : Reader) (path : SpoolPath) (limit : UInt64)
  | removeFile (path : SpoolPath)

-- A copy answers what it moved and what the tap saw.
def WorkCall.Answer : WorkCall → Type
  | .acquirePermit => Option Permit
  | .acquireSlot | .isAvailable => Bool
  | .releaseSlot | .resolvePermit .. => Unit
  | .convertBuffer .. => Except PipelineError Bytes
  | .convertFile .. => Except PipelineError (Nat × Bytes)
  | .openFile _ | .readAt .. => Except String Bytes
  | .copyToFile .. => Except PayloadError Nat × Bytes
  | .createNew _ | .writeAll .. | .removeFile _ => Except String Unit

abbrev Work (α : Type) : Type := Program WorkCall WorkCall.Answer α

def transcode (job : Transcode) (input : Bytes) : Work (Except PipelineError Bytes) :=
  Program.ask (WorkCall.convertBuffer job input)

def signatureProbeBytes : Nat := 32

def notSigned (target : OutputFormat) : PipelineError :=
  let mime := String.ofList target.mime
  .failed (some 0) s!"converter exited successfully but its output is not a {mime} image"

def checkSignature (target : OutputFormat) (path : SpoolPath) :
    Work (Except PipelineError Unit) := do
  let read : Except String Bytes ← Program.ask (WorkCall.readAt path signatureProbeBytes)
  match read with
  | .error error => pure (.error (.sink error))
  | .ok head =>
      if 0 < head.length ∧ detectImageMime head = some target.mime then pure (.ok ())
      else pure (.error (notSigned target))

def transcodeFile (job : Transcode) (input : Bytes) (output : SpoolPath) (limit : UInt64) :
    Work (Except PipelineError (Nat × Bytes)) := do
  let converted : Except PipelineError (Nat × Bytes) ←
    Program.ask (WorkCall.convertFile job input output limit)
  match converted with
  | .error error => pure (.error error)
  | .ok transfer => do
      let signed ← checkSignature job.output output
      match signed with
      | .error error => pure (.error error)
      | .ok () => pure (.ok transfer)

/-- No target is an SVG, so what follows the signatures tells nothing. -/
theorem detectImageMime_target (target : OutputFormat) (data : Bytes) :
    detectImageMime data = some target.mime ↔ detectBinary data = some target.mime := by
  have vector : some "image/svg+xml".toList ≠ some target.mime := by
    cases target with
    | png => decide
    | webpLossless => decide
    | webpLossy quality =>
        change some "image/svg+xml".toList ≠ some "image/webp".toList
        decide
  unfold detectImageMime
  cases detectBinary data with
  | some mime => exact Iff.rfl
  | none =>
      dsimp only
      split
      · exact iff_of_false vector nofun
      · exact Iff.rfl

theorem target_ne_nil {target : OutputFormat} {data : Bytes}
    (signed : detectImageMime data = some target.mime) : data ≠ [] := by
  rintro rfl
  rw [detectImageMime_target] at signed
  cases signed

/-- A probe tells whether the whole carries the signature. -/
theorem probe_target (target : OutputFormat) (data : Bytes) :
    0 < (data.take signatureProbeBytes).length ∧
        detectImageMime (data.take signatureProbeBytes) = some target.mime ↔
      detectImageMime data = some target.mime := by
  have probe : detectImageMime (data.take signatureProbeBytes) = some target.mime ↔
      detectImageMime data = some target.mime := by
    rw [detectImageMime_target, detectImageMime_target, detectBinary_take (by decide)]
  rw [probe]
  refine and_iff_right_of_imp fun signed => ?_
  exact List.length_pos_iff.mpr (target_ne_nil (probe.mpr signed))

end Y4p
