import Mathlib.Data.List.Basic
import Y4p.Core.Constants

/-! Digests, spool files and payloads (`crates/core/src/payload.rs`). -/

namespace Y4p

def hexDigits : List Char :=
  ['0', '1', '2', '3', '4', '5', '6', '7', '8', '9', 'a', 'b', 'c', 'd', 'e', 'f']

def hexDigit (value : Nat) : Char :=
  hexDigits.getD value '0'

def toHex : Bytes → Str
  | [] => []
  | byte :: rest => hexDigit (byte.toNat / 16) :: hexDigit (byte.toNat % 16) :: toHex rest

theorem hexDigit_injective {a b : Nat} (boundA : a < 16) (boundB : b < 16)
    (same : hexDigit a = hexDigit b) : a = b := by
  have table : ∀ a < 16, ∀ b < 16, hexDigit a = hexDigit b → a = b := by decide
  exact table a boundA b boundB same

/-- The key of a payload determines its digest. -/
theorem toHex_injective {a b : Bytes} (same : toHex a = toHex b) : a = b := by
  induction a generalizing b with
  | nil =>
      cases b with
      | nil => rfl
      | cons byte rest => simp [toHex] at same
  | cons byte rest ih =>
      cases b with
      | nil => simp [toHex] at same
      | cons other others =>
          simp only [toHex, List.cons.injEq] at same
          obtain ⟨highSame, lowSame, restSame⟩ := same
          have byteBound := byte.toNat_lt
          have otherBound := other.toNat_lt
          have high := hexDigit_injective (by omega) (by omega) highSame
          have low := hexDigit_injective (Nat.mod_lt _ (by omega)) (Nat.mod_lt _ (by omega)) lowSame
          have equal : byte = other := UInt8.toNat_inj.mp (by omega)
          rw [equal, ih restSame]

-- The name of a file in the spool directory.
abbrev SpoolPath := Nat

-- `SpooledFile`: a complete payload on disk, unlinked when the value is dropped.
structure SpooledFile where
  path : SpoolPath
  len : UInt64
  digest : Bytes

def SpooledFile.hexDigest (spooled : SpooledFile) : Str :=
  toHex spooled.digest

-- Where a payload's bytes live; `file` names a cache file by its key.
inductive Payload where
  | memory (data : Bytes)
  | file (hash : Str)
  | spooled (file : SpooledFile)

inductive PayloadError where
  | empty
  | tooLarge (limit : UInt64)
  | io (error : String)
  deriving DecidableEq

def sampleText : Bytes := [104, 105]

theorem sampleText_fits : sampleText.length < 2 ^ 63 := by decide

def sampleImage : Bytes := [137, 80, 78, 71]

theorem sampleImage_fits : sampleImage.length < 2 ^ 63 := by decide

@[irreducible] def sampleLong : Bytes := List.replicate 4097 0

theorem sampleLong_fits : sampleLong.length < 2 ^ 63 := by
  rw [sampleLong, List.length_replicate]
  omega

-- SHA3-256 on three payloads; elsewhere only some injection.
def sampleSha3 (data : Bytes) : Bytes :=
  if data = sampleText then
    [179, 156, 20, 200, 218, 59, 35, 129, 31, 100, 21, 183, 224, 179, 53, 38,
      215, 224, 122, 70, 242, 207, 4, 132, 23, 148, 53, 118, 126, 74, 136, 4]
  else if data = sampleImage then
    [81, 101, 145, 169, 185, 249, 188, 0, 112, 74, 238, 119, 131, 123, 6, 128,
      132, 222, 170, 243, 152, 108, 6, 135, 24, 238, 117, 10, 179, 45, 221, 53]
  else if data = sampleLong then
    [60, 27, 139, 49, 229, 141, 89, 153, 59, 224, 115, 182, 120, 109, 170, 78,
      138, 73, 101, 208, 99, 51, 5, 72, 52, 0, 51, 10, 184, 87, 198, 18]
  else 0 :: data

theorem sampleSha3_injective : Function.Injective sampleSha3 := by
  intro a b same
  unfold sampleSha3 at same
  grind

end Y4p
