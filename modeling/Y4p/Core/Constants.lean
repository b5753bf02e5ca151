import Mathlib.Algebra.Group.Int.Defs
import Mathlib.Algebra.GroupWithZero.Nat

/-! Constants of `crates/core/src/constants.rs` that the modelled code reads. -/

namespace Y4p

-- A Rust `str`: its characters, in order.
abbrev Str := List Char

abbrev Bytes := List UInt8

-- Membership tests among digests refer to this instance by name.
instance : LawfulBEq Bytes := inferInstance

-- A Rust slice has at most `isize::MAX` bytes.
structure Slice where
  bytes : Bytes
  fits : bytes.length < 2 ^ 63

theorem Slice.eq_of_bytes {first second : Slice} (same : first.bytes = second.bytes) :
    first = second := by
  cases first
  cases second
  cases same
  rfl

def ipcCmdRestore : UInt8 := 0x01
def ipcCmdExit : UInt8 := 0x02
def ipcCmdStatus : UInt8 := 0x03
def ipcCmdPause : UInt8 := 0x04
def ipcCmdResume : UInt8 := 0x05
def ipcDelimiter : UInt8 := 0x0A

def defaultMaxHistory : UInt64 := 256

def maxPayloadBytes : Nat := 256 * 1024 * 1024

def payloadPreallocCapBytes : Nat := 16 * 1024 * 1024

def inlinePayloadThresholdBytes : Nat := 4096

def pipelineChunkBytes : Nat := 64 * 1024
def pipelineStderrCapBytes : Nat := 8 * 1024

def spliceChunkBytes : Nat := 64 * 1024
def pipeTargetBytes : Nat := 1024 * 1024
def spliceRoundBytes : Nat := pipeTargetBytes

def cdcMinChunkBytes : Nat := 4 * 1024
def cdcAvgChunkBytes : Nat := 16 * 1024
def cdcMaxChunkBytes : Nat := 64 * 1024

def sensitiveMimeHints : List Str :=
  ["x-kde-passwordManagerHint".toList, "password".toList, "secret".toList,
    "x-gnome-cliptrace".toList, "keepass".toList, "1password".toList, "bitwarden".toList,
    "concealed".toList]

def textLikeMimeHints : List Str :=
  ["text".toList, "json".toList, "xml".toList, "xhtml".toList, "utf8".toList, "string".toList,
    "uri-list".toList]

def defaultMime : Str := "text/plain;charset=utf-8".toList

def previewChars : Nat := 100

def textMimeAlts : List Str :=
  ["text/plain;charset=utf-8".toList, "text/plain".toList, "UTF8_STRING".toList, "STRING".toList,
    "TEXT".toList]

def mimeUriList : Str := "text/uri-list".toList

def mimePriorityOrder : List Str :=
  ["image/png".toList, "image/webp".toList, "image/jpeg".toList, "image/gif".toList,
    "image/svg+xml".toList, "image/avif".toList, "image/bmp".toList, mimeUriList,
    "text/plain;charset=utf-8".toList, "text/plain".toList, "UTF8_STRING".toList, "STRING".toList,
    "TEXT".toList, "text/html".toList, "application/xhtml+xml".toList, "text/markdown".toList,
    "application/json".toList, "application/xml".toList]

def htmlMimeAlts : List Str :=
  ["text/html".toList, "application/xhtml+xml".toList, "text/plain;charset=utf-8".toList,
    "text/plain".toList, "UTF8_STRING".toList, "STRING".toList, "TEXT".toList]

def interfaceManager : Str := "ext_data_control_manager_v1".toList
def interfaceSeat : Str := "wl_seat".toList

end Y4p
