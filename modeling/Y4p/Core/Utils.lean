import Mathlib.Data.List.Infix
import Y4p.Core.Constants

/-!
MIME predicates, tag stripping and UTF-8 decoding: the parts of
`crates/core/src/utils.rs`, and of the `str` operations it builds on, that
storage uses.
-/

namespace Y4p

/-- The `White_Space` characters `str::trim` removes. -/
def isWhitespace (c : Char) : Bool :=
  let n := c.toNat
  (0x09 ≤ n && n ≤ 0x0D) || n = 0x20 || n = 0x85 || n = 0xA0 || n = 0x1680 ||
    (0x2000 ≤ n && n ≤ 0x200A) || n = 0x2028 || n = 0x2029 || n = 0x202F || n = 0x205F ||
    n = 0x3000

def trimStart (s : Str) : Str :=
  s.dropWhile isWhitespace

def trim (s : Str) : Str :=
  (trimStart (trimStart s).reverse).reverse

def toAsciiLowercase (c : Char) : Char :=
  if 'A' ≤ c ∧ c ≤ 'Z' then Char.ofNat (c.toNat + 32) else c

def eqIgnoreAsciiCase (a b : Str) : Bool :=
  a.map toAsciiLowercase == b.map toAsciiLowercase

def startsWith (s start : Str) : Bool :=
  start.isPrefixOf s

/-- `str::contains` of a substring. -/
def contains (s part : Str) : Bool :=
  s.tails.any fun rest => startsWith rest part

/-- The base type: everything before the first `;`, trimmed. -/
def mimeBase (mime : Str) : Str :=
  trim (mime.takeWhile fun c => c ≠ ';')

def startsWithIgnoreAsciiCase (s start : Str) : Bool :=
  eqIgnoreAsciiCase (s.take start.length) start

def isHtmlMime (mime : Str) : Bool :=
  eqIgnoreAsciiCase (mimeBase mime) "text/html".toList ||
    eqIgnoreAsciiCase (mimeBase mime) "application/xhtml+xml".toList

def isRtfMime (mime : Str) : Bool :=
  eqIgnoreAsciiCase (mimeBase mime) "text/rtf".toList ||
    eqIgnoreAsciiCase (mimeBase mime) "application/rtf".toList

/-- Images, audio and video are never text; otherwise any hint inside the base type decides. -/
def isTextLikeMime (mime : Str) : Bool :=
  let base := mimeBase mime
  if startsWithIgnoreAsciiCase base "image/".toList ||
      startsWithIgnoreAsciiCase base "audio/".toList ||
      startsWithIgnoreAsciiCase base "video/".toList then
    false
  else
    textLikeMimeHints.any fun hint =>
      contains (base.map toAsciiLowercase) (hint.map toAsciiLowercase)

/-- Only `<` opens a tag; a `>` outside one is ordinary text. -/
def stripTagsFrom : Bool → Bytes → Bytes
  | _, [] => []
  | inTag, byte :: rest =>
      if byte = 0x3C then stripTagsFrom true rest
      else if byte = 0x3E ∧ inTag then stripTagsFrom false rest
      else if inTag then stripTagsFrom true rest
      else byte :: stripTagsFrom false rest

def stripHtmlTags (data : Bytes) : Bytes :=
  stripTagsFrom false data

def isContinuation (byte : UInt8) : Bool :=
  0x80 ≤ byte && byte ≤ 0xBF

/-- Whether `second` may follow the lead byte of a three-byte sequence. -/
def secondOfThree (lead second : UInt8) : Bool :=
  if lead = 0xE0 then 0xA0 ≤ second && second ≤ 0xBF
  else if lead = 0xED then 0x80 ≤ second && second ≤ 0x9F
  else isContinuation second

/-- Whether `second` may follow the lead byte of a four-byte sequence. -/
def secondOfFour (lead second : UInt8) : Bool :=
  if lead = 0xF0 then 0x90 ≤ second && second ≤ 0xBF
  else if lead = 0xF4 then 0x80 ≤ second && second ≤ 0x8F
  else isContinuation second

def replacementCharacter : Char := Char.ofNat 0xFFFD

def bits (byte : UInt8) (count : Nat) : Nat :=
  byte.toNat % 2 ^ count

/-- One step of the UTF-8 decoder: a character, or `none` for a maximal invalid
prefix, with the number of bytes it spans. -/
def decodeStep (data : Bytes) : Option Char × Nat :=
  match data with
  | [] => (none, 0)
  | lead :: tail =>
      if lead < 0x80 then (some (Char.ofNat lead.toNat), 1)
      else if 0xC2 ≤ lead ∧ lead ≤ 0xDF then
        match tail with
        | second :: _ =>
            if isContinuation second then
              (some (Char.ofNat (bits lead 5 * 64 + bits second 6)), 2)
            else (none, 1)
        | [] => (none, 1)
      else if 0xE0 ≤ lead ∧ lead ≤ 0xEF then
        match tail with
        | second :: third :: _ =>
            if secondOfThree lead second then
              if isContinuation third then
                (some (Char.ofNat (bits lead 4 * 4096 + bits second 6 * 64 + bits third 6)), 3)
              else (none, 2)
            else (none, 1)
        | [second] => (none, if secondOfThree lead second then 2 else 1)
        | [] => (none, 1)
      else if 0xF0 ≤ lead ∧ lead ≤ 0xF4 then
        match tail with
        | second :: third :: fourth :: _ =>
            if secondOfFour lead second then
              if isContinuation third then
                if isContinuation fourth then
                  (some (Char.ofNat (bits lead 3 * 262144 + bits second 6 * 4096 +
                    bits third 6 * 64 + bits fourth 6)), 4)
                else (none, 3)
              else (none, 2)
            else (none, 1)
        | [second, third] =>
            (none, if secondOfFour lead second then if isContinuation third then 3 else 2 else 1)
        | [second] => (none, if secondOfFour lead second then 2 else 1)
        | [] => (none, 1)
      else (none, 1)

/-- Decodes up to `fuel` pieces; every piece spans at least one byte. -/
def decodeFrom : Nat → Bytes → List (Option Char)
  | 0, _ => []
  | _ + 1, [] => []
  | fuel + 1, data =>
      (decodeStep data).1 :: decodeFrom fuel (data.drop (decodeStep data).2)

def decode (data : Bytes) : List (Option Char) :=
  decodeFrom data.length data

/-- `std::str::from_utf8(data).is_ok()`. -/
def isUtf8 (data : Bytes) : Bool :=
  (decode data).all Option.isSome

/-- `String::from_utf8_lossy`: each maximal invalid piece becomes U+FFFD. -/
def fromUtf8Lossy (data : Bytes) : Str :=
  (decode data).map fun piece => piece.getD replacementCharacter

example : fromUtf8Lossy [0x61, 0xE3, 0x81, 0x82, 0xFF, 0xF0, 0x9F, 0x62] =
    ['a', 'あ', replacementCharacter, replacementCharacter, 'b'] := by decide

end Y4p
