import ShadowSe.Text.Bytes

/-! The UTF-8 aware tokenizer. Code points are natural numbers: a decoded value
needs at most 21 bits, so `char32_t` never wraps here. -/

namespace ShadowSe

/-- `0xFFFFFFFF`, the result of `decodeUtf8` on malformed input. -/
def invalidCodepoint : Nat := 0xFFFFFFFF

/-- Length of the sequence a lead byte announces and the payload bits it carries. -/
def leadByte (c0 : UInt8) : Option (Nat × Nat) :=
  if c0 &&& 0xE0 = 0xC0 then some (2, (c0 &&& 0x1F).toNat)
  else if c0 &&& 0xF0 = 0xE0 then some (3, (c0 &&& 0x0F).toNat)
  else if c0 &&& 0xF8 = 0xF0 then some (4, (c0 &&& 0x07).toNat)
  else none

/-- The loop over the continuation bytes; `none` on a bad one. -/
def continuation : Nat → Bytes → Nat → Option Nat
  | 0, _, cp => some cp
  | _ + 1, [], _ => none
  | count + 1, c :: rest, cp =>
    if c &&& 0xC0 = 0x80 then continuation count rest (cp <<< 6 ||| (c &&& 0x3F).toNat)
    else none

/-- Overlong encodings, surrogate halves and values beyond Unicode. -/
def isRejected (nbytes cp : Nat) : Bool :=
  (nbytes == 2 && cp < 0x80) || (nbytes == 3 && cp < 0x800) ||
    (nbytes == 4 && cp < 0x10000) || (0xD800 ≤ cp && cp ≤ 0xDFFF) || cp > 0x10FFFF

/-- `decodeUtf8(text, offset)`: the code point at `offset` and the advanced offset. -/
def decodeUtf8 (text : Bytes) (offset : Nat) : Nat × Nat :=
  match text.drop offset with
  | [] => (invalidCodepoint, offset)
  | c0 :: rest =>
    if c0 < 0x80 then (c0.toNat, offset + 1)
    else match leadByte c0 with
      | none => (invalidCodepoint, offset + 1)
      | some (nbytes, payload) =>
        if offset + nbytes > text.length then (invalidCodepoint, offset + 1)
        else match continuation (nbytes - 1) rest payload with
          | none => (invalidCodepoint, offset + 1)
          | some cp =>
            if isRejected nbytes cp then (invalidCodepoint, offset + 1)
            else (cp, offset + nbytes)

def isTokenCharacter (cp : Nat) : Bool :=
  if cp = invalidCodepoint then false
  else if cp < 0x80 then
    (0x61 ≤ cp && cp ≤ 0x7A) || (0x41 ≤ cp && cp ≤ 0x5A) || (0x30 ≤ cp && cp ≤ 0x39)
  else if 0xC0 ≤ cp && cp ≤ 0xFF && cp != 0xD7 && cp != 0xF7 then true
  else if 0x100 ≤ cp && cp ≤ 0x2FF then true
  else if (0x370 ≤ cp && cp ≤ 0x3FF) || (0x1F00 ≤ cp && cp ≤ 0x1FFF) then true
  else if 0x400 ≤ cp && cp ≤ 0x4FF then true
  else if (0x590 ≤ cp && cp ≤ 0x5FF) || (0x600 ≤ cp && cp ≤ 0x6FF) ||
      (0x900 ≤ cp && cp ≤ 0xDFF) then true
  else if (0x3040 ≤ cp && cp ≤ 0x30FF) || (0x3400 ≤ cp && cp ≤ 0x4DBF) ||
      (0x4E00 ≤ cp && cp ≤ 0x9FFF) || (0xAC00 ≤ cp && cp ≤ 0xD7AF) then true
  else false

/-- The bytes `appendCodepoint` appends for a code point. -/
def encodeCodepoint (cp : Nat) : Bytes :=
  if cp < 0x80 then [UInt8.ofNat cp]
  else if cp < 0x800 then
    [UInt8.ofNat (0xC0 ||| cp >>> 6), UInt8.ofNat (0x80 ||| cp &&& 0x3F)]
  else if cp < 0x10000 then
    [UInt8.ofNat (0xE0 ||| cp >>> 12), UInt8.ofNat (0x80 ||| cp >>> 6 &&& 0x3F),
      UInt8.ofNat (0x80 ||| cp &&& 0x3F)]
  else
    [UInt8.ofNat (0xF0 ||| cp >>> 18), UInt8.ofNat (0x80 ||| cp >>> 12 &&& 0x3F),
      UInt8.ofNat (0x80 ||| cp >>> 6 &&& 0x3F), UInt8.ofNat (0x80 ||| cp &&& 0x3F)]

def appendCodepoint (out : Bytes) (cp : Nat) : Bytes :=
  out ++ encodeCodepoint cp

def foldCase (cp : Nat) : Nat :=
  if 0x41 ≤ cp && cp ≤ 0x5A then cp + 0x20
  else if 0xC0 ≤ cp && cp ≤ 0xDE && cp != 0xD7 then cp + 0x20
  else if 0x100 ≤ cp && cp ≤ 0x17F && cp &&& 1 == 0 then cp + 1
  else if 0x180 ≤ cp && cp ≤ 0x24F && cp &&& 1 == 0 && cp != 0x1C4 && cp != 0x1C5 &&
      cp != 0x1C6 && cp != 0x1C7 && cp != 0x1C8 && cp != 0x1C9 && cp != 0x1CA &&
      cp != 0x1CB && cp != 0x1CC then cp + 1
  else if 0x391 ≤ cp && cp ≤ 0x3A9 && cp != 0x3A2 then cp + 0x20
  else if 0x410 ≤ cp && cp ≤ 0x42F then cp + 0x20
  else cp

/-- The `flush` lambda of `tokenize`. -/
def flush (tokens : List Bytes) (current : Bytes) : List Bytes :=
  if current.isEmpty then tokens else tokens ++ [current]

/-- The scanning loop. Every pass advances by at least one byte, so fuel equal to
the number of bytes left is never exhausted early. -/
def tokenizeLoop (text : Bytes) : Nat → Nat → List Bytes → Bytes → List Bytes
  | 0, _, tokens, current => flush tokens current
  | fuel + 1, offset, tokens, current =>
    if offset < text.length then
      let (cp, offset) := decodeUtf8 text offset
      if isTokenCharacter cp then
        tokenizeLoop text fuel offset tokens (appendCodepoint current (foldCase cp))
      else tokenizeLoop text fuel offset (flush tokens current) []
    else flush tokens current

def tokenize (text : Bytes) : List Bytes :=
  tokenizeLoop text text.length 0 [] []

/-- `Hello, WORLD` and a two-byte capital: separators split, letters fold. -/
example : tokenize (ascii "Hello, WORLD" ++ [0xC3, 0x89]) =
    [ascii "hello", ascii "world" ++ [0xC3, 0xA9]] := by decide

end ShadowSe
