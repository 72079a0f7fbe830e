import ShadowSe.Json.Value
import ShadowSe.Text.Tokenizer

/-! The recursive descent parser. A cursor holds what is left of the text and the
offset of that rest. -/

namespace ShadowSe.Json

open Support

/-- A message with the offset at which parsing stopped; `exhausted` is not an outcome of
the source, it marks a recursion cut short. -/
inductive ParseError where
  | failed (offset : Nat) (msg : Bytes)
  | exhausted
  deriving DecidableEq

def ParseError.text : ParseError → Bytes
  | failed offset msg => ascii "JSON parse error at offset " ++ decimal offset ++ ascii ": " ++ msg
  | exhausted => []

structure Cursor where
  rest : Bytes
  pos : Nat

/-- What a parsing function returns: an error, or a result and the cursor after it. -/
abbrev Parsed (α : Type) := Except ParseError (α × Cursor)

/-- The white space of JSON. -/
def isWs (c : UInt8) : Bool :=
  c == 32 || c == 9 || c == 10 || c == 13

namespace Cursor

def fail {α : Type} (c : Cursor) (msg : String) : Parsed α :=
  .error (.failed c.pos (ascii msg))

def advance (c : Cursor) (count : Nat) : Cursor :=
  ⟨c.rest.drop count, c.pos + count⟩

/-- `while (pos_ < s_.size() && …) ++pos_`. -/
def skip (c : Cursor) (keeps : UInt8 → Bool) : Cursor :=
  ⟨c.rest.dropWhile keeps, c.pos + (c.rest.takeWhile keeps).length⟩

def skipWs (c : Cursor) : Cursor :=
  c.skip isWs

def skipDigits (c : Cursor) : Cursor :=
  c.skip isdigit

def expect (c : Cursor) (byte : UInt8) : Option Cursor :=
  match c.rest with
  | [] => none
  | head :: rest => if head = byte then some ⟨rest, c.pos + 1⟩ else none

end Cursor

def parseLiteral (lit : String) (value : Value) (c : Cursor) : Parsed Value :=
  if c.rest.take (ascii lit).length ≠ ascii lit then c.fail "invalid literal"
  else .ok (value, c.advance (ascii lit).length)

/-- The optional `.` and the digits after it. -/
def skipFraction (c : Cursor) : Cursor :=
  match c.expect 46 with
  | some c => c.skipDigits
  | none => c

/-- The optional exponent mark, its sign and digits. -/
def skipExponent (c : Cursor) : Cursor :=
  match c.expect 101 <|> c.expect 69 with
  | some c => ((c.expect 43 <|> c.expect 45).getD c).skipDigits
  | none => c

def parseNumber (start : Cursor) : Parsed Value :=
  let c := (start.expect 45).getD start
  if c.rest = [] then c.fail "bad number"
  else
    let c := skipExponent (skipFraction c.skipDigits)
    let num := start.rest.take (c.pos - start.pos)
    if num = [] ∨ num = ascii "-" then c.fail "bad number"
    else .ok (.number (strtod num), c)

def hexValue (c : UInt8) : Option Nat :=
  if isdigit c then some (c.toNat - 48)
  else if 97 ≤ c ∧ c ≤ 102 then some (c.toNat - 97 + 10)
  else if 65 ≤ c ∧ c ≤ 70 then some (c.toNat - 65 + 10)
  else none

/-- The loop of `readHex4`: the value, if all bytes are hexadecimal digits, and the cursor
behind the last byte read. -/
def readHexDigits : Nat → Nat → Cursor → Option Nat × Cursor
  | 0, value, c => (some value, c)
  | count + 1, value, c =>
    match c.rest with
    | [] => (none, c)
    | head :: rest =>
      match hexValue head with
      | none => (none, ⟨rest, c.pos + 1⟩)
      | some digit => readHexDigits count (value <<< 4 ||| digit) ⟨rest, c.pos + 1⟩

def readHex4 (c : Cursor) : Option Nat × Cursor :=
  if c.rest.length < 4 then (none, c) else readHexDigits 4 0 c

/-- The same bytes as `appendCodepoint`. -/
def appendUtf8 (out : Bytes) (cp : Nat) : Bytes :=
  out ++ encodeCodepoint cp

/-- The escapes of one letter. -/
def simpleEscape (e : UInt8) : Option UInt8 :=
  if e = 34 then some 34
  else if e = 92 then some 92
  else if e = 47 then some 47
  else if e = 98 then some 8
  else if e = 102 then some 12
  else if e = 110 then some 10
  else if e = 114 then some 13
  else if e = 116 then some 9
  else none

/-- The `u` case of the escapes: a high surrogate needs a low one after it. -/
def parseUnicode (value : Bytes) (c : Cursor) : Parsed Bytes :=
  match readHex4 c with
  | (none, c) => c.fail "bad \\u escape"
  | (some cp, c) =>
    if 0xD800 ≤ cp ∧ cp ≤ 0xDBFF then
      if c.rest.take 2 ≠ ascii "\\u" then c.fail "missing low surrogate"
      else
        match readHex4 (c.advance 2) with
        | (none, c) => c.fail "bad low surrogate"
        | (some low, c) =>
          if low < 0xDC00 ∨ low > 0xDFFF then c.fail "bad low surrogate"
          else .ok (appendUtf8 value (0x10000 + ((cp - 0xD800) <<< 10) + (low - 0xDC00)), c)
    else .ok (appendUtf8 value cp, c)

/-- The bytes after a backslash. -/
def parseEscape (value : Bytes) (c : Cursor) : Parsed Bytes :=
  match c.rest with
  | [] => c.fail "bad escape"
  | e :: rest =>
    let c : Cursor := ⟨rest, c.pos + 1⟩
    match simpleEscape e with
    | some byte => .ok (value ++ [byte], c)
    | none => if e = 117 then parseUnicode value c else c.fail "bad escape character"

/-- The loop of `parseString`. -/
def parseChars : Nat → Bytes → Cursor → Parsed Bytes
  | 0, _, _ => .error .exhausted
  | fuel + 1, value, c =>
    match c.rest with
    | [] => c.fail "unterminated string"
    | head :: rest =>
      let c : Cursor := ⟨rest, c.pos + 1⟩
      if head = 34 then .ok (value, c)
      else if head = 92 then
        match parseEscape value c with
        | .error e => .error e
        | .ok (value, c) => parseChars fuel value c
      else if head < 32 then c.fail "control char in string"
      else parseChars fuel (value ++ [head]) c

/-- Every pass of the loop consumes a byte. -/
def parseString (c : Cursor) : Parsed Bytes :=
  match c.expect 34 with
  | none => c.fail "expected string"
  | some c => parseChars (c.rest.length + 1) [] c

mutual

/-- The fuel bounds the depth of the recursion; `parse` gives more than it needs. -/
def parseValue : Nat → Cursor → Parsed Value
  | 0, _ => .error .exhausted
  | fuel + 1, c =>
    let c := c.skipWs
    match c.rest with
    | [] => c.fail "unexpected end of input"
    | head :: _ =>
      if head = 123 then parseObject fuel c
      else if head = 91 then parseArray fuel c
      else if head = 34 then
        match parseString c with
        | .error e => .error e
        | .ok (s, c) => .ok (.string s, c)
      else if head = 116 then parseLiteral "true" (.bool true) c
      else if head = 102 then parseLiteral "false" (.bool false) c
      else if head = 110 then parseLiteral "null" .null c
      else if head = 45 ∨ isdigit head then parseNumber c
      else .error (.failed c.pos (ascii "unexpected character '" ++ [head] ++ ascii "'"))

def parseArray : Nat → Cursor → Parsed Value
  | 0, _ => .error .exhausted
  | fuel + 1, c =>
    match c.expect 91 with
    | none => c.fail "expected '['"
    | some c =>
      let c := c.skipWs
      match c.expect 93 with
      | some c => .ok (.array [], c)
      | none =>
        match parseElements fuel [] c with
        | .error e => .error e
        | .ok (arr, c) => .ok (.array arr, c)

/-- The loop of `parseArray`. -/
def parseElements : Nat → List Value → Cursor → Parsed (List Value)
  | 0, _, _ => .error .exhausted
  | fuel + 1, arr, c =>
    match parseValue fuel c.skipWs with
    | .error e => .error e
    | .ok (v, c) =>
      let arr := arr ++ [v]
      let c := c.skipWs
      match c.expect 93 with
      | some c => .ok (arr, c)
      | none =>
        match c.expect 44 with
        | none => c.fail "expected ',' or ']'"
        | some c => parseElements fuel arr c

def parseObject : Nat → Cursor → Parsed Value
  | 0, _ => .error .exhausted
  | fuel + 1, c =>
    match c.expect 123 with
    | none => c.fail "expected '\x7b'"
    | some c =>
      let c := c.skipWs
      match c.expect 125 with
      | some c => .ok (.object [], c)
      | none =>
        match parseMembers fuel [] c with
        | .error e => .error e
        | .ok (obj, c) => .ok (.object obj, c)

/-- The loop of `parseObject`. The error of a key replaces the one of the string, at the
same offset. -/
def parseMembers : Nat → List (Bytes × Value) → Cursor → Parsed (List (Bytes × Value))
  | 0, _, _ => .error .exhausted
  | fuel + 1, obj, c =>
    match parseString c.skipWs with
    | .error .exhausted => .error .exhausted
    | .error (.failed offset _) => .error (.failed offset (ascii "expected object key"))
    | .ok (key, c) =>
      let c := c.skipWs
      match c.expect 58 with
      | none => c.fail "expected ':'"
      | some c =>
        match parseValue fuel c.skipWs with
        | .error e => .error e
        | .ok (v, c) =>
          let obj := obj ++ [(key, v)]
          let c := c.skipWs
          match c.expect 125 with
          | some c => .ok (obj, c)
          | none =>
            match c.expect 44 with
            | none => c.fail "expected ',' or '\x7d'"
            | some c => parseMembers fuel obj c

end

def parse (text : Bytes) : Except Bytes Value :=
  match parseValue (3 * text.length + 1) ⟨text, 0⟩ with
  | .error e => .error e.text
  | .ok (v, c) =>
    if c.skipWs.rest ≠ [] then .error (ascii "JSON parse error: trailing data after document")
    else .ok v

end ShadowSe.Json
