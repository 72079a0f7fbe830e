import ShadowSe.Text.Numerals

namespace ShadowSe.Json

open Support

/-- A value holds what its type says; the fields of the other types are never read. -/
inductive Value where
  | null
  | bool (b : Bool)
  | number (n : Binary64)
  | string (s : Bytes)
  | array (a : List Value)
  | object (o : List (Bytes × Value))

namespace Value

def asString : Value → Bytes → Bytes
  | string s, _ => s
  | _, default => default

/-- What is not an array becomes an empty one first. -/
def push : Value → Value → Value
  | array a, v => array (a ++ [v])
  | _, v => array [v]

/-- The members after `o[key] = v`: the first with the key is overwritten. -/
def assignMember (key : Bytes) (v : Value) : List (Bytes × Value) → List (Bytes × Value)
  | [] => [(key, v)]
  | (k, old) :: rest => if k = key then (k, v) :: rest else (k, old) :: assignMember key v rest

/-- `o[key] = v` by `operator[]`; what is not an object becomes an empty one first. -/
def assign : Value → Bytes → Value → Value
  | object o, key, v => object (assignMember key v o)
  | _, key, v => object [(key, v)]

def find : Value → Bytes → Option Value
  | object o, key => (o.find? fun entry => entry.1 = key).map (·.2)
  | _, _ => none

end Value

def lowerHex (digit : UInt8) : UInt8 :=
  if digit < 10 then 48 + digit else 87 + digit

/-- One byte of `escapeString`; `%04x` of a byte has two leading zeros. -/
def escapeByte (c : UInt8) : Bytes :=
  if c = 34 then ascii "\\\""
  else if c = 92 then ascii "\\\\"
  else if c = 8 then ascii "\\b"
  else if c = 12 then ascii "\\f"
  else if c = 10 then ascii "\\n"
  else if c = 13 then ascii "\\r"
  else if c = 9 then ascii "\\t"
  else if c < 32 then ascii "\\u00" ++ [lowerHex (c / 16), lowerHex (c % 16)]
  else [c]

def escapeString (s : Bytes) : Bytes :=
  s.flatMap escapeByte

/-- Integers below `9.2e18` are written in full, other numbers as a stream writes them. -/
def numberText (n : Binary64) : Bytes :=
  if n.eq (.ofInt n.toInt64) ∧ n.isFinite ∧ n.fabsLess 9200000000000000000 then
    toString64 n.toInt64
  else streamText n

def newlineIndent (pretty : Bool) (level : Nat) : Bytes :=
  if pretty then 10 :: List.replicate (level * 2) 32 else []

mutual

def dumpValue (pretty : Bool) : Value → Nat → Bytes
  | .null, _ => ascii "null"
  | .bool b, _ => ascii (if b then "true" else "false")
  | .number n, _ => numberText n
  | .string s, _ => [34] ++ escapeString s ++ [34]
  | .array a, indent =>
    if a.isEmpty then ascii "[]"
    else [91] ++ dumpElements pretty true a indent ++ newlineIndent pretty indent ++ [93]
  | .object o, indent =>
    if o.isEmpty then ascii "\x7b\x7d"
    else [123] ++ dumpMembers pretty true o indent ++ newlineIndent pretty indent ++ [125]

/-- The loop over the elements; every one but the first follows a comma. -/
def dumpElements (pretty first : Bool) : List Value → Nat → Bytes
  | [], _ => []
  | v :: rest, indent =>
    (if first then [] else [44]) ++ newlineIndent pretty (indent + 1) ++
      dumpValue pretty v (indent + 1) ++ dumpElements pretty false rest indent

/-- The loop over the members. -/
def dumpMembers (pretty first : Bool) : List (Bytes × Value) → Nat → Bytes
  | [], _ => []
  | (key, v) :: rest, indent =>
    (if first then [] else [44]) ++ newlineIndent pretty (indent + 1) ++
      [34] ++ escapeString key ++ ascii "\":" ++ (if pretty then [32] else []) ++
      dumpValue pretty v (indent + 1) ++ dumpMembers pretty false rest indent

end

def Value.dump (v : Value) (pretty : Bool) : Bytes :=
  dumpValue pretty v 0

end ShadowSe.Json
