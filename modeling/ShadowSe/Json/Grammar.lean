import ShadowSe.Json.Parser

/-! The grammar of RFC 8259 over bytes, with the value each text denotes. Bytes from
`0x80` on stand for the unescaped characters beyond ASCII. -/

namespace ShadowSe.Json

open Support

def AllDigits (digits : Bytes) : Prop :=
  ∀ c ∈ digits, isdigit c = true

def IsBlank (blank : Bytes) : Prop :=
  ∀ c ∈ blank, isWs c = true

/-- `int`: zero, or digits without a leading zero. -/
def IsInt (s : Bytes) : Prop :=
  s = [48] ∨ ∃ first rest, s = first :: rest ∧ isdigit first = true ∧ first ≠ 48 ∧ AllDigits rest

/-- `[ frac ]` -/
def IsFrac (s : Bytes) : Prop :=
  s = [] ∨ ∃ digits, s = 46 :: digits ∧ digits ≠ [] ∧ AllDigits digits

/-- `[ exp ]` -/
def IsExp (s : Bytes) : Prop :=
  s = [] ∨ ∃ mark sign digits, s = mark :: (sign ++ digits) ∧ (mark = 101 ∨ mark = 69) ∧
    (sign = [] ∨ sign = [43] ∨ sign = [45]) ∧ digits ≠ [] ∧ AllDigits digits

/-- `number = [ minus ] int [ frac ] [ exp ]` -/
def IsNumber (lit : Bytes) : Prop :=
  ∃ minus int frac exp, lit = minus ++ int ++ frac ++ exp ∧ (minus = [] ∨ minus = [45]) ∧
    IsInt int ∧ IsFrac frac ∧ IsExp exp

/-- What varies between dialects: the numbers, and the surrogates whose escapes may stand
alone. -/
structure Dialect where
  number : Bytes → Prop
  lone : Nat → Prop

/-- The escapes of one letter and the bytes they stand for. -/
def escapes : List (UInt8 × UInt8) :=
  [(34, 34), (92, 92), (47, 47), (98, 8), (102, 12), (110, 10), (114, 13), (116, 9)]

/-- Four hexadecimal digits and their value. -/
def IsHex4 (hex : Bytes) (cp : Nat) : Prop :=
  ∃ a b c d p q r s, hex = [a, b, c, d] ∧ hexValue a = some p ∧ hexValue b = some q ∧
    hexValue c = some r ∧ hexValue d = some s ∧ cp = 4096 * p + 256 * q + 16 * r + s

def IsSurrogate (cp : Nat) : Prop :=
  0xD800 ≤ cp ∧ cp ≤ 0xDFFF

/-- `*char`, and the bytes that the characters denote. -/
inductive IsChars (d : Dialect) : Bytes → Bytes → Prop where
  | done : IsChars d [] []
  | raw {c : UInt8} {body s : Bytes} (visible : 32 ≤ c) (quote : c ≠ 34) (backslash : c ≠ 92)
      (rest : IsChars d body s) : IsChars d (c :: body) (c :: s)
  | letter {e byte : UInt8} {body s : Bytes} (known : (e, byte) ∈ escapes)
      (rest : IsChars d body s) : IsChars d (92 :: e :: body) (byte :: s)
  | unicode {hex body s : Bytes} {cp : Nat} (digits : IsHex4 hex cp) (scalar : ¬ IsSurrogate cp)
      (rest : IsChars d body s) :
      IsChars d (92 :: 117 :: (hex ++ body)) (String.utf8EncodeChar (Char.ofNat cp) ++ s)
  | pair {hex lowHex body s : Bytes} {high low : Nat} (digits : IsHex4 hex high)
      (lowDigits : IsHex4 lowHex low) (isHigh : 0xD800 ≤ high ∧ high ≤ 0xDBFF)
      (isLow : 0xDC00 ≤ low ∧ low ≤ 0xDFFF) (rest : IsChars d body s) :
      IsChars d (92 :: 117 :: (hex ++ 92 :: 117 :: (lowHex ++ body)))
        (String.utf8EncodeChar
          (Char.ofNat (0x10000 + (high - 0xD800) * 0x400 + (low - 0xDC00))) ++ s)
  -- Such an escape denotes no character; its value is laid out as if it did.
  | lone {hex body s : Bytes} {cp : Nat} (digits : IsHex4 hex cp) (surrogate : IsSurrogate cp)
      (allowed : d.lone cp) (rest : IsChars d body s) :
      IsChars d (92 :: 117 :: (hex ++ body)) (encodeCodepoint cp ++ s)

mutual

inductive IsValue (d : Dialect) : Bytes → Value → Prop where
  | null : IsValue d (ascii "null") .null
  | bool (b : Bool) : IsValue d (ascii (if b then "true" else "false")) (.bool b)
  | number {lit : Bytes} (valid : d.number lit) : IsValue d lit (.number (strtod lit))
  | string {body s : Bytes} (chars : IsChars d body s) :
      IsValue d (34 :: (body ++ [34])) (.string s)
  | emptyArray {blank : Bytes} (white : IsBlank blank) :
      IsValue d (91 :: (blank ++ [93])) (.array [])
  | array {body : Bytes} {a : List Value} (elements : IsElements d body a) :
      IsValue d (91 :: (body ++ [93])) (.array a)
  | emptyObject {blank : Bytes} (white : IsBlank blank) :
      IsValue d (123 :: (blank ++ [125])) (.object [])
  | object {body : Bytes} {o : List (Bytes × Value)} (members : IsMembers d body o) :
      IsValue d (123 :: (body ++ [125])) (.object o)

/-- `ws value ws` -/
inductive IsPadded (d : Dialect) : Bytes → Value → Prop where
  | pad {before text after : Bytes} {v : Value} (white : IsBlank before)
      (value : IsValue d text v) (whiteAfter : IsBlank after) :
      IsPadded d (before ++ (text ++ after)) v

/-- `value *( value-separator value )` -/
inductive IsElements (d : Dialect) : Bytes → List Value → Prop where
  | last {text : Bytes} {v : Value} (element : IsPadded d text v) : IsElements d text [v]
  | more {text later : Bytes} {v : Value} {a : List Value} (element : IsPadded d text v)
      (rest : IsElements d later a) : IsElements d (text ++ 44 :: later) (v :: a)

/-- `ws string name-separator value ws` -/
inductive IsMember (d : Dialect) : Bytes → Bytes × Value → Prop where
  | member {before body key after text : Bytes} {v : Value} (white : IsBlank before)
      (chars : IsChars d body key) (whiteAfter : IsBlank after) (value : IsPadded d text v) :
      IsMember d (before ++ (34 :: (body ++ 34 :: (after ++ 58 :: text)))) (key, v)

/-- `member *( value-separator member )` -/
inductive IsMembers (d : Dialect) : Bytes → List (Bytes × Value) → Prop where
  | last {text : Bytes} {m : Bytes × Value} (member : IsMember d text m) : IsMembers d text [m]
  | more {text later : Bytes} {m : Bytes × Value} {o : List (Bytes × Value)}
      (member : IsMember d text m) (rest : IsMembers d later o) :
      IsMembers d (text ++ 44 :: later) (m :: o)

end

/-- `JSON-text = ws value ws` -/
abbrev IsText (d : Dialect) (text : Bytes) (v : Value) : Prop :=
  IsPadded d text v

theorem IsValue.isText {d : Dialect} {text : Bytes} {v : Value} (value : IsValue d text v) :
    IsText d text v := by
  have none : IsBlank [] := by simp [IsBlank]
  simpa using IsPadded.pad none value none

/-- RFC 8259: any four digits may follow `\u`. -/
def rfc8259 : Dialect :=
  ⟨IsNumber, fun _ => True⟩

/-- RFC 8259 with surrogate escapes only in pairs. -/
def paired : Dialect :=
  ⟨IsNumber, fun _ => False⟩

/-- What one dialect allows, the other allows. -/
structure Dialect.Within (d e : Dialect) : Prop where
  number : ∀ lit, d.number lit → e.number lit
  lone : ∀ cp, d.lone cp → e.lone cp

variable {d e : Dialect}

theorem IsChars.widen (wider : ∀ cp, d.lone cp → e.lone cp) {body s : Bytes}
    (chars : IsChars d body s) : IsChars e body s := by
  induction chars with
  | done => exact .done
  | raw visible quote backslash _ ih => exact .raw visible quote backslash ih
  | letter known _ ih => exact .letter known ih
  | unicode digits scalar _ ih => exact .unicode digits scalar ih
  | pair digits lowDigits isHigh isLow _ ih => exact .pair digits lowDigits isHigh isLow ih
  | lone digits surrogate allowed _ ih =>
    exact .lone digits surrogate (wider _ allowed) ih

mutual

theorem IsValue.widen (wider : d.Within e) {text : Bytes} {v : Value} :
    IsValue d text v → IsValue e text v
  | .null => .null
  | .bool b => .bool b
  | .number valid => .number (wider.number _ valid)
  | .string chars => .string (chars.widen wider.lone)
  | .emptyArray white => .emptyArray white
  | .array elements => .array (IsElements.widen wider elements)
  | .emptyObject white => .emptyObject white
  | .object members => .object (IsMembers.widen wider members)

theorem IsPadded.widen (wider : d.Within e) {text : Bytes} {v : Value} :
    IsPadded d text v → IsPadded e text v
  | .pad white value whiteAfter => .pad white (IsValue.widen wider value) whiteAfter

theorem IsElements.widen (wider : d.Within e) {text : Bytes} {a : List Value} :
    IsElements d text a → IsElements e text a
  | .last element => .last (IsPadded.widen wider element)
  | .more element rest => .more (IsPadded.widen wider element) (IsElements.widen wider rest)

theorem IsMember.widen (wider : d.Within e) {text : Bytes} {m : Bytes × Value} :
    IsMember d text m → IsMember e text m
  | .member white chars whiteAfter value =>
    .member white (chars.widen wider.lone) whiteAfter (IsPadded.widen wider value)

theorem IsMembers.widen (wider : d.Within e) {text : Bytes} {o : List (Bytes × Value)} :
    IsMembers d text o → IsMembers e text o
  | .last member => .last (IsMember.widen wider member)
  | .more member rest => .more (IsMember.widen wider member) (IsMembers.widen wider rest)

end

end ShadowSe.Json
