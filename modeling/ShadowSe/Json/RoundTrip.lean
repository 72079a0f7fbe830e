import ShadowSe.Json.NumberText
import ShadowSe.Json.Rfc8259

namespace ShadowSe.Json

open Support

mutual

/-- The numbers in a value. -/
def Value.numbers : Value → List Binary64
  | .number n => [n]
  | .array a => numbersOfElements a
  | .object o => numbersOfMembers o
  | _ => []

def numbersOfElements : List Value → List Binary64
  | [] => []
  | v :: rest => v.numbers ++ numbersOfElements rest

def numbersOfMembers : List (Bytes × Value) → List Binary64
  | [] => []
  | (_, v) :: rest => v.numbers ++ numbersOfMembers rest

end

mutual

/-- The value after its numbers were written and read back. -/
def Value.reread : Value → Value
  | .number n => .number (strtod (numberText n))
  | .array a => .array (rereadElements a)
  | .object o => .object (rereadMembers o)
  | .null => .null
  | .bool b => .bool b
  | .string s => .string s

def rereadElements : List Value → List Value
  | [] => []
  | v :: rest => v.reread :: rereadElements rest

def rereadMembers : List (Bytes × Value) → List (Bytes × Value)
  | [] => []
  | (key, v) :: rest => (key, v.reread) :: rereadMembers rest

end

mutual

/-- Equality of values: numbers compare by `==`, members and elements in order. -/
def Value.equal : Value → Value → Bool
  | .null, .null => true
  | .bool b, .bool c => b == c
  | .number m, .number n => m.eq n
  | .string s, .string t => s == t
  | .array a, .array b => equalElements a b
  | .object o, .object p => equalMembers o p
  | _, _ => false

def equalElements : List Value → List Value → Bool
  | [], [] => true
  | v :: rest, w :: others => v.equal w && equalElements rest others
  | _, _ => false

def equalMembers : List (Bytes × Value) → List (Bytes × Value) → Bool
  | [], [] => true
  | (key, v) :: rest, (other, w) :: others => key == other && v.equal w && equalMembers rest others
  | _, _ => false

end

theorem hexValue_lowerHex {digit : UInt8} (small : digit < 16) :
    hexValue (lowerHex digit) = some digit.toNat := by
  have all : ∀ n < 16, hexValue (lowerHex (UInt8.ofNat n)) = some n := by decide
  have known := all digit.toNat (UInt8.lt_iff_toNat_lt.mp small)
  rwa [UInt8.ofNat_toNat] at known

theorem isHex4_control {c : UInt8} (control : c < 32) :
    IsHex4 [48, 48, lowerHex (c / 16), lowerHex (c % 16)] c.toNat := by
  have bound : c.toNat < 32 := UInt8.lt_iff_toNat_lt.mp control
  have high : (c / 16).toNat = c.toNat / 16 := UInt8.toNat_div c 16
  have low : (c % 16).toNat = c.toNat % 16 := UInt8.toNat_mod c 16
  have highSmall : c / 16 < 16 := by
    rw [UInt8.lt_iff_toNat_lt, high]
    show c.toNat / 16 < 16
    omega
  have lowSmall : c % 16 < 16 := by
    rw [UInt8.lt_iff_toNat_lt, low]
    show c.toNat % 16 < 16
    omega
  refine ⟨_, _, _, _, 0, 0, c.toNat / 16, c.toNat % 16, rfl, rfl, rfl, ?_, ?_, by omega⟩
  · rw [hexValue_lowerHex highSmall, high]
  · rw [hexValue_lowerHex lowSmall, low]

theorem isChars_escapeByte {d : Dialect} (c : UInt8) {body s : Bytes} (chars : IsChars d body s) :
    IsChars d (escapeByte c ++ body) (c :: s) := by
  have letter {e byte : UInt8} (known : (e, byte) ∈ escapes) :
      IsChars d (92 :: e :: body) (byte :: s) := .letter known chars
  unfold escapeByte
  split
  · rename_i same
    exact same ▸ letter (by decide : (34, 34) ∈ escapes)
  split
  · rename_i same
    exact same ▸ letter (by decide : (92, 92) ∈ escapes)
  split
  · rename_i same
    exact same ▸ letter (by decide : (98, 8) ∈ escapes)
  split
  · rename_i same
    exact same ▸ letter (by decide : (102, 12) ∈ escapes)
  split
  · rename_i same
    exact same ▸ letter (by decide : (110, 10) ∈ escapes)
  split
  · rename_i same
    exact same ▸ letter (by decide : (114, 13) ∈ escapes)
  split
  · rename_i same
    exact same ▸ letter (by decide : (116, 9) ∈ escapes)
  split
  · rename_i control
    have bound : c.toNat < 32 := UInt8.lt_iff_toNat_lt.mp control
    have scalar : ¬ IsSurrogate c.toNat := by
      unfold IsSurrogate
      omega
    have encoded : String.utf8EncodeChar (Char.ofNat c.toNat) = [c] := by
      rw [← encodeCodepoint_eq scalar (by omega), encodeCodepoint, if_pos (by omega),
        UInt8.ofNat_toNat]
    have escaped := IsChars.unicode (isHex4_control control) scalar chars
    rw [encoded] at escaped
    exact escaped
  · rename_i quote backslash _ _ _ _ _ control
    exact .raw (UInt8.not_lt.mp control) quote backslash chars

theorem isChars_escapeString {d : Dialect} (s : Bytes) : IsChars d (escapeString s) s := by
  induction s with
  | nil => exact .done
  | cons c s ih =>
    rw [escapeString, List.flatMap_cons]
    exact isChars_escapeByte c ih

theorem isBlank_newlineIndent (pretty : Bool) (level : Nat) :
    IsBlank (newlineIndent pretty level) := by
  intro c member
  unfold newlineIndent at member
  split at member
  · rcases List.mem_cons.mp member with rfl | space
    · rfl
    · rw [List.eq_of_mem_replicate space]
      rfl
  · cases member

private theorem isBlank_nil : IsBlank [] := by
  simp [IsBlank]

private theorem isBlank_space (pretty : Bool) : IsBlank (if pretty then [32] else []) := by
  cases pretty <;> simp [IsBlank, isWs]

section Dump

variable (pretty : Bool)

/-- A member as `dumpMembers` writes it, with what stands after its value. -/
theorem isMember_dumped {value closing : Bytes} {w : Value} (key : Bytes) (level : Nat)
    (dumped : IsValue paired value w) (white : IsBlank closing) :
    IsMember paired (newlineIndent pretty level ++ (34 :: (escapeString key ++ 34 ::
      (58 :: ((if pretty then [32] else []) ++ (value ++ closing)))))) (key, w) :=
  .member (isBlank_newlineIndent pretty level) (isChars_escapeString key) isBlank_nil
    (.pad (isBlank_space pretty) dumped white)

mutual

/-- What is dumped denotes the value with its numbers read back. -/
theorem isValue_dumpValue : ∀ (v : Value) (indent : Nat), (∀ n ∈ v.numbers, n.isFinite = true) →
    IsValue paired (dumpValue pretty v indent) v.reread
  | .null, _, _ => .null
  | .bool b, _, _ => .bool b
  | .number n, _, finite => .number (isNumber_numberText (finite n (by simp [Value.numbers])))
  | .string s, _, _ => .string (isChars_escapeString s)
  | .array [], _, _ => .emptyArray isBlank_nil
  | .array (v :: rest), indent, finite => by
    have elements := isElements_dumpElements (v :: rest) indent (List.cons_ne_nil v rest) finite
      _ (isBlank_newlineIndent pretty indent)
    simpa [dumpValue, Value.reread] using IsValue.array elements
  | .object [], _, _ => .emptyObject isBlank_nil
  | .object (entry :: rest), indent, finite => by
    have members := isMembers_dumpMembers (entry :: rest) indent (List.cons_ne_nil entry rest)
      finite _ (isBlank_newlineIndent pretty indent)
    simpa [dumpValue, Value.reread] using IsValue.object members

theorem isElements_dumpElements : ∀ (a : List Value) (indent : Nat), a ≠ [] →
    (∀ n ∈ numbersOfElements a, n.isFinite = true) → ∀ closing, IsBlank closing →
    IsElements paired (dumpElements pretty true a indent ++ closing) (rereadElements a)
  | [], _, nonempty, _, _, _ => absurd rfl nonempty
  | [v], indent, _, finite, closing, white => by
    have value := isValue_dumpValue v (indent + 1) fun n member =>
      finite n (List.mem_append_left _ member)
    have padded := IsPadded.pad (isBlank_newlineIndent pretty (indent + 1)) value white
    simpa [dumpElements, rereadElements] using IsElements.last padded
  | v :: w :: rest, indent, _, finite, closing, white => by
    have value := isValue_dumpValue v (indent + 1) fun n member =>
      finite n (List.mem_append_left _ member)
    have others := isElements_dumpElements (w :: rest) indent (List.cons_ne_nil w rest)
      (fun n member => finite n (List.mem_append_right _ member)) closing white
    have padded := IsPadded.pad (isBlank_newlineIndent pretty (indent + 1)) value isBlank_nil
    simpa [dumpElements, rereadElements] using IsElements.more padded others

theorem isMembers_dumpMembers : ∀ (o : List (Bytes × Value)) (indent : Nat), o ≠ [] →
    (∀ n ∈ numbersOfMembers o, n.isFinite = true) → ∀ closing, IsBlank closing →
    IsMembers paired (dumpMembers pretty true o indent ++ closing) (rereadMembers o)
  | [], _, nonempty, _, _, _ => absurd rfl nonempty
  | [(key, v)], indent, _, finite, closing, white => by
    have value := isValue_dumpValue v (indent + 1) fun n member =>
      finite n (List.mem_append_left _ member)
    have member := isMember_dumped pretty key (indent + 1) value white
    simpa [dumpMembers, rereadMembers, ascii] using IsMembers.last member
  | (key, v) :: entry :: rest, indent, _, finite, closing, white => by
    have value := isValue_dumpValue v (indent + 1) fun n member =>
      finite n (List.mem_append_left _ member)
    have others := isMembers_dumpMembers (entry :: rest) indent (List.cons_ne_nil entry rest)
      (fun n member => finite n (List.mem_append_right _ member)) closing white
    have member := isMember_dumped pretty key (indent + 1) value isBlank_nil
    simpa [dumpMembers, rereadMembers, ascii] using IsMembers.more member others

end

/-- A value without infinities and NaNs is dumped as a text of RFC 8259. -/
theorem isText_dump {v : Value} (finite : ∀ n ∈ v.numbers, n.isFinite = true) :
    IsText paired (v.dump pretty) v.reread :=
  (isValue_dumpValue pretty v 0 finite).isText

/-- Parsing what was dumped gives the value with its numbers read back. -/
theorem parse_dump {v : Value} (finite : ∀ n ∈ v.numbers, n.isFinite = true) :
    parse (v.dump pretty) = .ok v.reread :=
  parse_of_isText ((isText_dump pretty finite).widen paired_within_accepted)

end Dump

/-- The number equals an integer of magnitude below `2^53`. -/
def IsSmallInteger (n : Binary64) : Prop :=
  ∃ k : Int, k.natAbs < 2 ^ 53 ∧ n.eq (.ofInt k) = true

theorem IsSmallInteger.isFinite {n : Binary64} (integer : IsSmallInteger n) :
    n.isFinite = true := by
  obtain ⟨k, small, same⟩ := integer
  rcases Binary64.eq_cases same with rfl | ⟨rfl | rfl, _⟩
  · exact Binary64.ofInt_isFinite small
  · rfl
  · rfl

mutual

theorem equal_reread : ∀ v : Value, (∀ n ∈ v.numbers, IsSmallInteger n) →
    v.reread.equal v = true
  | .null, _ => rfl
  | .bool b, _ => by simp [Value.reread, Value.equal]
  | .number n, integers => by
    obtain ⟨k, small, same⟩ := integers n (by simp [Value.numbers])
    exact strtod_numberText small same
  | .string s, _ => by simp [Value.reread, Value.equal]
  | .array a, integers => equalElements_reread a integers
  | .object o, integers => equalMembers_reread o integers

theorem equalElements_reread : ∀ a : List Value, (∀ n ∈ numbersOfElements a, IsSmallInteger n) →
    equalElements (rereadElements a) a = true
  | [], _ => rfl
  | v :: rest, integers => by
    have head := equal_reread v fun n member => integers n (List.mem_append_left _ member)
    have tail := equalElements_reread rest fun n member =>
      integers n (List.mem_append_right _ member)
    rw [rereadElements, equalElements, head, tail, Bool.and_self]

theorem equalMembers_reread : ∀ o : List (Bytes × Value),
    (∀ n ∈ numbersOfMembers o, IsSmallInteger n) → equalMembers (rereadMembers o) o = true
  | [], _ => rfl
  | (key, v) :: rest, integers => by
    have head := equal_reread v fun n member => integers n (List.mem_append_left _ member)
    have tail := equalMembers_reread rest fun n member =>
      integers n (List.mem_append_right _ member)
    rw [rereadMembers, equalMembers, head, tail, beq_self_eq_true, Bool.and_self, Bool.and_self]

end

/-- A value whose numbers are integers below `2^53` is parsed back from its dump, with
the same members in the same order. -/
theorem parse_dump_equal (v : Value) (pretty : Bool)
    (integers : ∀ n ∈ v.numbers, IsSmallInteger n) :
    ∃ w, parse (v.dump pretty) = .ok w ∧ w.equal v = true :=
  ⟨v.reread, parse_dump pretty fun n member => (integers n member).isFinite,
    equal_reread v integers⟩

/-- An object with a repeated key, a control character and a nested array. -/
theorem parse_dump_equal_nested :
    ∃ w, parse ((Value.object [(ascii "a", .number (.ofInt (-7))),
      (ascii "a", .array [.string [0, 10, 0xFF], .null])]).dump true) = .ok w ∧
      w.equal (.object [(ascii "a", .number (.ofInt (-7))),
        (ascii "a", .array [.string [0, 10, 0xFF], .null])]) = true := by
  refine parse_dump_equal _ true fun n member => ?_
  have only : n = .ofInt (-7) := by
    simpa [Value.numbers, numbersOfMembers, numbersOfElements] using member
  rw [only]
  exact ⟨-7, by decide, Binary64.eq_self (Binary64.ofInt_isFinite (by decide))⟩

end ShadowSe.Json
