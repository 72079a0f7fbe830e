import ShadowSe.Json.RoundTrip
import ShadowSe.Support.Utf8

namespace ShadowSe.Json

open Support

mutual

/-- All strings and keys, at any depth. -/
def Value.strings : Value → List Bytes
  | .null | .bool _ | .number _ => []
  | .string s => [s]
  | .array a => stringsOfElements a
  | .object o => stringsOfMembers o

def stringsOfElements : List Value → List Bytes
  | [] => []
  | v :: rest => v.strings ++ stringsOfElements rest

def stringsOfMembers : List (Bytes × Value) → List Bytes
  | [] => []
  | (key, v) :: rest => key :: (v.strings ++ stringsOfMembers rest)

end

/-- What the parser accepts, but for surrogates that stand alone. -/
def acceptedPaired : Dialect :=
  ⟨IsScanned, fun _ => False⟩

theorem acceptedPaired_within_accepted : acceptedPaired.Within accepted :=
  ⟨fun _ scanned => scanned, fun _ => False.elim⟩

theorem not_isUtf8_surrogate {cp : Nat} (surrogate : IsSurrogate cp) (s : Bytes) :
    ¬ IsUtf8 (encodeCodepoint cp ++ s) := by
  obtain ⟨low, high⟩ := surrogate
  have written : encodeCodepoint cp = [0xED, UInt8.ofNat (cp / 64 % 64 + 0x80),
      UInt8.ofNat (0x80 ||| cp &&& 0x3F)] := by
    have marked : ∀ value < 64, 0x80 ||| value = value + 0x80 := by decide
    have top : cp / 2 ^ 12 = 13 := by omega
    rw [encodeCodepoint, if_neg (by omega), if_neg (by omega), if_pos (by omega),
      Nat.shiftRight_eq_div_pow, top, Nat.shiftRight_eq_div_pow,
      Nat.and_two_pow_sub_one_eq_mod (cp / 2 ^ 6) 6, marked _ (Nat.mod_lt _ (by decide))]
    rfl
  intro valid
  rw [written] at valid
  have small := valid.behind_0xED
  rw [UInt8.lt_iff_toNat_lt, UInt8.toNat_ofNat'] at small
  have bound : (0xA0 : UInt8).toNat = 160 := rfl
  omega

theorem IsHex4.isAscii {hex : Bytes} {cp : Nat} (digits : IsHex4 hex cp) : IsAscii hex := by
  have plain : ∀ c : UInt8, (hexValue c).isSome → c < 0x80 := by
    apply forall_byte
    decide +kernel
  obtain ⟨a, b, c, d, p, q, r, s, rfl, first, second, third, fourth, -⟩ := digits
  simp [plain a (by simp [first]), plain b (by simp [second]), plain c (by simp [third]),
    plain d (by simp [fourth])]

private theorem unicode_isAscii {hex : Bytes} {cp : Nat} (digits : IsHex4 hex cp) :
    IsAscii (92 :: 117 :: hex) := by
  simp [digits.isAscii]

private theorem letter_isAscii {e byte : UInt8} (known : (e, byte) ∈ escapes) :
    IsAscii [92, e] ∧ IsAscii [byte] := by
  have all : escapes.all (fun entry => entry.1 < 0x80 && entry.2 < 0x80) = true := by decide
  have plain := List.all_eq_true.mp all _ known
  rw [Bool.and_eq_true, decide_eq_true_eq, decide_eq_true_eq] at plain
  exact ⟨by simpa using plain.1, by simpa using plain.2⟩

private theorem pair_isAscii {hex lowHex : Bytes} {high low : Nat} (digits : IsHex4 hex high)
    (lowDigits : IsHex4 lowHex low) : IsAscii (92 :: 117 :: (hex ++ 92 :: 117 :: lowHex)) := by
  simp [digits.isAscii, lowDigits.isAscii]

/-- Characters are written whole or as ASCII, so the text is valid when what it denotes is. -/
theorem IsChars.isUtf8_iff {body s : Bytes} (chars : IsChars acceptedPaired body s)
    (before : Bytes) : IsUtf8 (before ++ body) ↔ IsUtf8 (before ++ s) := by
  have escaped {escape out body s : Bytes} (plain : IsAscii escape) (nonempty : escape ≠ [])
      (valid : IsUtf8 out) (nonempty' : out ≠ [])
      (ih : ∀ before, IsUtf8 (before ++ body) ↔ IsUtf8 (before ++ s)) (before : Bytes) :
      IsUtf8 (before ++ (escape ++ body)) ↔ IsUtf8 (before ++ (out ++ s)) := by
    rw [isUtf8_around plain.isUtf8 nonempty, isUtf8_around valid nonempty']
    exact and_congr_right fun _ => ih []
  induction chars generalizing before with
  | done => exact Iff.rfl
  | @raw c body s _ _ _ _ ih => simpa using ih (before ++ [c])
  | letter known _ ih =>
    obtain ⟨plain, single⟩ := letter_isAscii known
    exact escaped plain (List.cons_ne_nil _ _) single.isUtf8 (List.cons_ne_nil _ _) ih before
  | unicode digits _ _ ih =>
    exact escaped (unicode_isAscii digits) (List.cons_ne_nil _ _) (isUtf8_encodeChar _)
      String.utf8EncodeChar_ne_nil ih before
  | @pair hex lowHex body s high low digits lowDigits _ _ _ ih =>
    have joined := escaped (pair_isAscii digits lowDigits) (List.cons_ne_nil _ _)
      (isUtf8_encodeChar (Char.ofNat (0x10000 + (high - 0xD800) * 0x400 + (low - 0xDC00))))
      String.utf8EncodeChar_ne_nil ih before
    rw [← joined]
    simp
  | lone _ _ allowed _ _ => exact absurd allowed id

/-- A surrogate that stands alone leaves bytes that are no character. -/
theorem IsChars.paired {body s : Bytes} (chars : IsChars accepted body s) (before : Bytes)
    (encoded : IsUtf8 (before ++ body)) (decoded : IsUtf8 (before ++ s)) :
    IsChars acceptedPaired body s := by
  have escaped {escape out body s before : Bytes} (plain : IsAscii escape) (nonempty : escape ≠ [])
      (valid : IsUtf8 out) (encoded : IsUtf8 (before ++ (escape ++ body)))
      (decoded : IsUtf8 (before ++ (out ++ s))) : IsUtf8 ([] ++ body) ∧ IsUtf8 ([] ++ s) := by
    obtain ⟨start, rest⟩ := (isUtf8_around plain.isUtf8 nonempty before body).mp encoded
    exact ⟨rest, (decoded.of_append start).of_append valid⟩
  induction chars generalizing before with
  | done => exact .done
  | @raw c body s visible quote backslash _ ih =>
    exact .raw visible quote backslash (ih (before ++ [c]) (by simpa using encoded)
      (by simpa using decoded))
  | letter known _ ih =>
    obtain ⟨plain, single⟩ := letter_isAscii known
    obtain ⟨rest, later⟩ := escaped plain (List.cons_ne_nil _ _) single.isUtf8 encoded decoded
    exact .letter known (ih [] rest later)
  | unicode digits scalar _ ih =>
    obtain ⟨rest, later⟩ := escaped (unicode_isAscii digits) (List.cons_ne_nil _ _)
      (isUtf8_encodeChar _) encoded decoded
    exact .unicode digits scalar (ih [] rest later)
  | @pair hex lowHex body _ _ _ digits lowDigits isHigh isLow _ ih =>
    have encoded : IsUtf8 (before ++ ((92 :: 117 :: (hex ++ 92 :: 117 :: lowHex)) ++ body)) := by
      simpa using encoded
    obtain ⟨rest, later⟩ := escaped (pair_isAscii digits lowDigits)
      (List.cons_ne_nil _ _) (isUtf8_encodeChar _) encoded decoded
    exact .pair digits lowDigits isHigh isLow (ih [] rest later)
  | lone digits surrogate _ _ _ =>
    obtain ⟨start, -⟩ := (isUtf8_around (unicode_isAscii digits).isUtf8 (List.cons_ne_nil _ _)
      before _).mp encoded
    exact absurd (decoded.of_append start) (not_isUtf8_surrogate surrogate _)

theorem IsBlank.isAscii {blank : Bytes} (white : IsBlank blank) : IsAscii blank := by
  have plain : ∀ c : UInt8, isWs c = true → c < 0x80 := by
    apply forall_byte
    decide +kernel
  exact fun c member => plain c (white c member)

/-- The string literals of a text, with what they denote: only they can hold bytes beyond
ASCII, and the text belongs to each dialect that has these literals and its numbers. -/
structure HasLiterals (d : Dialect) (text : Bytes) (strings : List Bytes)
    (derived : Dialect → Prop) (literals : List (Bytes × Bytes)) : Prop where
  chars : ∀ literal ∈ literals, IsChars d literal.1 literal.2
  strings : literals.map (·.2) = strings
  encoded : IsUtf8 text ↔ ∀ literal ∈ literals, IsUtf8 literal.1
  derived : ∀ e : Dialect, (∀ lit, d.number lit → e.number lit) →
    (∀ literal ∈ literals, IsChars e literal.1 literal.2) → derived e

namespace HasLiterals

variable {d : Dialect} {text later : Bytes} {strings more : List Bytes}
  {derived rest whole : Dialect → Prop} {literals others : List (Bytes × Bytes)}

theorem of_ascii (plain : IsAscii text) (always : ∀ e, (∀ lit, d.number lit → e.number lit) →
    derived e) : HasLiterals d text [] derived [] where
  chars := by simp
  strings := rfl
  encoded := by simp [plain.isUtf8]
  derived e numbers _ := always e numbers

theorem single {body s : Bytes} (chars : IsChars d body s) :
    HasLiterals d body [s] (fun e => IsChars e body s) [(body, s)] where
  chars := by simpa using chars
  strings := rfl
  encoded := by simp
  derived e _ converted := by simpa using converted

/-- Text around a text does not matter when it is ASCII. -/
theorem around (has : HasLiterals d text strings derived literals)
    (encoded : IsUtf8 later ↔ IsUtf8 text) (builds : ∀ e, derived e → whole e) :
    HasLiterals d later strings whole literals where
  chars := has.chars
  strings := has.strings
  encoded := encoded.trans has.encoded
  derived e numbers converted := builds e (has.derived e numbers converted)

theorem append {joined : Bytes} (has : HasLiterals d text strings derived literals)
    (has' : HasLiterals d later more rest others)
    (encoded : IsUtf8 joined ↔ IsUtf8 text ∧ IsUtf8 later)
    (builds : ∀ e, derived e → rest e → whole e) :
    HasLiterals d joined (strings ++ more) whole (literals ++ others) where
  chars := List.forall_mem_append.mpr ⟨has.chars, has'.chars⟩
  strings := by rw [List.map_append, has.strings, has'.strings]
  encoded := by rw [encoded, has.encoded, has'.encoded, List.forall_mem_append]
  derived e numbers converted := by
    rw [List.forall_mem_append] at converted
    exact builds e (has.derived e numbers converted.1) (has'.derived e numbers converted.2)

end HasLiterals

/-- All number literals are ASCII. -/
def Dialect.Plain (d : Dialect) : Prop :=
  ∀ lit, d.number lit → IsAscii lit

variable {d : Dialect}

mutual

theorem IsValue.literals (plain : d.Plain) {text : Bytes} {v : Value} :
    IsValue d text v → ∃ literals, HasLiterals d text v.strings (IsValue · text v) literals
  | .null => ⟨_, .of_ascii (by decide) fun _ _ => .null⟩
  | .bool b => ⟨_, .of_ascii (by cases b <;> decide) fun _ _ => .bool b⟩
  | .number valid => ⟨_, .of_ascii (plain _ valid) fun _ numbers => .number (numbers _ valid)⟩
  | .string chars => ⟨_, (HasLiterals.single chars).around
      (isUtf8_between (by decide) (by decide) _) fun _ => .string⟩
  | .emptyArray white => ⟨_, .of_ascii (by simp [white.isAscii]) fun _ _ => .emptyArray white⟩
  | .array elements =>
    have ⟨_, has⟩ := IsElements.literals plain elements
    ⟨_, has.around (isUtf8_between (by decide) (by decide) _) fun _ => .array⟩
  | .emptyObject white => ⟨_, .of_ascii (by simp [white.isAscii]) fun _ _ => .emptyObject white⟩
  | .object members =>
    have ⟨_, has⟩ := IsMembers.literals plain members
    ⟨_, has.around (isUtf8_between (by decide) (by decide) _) fun _ => .object⟩

theorem IsPadded.literals (plain : d.Plain) {text : Bytes} {v : Value} :
    IsPadded d text v → ∃ literals, HasLiterals d text v.strings (IsPadded · text v) literals
  | .pad white value whiteAfter => by
    obtain ⟨_, has⟩ := IsValue.literals plain value
    refine ⟨_, has.around ?_ fun _ derived => .pad white derived whiteAfter⟩
    rw [isUtf8_ascii_append white.isAscii, isUtf8_append_ascii whiteAfter.isAscii]

theorem IsElements.literals (plain : d.Plain) {text : Bytes} {a : List Value} :
    IsElements d text a →
      ∃ literals, HasLiterals d text (stringsOfElements a) (IsElements · text a) literals
  | .last element => by
    obtain ⟨_, has⟩ := IsPadded.literals plain element
    rw [stringsOfElements, stringsOfElements, List.append_nil]
    exact ⟨_, has.around Iff.rfl fun _ => .last⟩
  | .more element rest => by
    obtain ⟨_, has⟩ := IsPadded.literals plain element
    obtain ⟨_, has'⟩ := IsElements.literals plain rest
    exact ⟨_, has.append has' (isUtf8_cons_between (by decide) _ _) fun _ => .more⟩

theorem IsMember.literals (plain : d.Plain) {text : Bytes} {m : Bytes × Value} :
    IsMember d text m →
      ∃ literals, HasLiterals d text (m.1 :: m.2.strings) (IsMember · text m) literals
  | .member white chars whiteAfter value => by
    obtain ⟨_, has⟩ := IsPadded.literals plain value
    refine ⟨_, (HasLiterals.single chars).append has ?_ fun _ key derived =>
      .member white key whiteAfter derived⟩
    rw [isUtf8_ascii_append white.isAscii, ← List.singleton_append,
      isUtf8_ascii_append (by decide), isUtf8_cons_between (by decide),
      isUtf8_cons_between (by decide), and_iff_right whiteAfter.isAscii.isUtf8]

theorem IsMembers.literals (plain : d.Plain) {text : Bytes} {o : List (Bytes × Value)} :
    IsMembers d text o →
      ∃ literals, HasLiterals d text (stringsOfMembers o) (IsMembers · text o) literals
  | .last member => by
    obtain ⟨_, has⟩ := IsMember.literals plain member
    rw [stringsOfMembers, stringsOfMembers, List.append_nil]
    exact ⟨_, has.around Iff.rfl fun _ => .last⟩
  | .more member rest => by
    obtain ⟨_, has⟩ := IsMember.literals plain member
    obtain ⟨_, has'⟩ := IsMembers.literals plain rest
    exact ⟨_, has.append has' (isUtf8_cons_between (by decide) _ _) fun _ => .more⟩

end

theorem AllDigits.isAscii {digits : Bytes} (all : AllDigits digits) : IsAscii digits := by
  have plain : ∀ c : UInt8, isdigit c = true → c < 0x80 := by
    apply forall_byte
    decide +kernel
  exact fun c member => plain c (all c member)

theorem IsScanned.isAscii {lit : Bytes} (scanned : IsScanned lit) : IsAscii lit := by
  obtain ⟨minus, whole, frac, exp, rfl, sign, digits, fraction, exponent, -⟩ := scanned
  simp only [isAscii_append]
  refine ⟨?_, digits.isAscii, ?_, ?_⟩
  · rcases sign with ⟨rfl, -⟩ | rfl
    · exact isAscii_nil
    · decide
  · rcases fraction with rfl | ⟨ds, rfl, all⟩
    · exact isAscii_nil
    · simp [all.isAscii]
  · rcases exponent with rfl | ⟨mark, sign, ds, rfl, letter, signed, all⟩
    · exact isAscii_nil
    · rcases letter with rfl | rfl
      all_goals rcases signed with rfl | rfl | rfl
      all_goals simp [all.isAscii]

/-- A text without surrogates that stand alone is valid UTF-8 when its strings are. -/
theorem IsPadded.isUtf8_iff {text : Bytes} {v : Value} (derived : IsText acceptedPaired text v) :
    IsUtf8 text ↔ ∀ s ∈ v.strings, IsUtf8 s := by
  obtain ⟨literals, has⟩ := derived.literals fun _ => IsScanned.isAscii
  rw [has.encoded, ← has.strings, List.forall_mem_map]
  exact forall₂_congr fun literal member => (has.chars literal member).isUtf8_iff []

/-- Parsed from valid UTF-8, all strings and keys are valid UTF-8 exactly when no surrogate
is written outside a pair. -/
theorem parse_strings_isUtf8_iff {text : Bytes} {v : Value} (encoded : IsUtf8 text)
    (parsed : parse text = .ok v) :
    (∀ s ∈ v.strings, IsUtf8 s) ↔ ∃ w, IsText acceptedPaired text w := by
  constructor
  · intro decoded
    obtain ⟨literals, has⟩ := (parse_eq_ok_iff.mp parsed).literals fun _ => IsScanned.isAscii
    refine ⟨v, has.derived acceptedPaired (fun _ scanned => scanned) fun literal member => ?_⟩
    refine (has.chars literal member).paired [] (has.encoded.mp encoded literal member) ?_
    exact decoded _ (has.strings ▸ List.mem_map_of_mem member)
  · rintro ⟨w, derived⟩
    have reparsed := parse_eq_ok_iff.mpr (derived.widen acceptedPaired_within_accepted)
    cases Except.ok.inj (parsed.symm.trans reparsed)
    exact derived.isUtf8_iff.mp encoded

theorem parse_strings_not_isUtf8 :
    ¬ ∀ text v, IsUtf8 text → parse text = .ok v → ∀ s ∈ v.strings, IsUtf8 s := by
  intro decoded
  have lone := decoded (ascii "\"\\udc00\"") (.string [0xED, 0xB0, 0x80]) (by decide) rfl
    [0xED, 0xB0, 0x80] (by simp [Value.strings])
  exact absurd lone (by decide)

theorem parse_strings_isUtf8_euro :
    ∃ w, IsText acceptedPaired ([34, 0xC3, 0xA9] ++ ascii "\\u20ac\"") w := by
  have parsed : parse ([34, 0xC3, 0xA9] ++ ascii "\\u20ac\"") =
      .ok (.string [0xC3, 0xA9, 0xE2, 0x82, 0xAC]) := rfl
  apply (parse_strings_isUtf8_iff (by decide) parsed).mp
  simp only [Value.strings, List.mem_singleton, forall_eq]
  decide

mutual

theorem strings_reread : ∀ v : Value, v.reread.strings = v.strings
  | .null | .bool _ | .number _ | .string _ => rfl
  | .array a => strings_rereadElements a
  | .object o => strings_rereadMembers o

theorem strings_rereadElements : ∀ a : List Value,
    stringsOfElements (rereadElements a) = stringsOfElements a
  | [] => rfl
  | v :: rest => congrArg₂ (· ++ ·) (strings_reread v) (strings_rereadElements rest)

theorem strings_rereadMembers : ∀ o : List (Bytes × Value),
    stringsOfMembers (rereadMembers o) = stringsOfMembers o
  | [] => rfl
  | (key, v) :: rest =>
    congrArg (key :: ·) (congrArg₂ (· ++ ·) (strings_reread v) (strings_rereadMembers rest))

end

theorem paired_within_acceptedPaired : paired.Within acceptedPaired :=
  ⟨fun _ => IsNumber.scanned, fun _ => id⟩

/-- A dumped value is valid UTF-8 exactly when its strings and keys are. -/
theorem dump_isUtf8_iff (pretty : Bool) {v : Value} (finite : ∀ n ∈ v.numbers, n.isFinite = true) :
    IsUtf8 (v.dump pretty) ↔ ∀ s ∈ v.strings, IsUtf8 s := by
  rw [((isText_dump pretty finite).widen paired_within_acceptedPaired).isUtf8_iff, strings_reread]

end ShadowSe.Json
