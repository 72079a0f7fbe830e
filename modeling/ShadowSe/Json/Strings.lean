import ShadowSe.Json.Scanner

namespace ShadowSe.Json

open Support

private theorem tail_byte (cp : Nat) :
    UInt8.ofNat (0x80 ||| cp &&& 0x3F) = UInt8.ofNat (cp % 0x40 + 0x80) := by
  have joined : ∀ low < 0x40, 0x80 ||| low = low + 0x80 := by decide
  rw [Nat.and_two_pow_sub_one_eq_mod cp 6, joined _ (Nat.mod_lt _ (by decide))]

/-- The bytes of a code point are its UTF-8 encoding. -/
theorem encodeCodepoint_eq {cp : Nat} (scalar : ¬ IsSurrogate cp) (bounded : cp ≤ 0x10FFFF) :
    encodeCodepoint cp = String.utf8EncodeChar (Char.ofNat cp) := by
  have valid : cp.isValidChar := by
    unfold IsSurrogate at scalar
    unfold Nat.isValidChar
    omega
  have value : (Char.ofNat cp).val.toNat = cp := by
    rw [Char.ofNat, dif_pos valid]
    rfl
  have two : ∀ high < 0x20, 0xC0 ||| high = high % 0x20 + 0xC0 := by decide
  have three : ∀ high < 0x10, 0xE0 ||| high = high % 0x10 + 0xE0 := by decide
  have four : ∀ high < 0x08, 0xF0 ||| high = high % 0x08 + 0xF0 := by decide
  simp only [encodeCodepoint, String.utf8EncodeChar, value, tail_byte, Nat.shiftRight_eq_div_pow]
  by_cases one : cp ≤ 0x7F
  · rw [if_pos (by omega), if_pos one]
  · rw [if_neg (by omega), if_neg one]
    by_cases short : cp ≤ 0x7FF
    · rw [if_pos (by omega), if_pos short, two _ (by omega)]
    · rw [if_neg (by omega), if_neg short]
      by_cases medium : cp ≤ 0xFFFF
      · rw [if_pos (by omega), if_pos medium, three _ (by omega)]
      · rw [if_neg (by omega), if_neg medium, four _ (by omega)]

theorem hexValue_lt {c : UInt8} {digit : Nat} (found : hexValue c = some digit) : digit < 16 := by
  unfold hexValue isdigit at found
  split at found
  · rename_i decimal
    simp only [Bool.and_eq_true, decide_eq_true_eq, UInt8.le_iff_toNat_le] at decimal
    cases found
    have upper : c.toNat ≤ 57 := decimal.2
    omega
  · split at found
    · rename_i lower
      simp only [UInt8.le_iff_toNat_le] at lower
      cases found
      have upper : c.toNat ≤ 102 := lower.2
      omega
    · split at found
      · rename_i upper
        simp only [UInt8.le_iff_toNat_le] at upper
        cases found
        have bound : c.toNat ≤ 70 := upper.2
        omega
      · cases found

private theorem shift_or (value digit : Nat) (small : digit < 16) :
    value <<< 4 ||| digit = 16 * value + digit := by
  rw [← Nat.shiftLeft_add_eq_or_of_lt (by omega), Nat.shiftLeft_eq]
  omega

theorem IsHex4.lt {hex : Bytes} {cp : Nat} (digits : IsHex4 hex cp) : cp < 0x10000 := by
  obtain ⟨_, _, _, _, p, q, r, s, _, first, second, third, fourth, rfl⟩ := digits
  have := hexValue_lt first
  have := hexValue_lt second
  have := hexValue_lt third
  have := hexValue_lt fourth
  omega

theorem readHex4_append {hex : Bytes} {cp : Nat} (digits : IsHex4 hex cp) (rest : Bytes)
    (pos : Nat) : readHex4 ⟨hex ++ rest, pos⟩ = (some cp, ⟨rest, pos + 4⟩) := by
  obtain ⟨a, b, c, d, p, q, r, s, rfl, first, second, third, fourth, rfl⟩ := digits
  simp only [readHex4, readHexDigits, List.cons_append, List.nil_append, List.length_cons, first,
    second, third, fourth, shift_or _ _ (hexValue_lt first), shift_or _ _ (hexValue_lt second),
    shift_or _ _ (hexValue_lt third), shift_or _ _ (hexValue_lt fourth)]
  rw [if_neg (by omega)]
  simp only [Prod.mk.injEq, Option.some.injEq, and_true]
  omega

private theorem readHexDigits_succ {count value cp : Nat} {c after : Cursor}
    (read : readHexDigits (count + 1) value c = (some cp, after)) :
    ∃ head digit behind, hexValue head = some digit ∧ c.Passes [head] behind ∧
      readHexDigits count (16 * value + digit) behind = (some cp, after) := by
  obtain ⟨rest, pos⟩ := c
  cases rest with
  | nil => cases read
  | cons head rest =>
    simp only [readHexDigits] at read
    cases found : hexValue head with
    | none =>
      rw [found] at read
      cases read
    | some digit =>
      rw [found] at read
      refine ⟨head, digit, ⟨rest, pos + 1⟩, found, ⟨rfl, rfl⟩, ?_⟩
      rw [← shift_or _ _ (hexValue_lt found)]
      exact read

theorem readHex4_passes {c after : Cursor} {cp : Nat} (read : readHex4 c = (some cp, after)) :
    ∃ hex, IsHex4 hex cp ∧ c.Passes hex after := by
  unfold readHex4 at read
  split at read
  · cases read
  · obtain ⟨a, p, _, first, one, read⟩ := readHexDigits_succ read
    obtain ⟨b, q, _, second, two, read⟩ := readHexDigits_succ read
    obtain ⟨c, r, _, third, three, read⟩ := readHexDigits_succ read
    obtain ⟨d, s, _, fourth, four, read⟩ := readHexDigits_succ read
    cases read
    refine ⟨[a, b, c, d], ⟨a, b, c, d, p, q, r, s, rfl, first, second, third, fourth, by omega⟩, ?_⟩
    exact one.trans (two.trans (three.trans four))

theorem simpleEscape_eq_some {e byte : UInt8} :
    simpleEscape e = some byte ↔ (e, byte) ∈ escapes := by
  unfold simpleEscape
  constructor
  · intro known
    repeat' split at known
    all_goals first
      | cases known; subst e; decide
      | cases known
  · intro known
    simp only [escapes, List.mem_cons, Prod.mk.injEq, List.not_mem_nil, or_false] at known
    rcases known with ⟨rfl, rfl⟩ | ⟨rfl, rfl⟩ | ⟨rfl, rfl⟩ | ⟨rfl, rfl⟩ | ⟨rfl, rfl⟩ | ⟨rfl, rfl⟩ |
      ⟨rfl, rfl⟩ | ⟨rfl, rfl⟩
    all_goals rfl

/-- What the parser accepts: lenient numbers, and low surrogates that stand alone. -/
def accepted : Dialect :=
  ⟨IsScanned, fun cp => 0xDC00 ≤ cp⟩

private theorem pair_codepoint {high low : Nat} (isHigh : 0xD800 ≤ high ∧ high ≤ 0xDBFF)
    (isLow : 0xDC00 ≤ low ∧ low ≤ 0xDFFF) :
    encodeCodepoint (0x10000 + ((high - 0xD800) <<< 10) + (low - 0xDC00)) =
      String.utf8EncodeChar (Char.ofNat (0x10000 + (high - 0xD800) * 0x400 + (low - 0xDC00))) := by
  rw [Nat.shiftLeft_eq]
  apply encodeCodepoint_eq
  · unfold IsSurrogate
    omega
  · omega

theorem parseUnicode_single {hex : Bytes} {cp : Nat} (digits : IsHex4 hex cp)
    (notHigh : ¬ (0xD800 ≤ cp ∧ cp ≤ 0xDBFF)) (value rest : Bytes) (pos : Nat) :
    parseUnicode value ⟨hex ++ rest, pos⟩ = .ok (value ++ encodeCodepoint cp, ⟨rest, pos + 4⟩) := by
  simp only [parseUnicode, readHex4_append digits, if_neg notHigh]
  rfl

theorem parseUnicode_pair {hex lowHex : Bytes} {high low : Nat} (digits : IsHex4 hex high)
    (lowDigits : IsHex4 lowHex low) (isHigh : 0xD800 ≤ high ∧ high ≤ 0xDBFF)
    (isLow : 0xDC00 ≤ low ∧ low ≤ 0xDFFF) (value rest : Bytes) (pos : Nat) :
    parseUnicode value ⟨hex ++ 92 :: 117 :: (lowHex ++ rest), pos⟩ =
      .ok (value ++ String.utf8EncodeChar
        (Char.ofNat (0x10000 + (high - 0xD800) * 0x400 + (low - 0xDC00))), ⟨rest, pos + 10⟩) := by
  have marked : ¬ (List.take 2 (92 :: 117 :: (lowHex ++ rest)) ≠ ascii "\\u") := by
    rw [not_not]
    rfl
  simp only [parseUnicode, readHex4_append digits, if_pos isHigh, if_neg marked, Cursor.advance,
    List.drop_succ_cons, List.drop_zero, readHex4_append lowDigits]
  rw [if_neg (by omega), appendUtf8, pair_codepoint isHigh isLow]

theorem parseChars_append {body s : Bytes} (chars : IsChars accepted body s) (value rest : Bytes)
    (pos fuel : Nat) (enough : body.length < fuel) :
    ∃ after, parseChars fuel value ⟨body ++ 34 :: rest, pos⟩ =
      .ok (value ++ s, ⟨rest, after⟩) := by
  induction chars generalizing value pos fuel with
  | done =>
    obtain ⟨fuel, rfl⟩ := Nat.exists_eq_add_one_of_ne_zero (Nat.ne_of_gt enough)
    exact ⟨pos + 1, by simp [parseChars]⟩
  | @raw c body s visible quote backslash _ ih =>
    obtain ⟨fuel, rfl⟩ := Nat.exists_eq_add_one_of_ne_zero (Nat.ne_zero_of_lt enough)
    obtain ⟨after, parsed⟩ := ih (value ++ [c]) (pos + 1) fuel (Nat.lt_of_succ_lt_succ enough)
    refine ⟨after, ?_⟩
    simp only [parseChars, List.cons_append, if_neg quote, if_neg backslash,
      if_neg (UInt8.not_lt.mpr visible), parsed]
    simp
  | @letter e byte body s known _ ih =>
    obtain ⟨fuel, rfl⟩ := Nat.exists_eq_add_one_of_ne_zero (Nat.ne_zero_of_lt enough)
    simp only [List.length_cons] at enough
    obtain ⟨after, parsed⟩ := ih (value ++ [byte]) (pos + 2) fuel (by omega)
    refine ⟨after, ?_⟩
    simp only [parseChars, parseEscape, List.cons_append, simpleEscape_eq_some.mpr known]
    simpa using parsed
  | @unicode hex body s cp digits scalar _ ih =>
    obtain ⟨fuel, rfl⟩ := Nat.exists_eq_add_one_of_ne_zero (Nat.ne_zero_of_lt enough)
    simp only [List.length_cons, List.length_append] at enough
    have notHigh : ¬ (0xD800 ≤ cp ∧ cp ≤ 0xDBFF) := by
      unfold IsSurrogate at scalar
      omega
    have bounded := digits.lt
    obtain ⟨after, parsed⟩ := ih (value ++ encodeCodepoint cp) (pos + 6) fuel (by omega)
    refine ⟨after, ?_⟩
    have none : simpleEscape 117 = none := rfl
    simp only [parseChars, parseEscape, List.cons_append, none, List.append_assoc,
      parseUnicode_single digits notHigh]
    rw [encodeCodepoint_eq scalar (by omega)] at parsed ⊢
    simpa using parsed
  | @pair hex lowHex body s high low digits lowDigits isHigh isLow _ ih =>
    obtain ⟨fuel, rfl⟩ := Nat.exists_eq_add_one_of_ne_zero (Nat.ne_zero_of_lt enough)
    simp only [List.length_cons, List.length_append] at enough
    obtain ⟨after, parsed⟩ := ih (value ++ String.utf8EncodeChar
      (Char.ofNat (0x10000 + (high - 0xD800) * 0x400 + (low - 0xDC00)))) (pos + 12) fuel (by omega)
    refine ⟨after, ?_⟩
    have none : simpleEscape 117 = none := rfl
    simp only [parseChars, parseEscape, List.cons_append, none, List.append_assoc,
      parseUnicode_pair digits lowDigits isHigh isLow]
    generalize String.utf8EncodeChar (Char.ofNat _) = out at parsed ⊢
    simpa using parsed
  | @lone hex body s cp digits surrogate allowed _ ih =>
    obtain ⟨fuel, rfl⟩ := Nat.exists_eq_add_one_of_ne_zero (Nat.ne_zero_of_lt enough)
    simp only [List.length_cons, List.length_append] at enough
    have low : 0xDC00 ≤ cp := allowed
    obtain ⟨after, parsed⟩ := ih (value ++ encodeCodepoint cp) (pos + 6) fuel (by omega)
    refine ⟨after, ?_⟩
    have none : simpleEscape 117 = none := rfl
    simp only [parseChars, parseEscape, List.cons_append, none, List.append_assoc,
      parseUnicode_single digits (by omega)]
    simpa using parsed

theorem parseString_append {body s : Bytes} (chars : IsChars accepted body s) (rest : Bytes)
    (pos : Nat) : ∃ after, parseString ⟨34 :: (body ++ 34 :: rest), pos⟩ =
      .ok (s, ⟨rest, after⟩) := by
  obtain ⟨after, parsed⟩ := parseChars_append chars [] rest (pos + 1)
    ((body ++ 34 :: rest).length + 1) (by simp)
  exact ⟨after, by simp only [parseString, Cursor.expect_cons, parsed, List.nil_append]⟩

theorem parseUnicode_passes {value decoded : Bytes} {c after : Cursor}
    (parsed : parseUnicode value c = .ok (decoded, after)) :
    ∃ text out, c.Passes text after ∧ decoded = value ++ out ∧
      ∀ body s, IsChars accepted body s →
        IsChars accepted (92 :: 117 :: (text ++ body)) (out ++ s) := by
  unfold parseUnicode at parsed
  split at parsed
  · cases parsed
  · rename_i cp first read
    obtain ⟨hex, digits, one⟩ := readHex4_passes read
    split at parsed
    · rename_i isHigh
      split at parsed
      · cases parsed
      · rename_i marked
        split at parsed
        · cases parsed
        · rename_i low second readLow
          obtain ⟨lowHex, lowDigits, three⟩ := readHex4_passes readLow
          split at parsed
          · cases parsed
          · rename_i inRange
            cases parsed
            have isLow : 0xDC00 ≤ low ∧ low ≤ 0xDFFF := by omega
            have two : first.Passes (ascii "\\u") (first.advance 2) := by
              rw [not_not] at marked
              refine ⟨?_, rfl⟩
              rw [← marked]
              exact (List.take_append_drop 2 first.rest).symm
            refine ⟨hex ++ (ascii "\\u" ++ lowHex), _, one.trans (two.trans three), rfl, ?_⟩
            intro body s chars
            rw [pair_codepoint isHigh isLow]
            simpa [ascii] using IsChars.pair digits lowDigits isHigh isLow chars
    · rename_i notHigh
      cases parsed
      refine ⟨hex, _, one, rfl, ?_⟩
      intro body s chars
      have bounded := digits.lt
      by_cases surrogate : IsSurrogate cp
      · refine .lone digits surrogate ?_ chars
        show 0xDC00 ≤ cp
        unfold IsSurrogate at surrogate
        omega
      · rw [encodeCodepoint_eq surrogate (by omega)]
        exact .unicode digits surrogate chars

theorem parseEscape_passes {value decoded : Bytes} {c after : Cursor}
    (parsed : parseEscape value c = .ok (decoded, after)) :
    ∃ text out, text ≠ [] ∧ c.Passes text after ∧ decoded = value ++ out ∧
      ∀ body s, IsChars accepted body s → IsChars accepted (92 :: (text ++ body)) (out ++ s) := by
  obtain ⟨rest, pos⟩ := c
  cases rest with
  | nil => cases parsed
  | cons e rest =>
    have one : (⟨e :: rest, pos⟩ : Cursor).Passes [e] ⟨rest, pos + 1⟩ := ⟨rfl, rfl⟩
    simp only [parseEscape] at parsed
    split at parsed
    · rename_i byte known
      cases parsed
      exact ⟨[e], [byte], by simp, one, rfl, fun body s chars =>
        .letter (simpleEscape_eq_some.mp known) chars⟩
    · split at parsed
      · rename_i letter
        subst letter
        obtain ⟨text, out, passes, same, build⟩ := parseUnicode_passes parsed
        exact ⟨117 :: text, out, by simp, one.trans passes, same, build⟩
      · cases parsed

theorem parseChars_passes {fuel : Nat} {value decoded : Bytes} {c after : Cursor}
    (parsed : parseChars fuel value c = .ok (decoded, after)) :
    ∃ body s, c.Passes (body ++ [34]) after ∧ decoded = value ++ s ∧ IsChars accepted body s := by
  induction fuel generalizing value c with
  | zero => cases parsed
  | succ fuel ih =>
    obtain ⟨rest, pos⟩ := c
    cases rest with
    | nil => cases parsed
    | cons head rest =>
      have one : (⟨head :: rest, pos⟩ : Cursor).Passes [head] ⟨rest, pos + 1⟩ := ⟨rfl, rfl⟩
      simp only [parseChars] at parsed
      split at parsed
      · rename_i quote
        cases parsed
        subst quote
        exact ⟨[], [], one, (List.append_nil _).symm, .done⟩
      · rename_i quote
        split at parsed
        · rename_i backslash
          subst backslash
          split at parsed
          · cases parsed
          · rename_i behind escaped
            obtain ⟨text, out, _, two, rfl, build⟩ := parseEscape_passes escaped
            obtain ⟨body, s, three, rfl, chars⟩ := ih parsed
            refine ⟨92 :: (text ++ body), out ++ s, ?_, by simp, build body s chars⟩
            simpa using one.trans (two.trans three)
        · rename_i backslash
          split at parsed
          · cases parsed
          · rename_i visible
            obtain ⟨body, s, two, rfl, chars⟩ := ih parsed
            exact ⟨head :: body, head :: s, one.trans two, by simp,
              .raw (UInt8.not_lt.mp visible) quote backslash chars⟩

theorem parseString_passes {s : Bytes} {c after : Cursor}
    (parsed : parseString c = .ok (s, after)) :
    ∃ body, c.Passes (34 :: (body ++ [34])) after ∧ IsChars accepted body s := by
  unfold parseString at parsed
  split at parsed
  · cases parsed
  · rename_i behind quote
    obtain ⟨body, s, passes, rfl, chars⟩ := parseChars_passes parsed
    exact ⟨body, (Cursor.expect_some quote).trans passes, chars⟩

private theorem parseUnicode_ne_exhausted (value : Bytes) (c : Cursor) :
    parseUnicode value c ≠ .error .exhausted := by
  intro exhausted
  unfold parseUnicode Cursor.fail at exhausted
  repeat' split at exhausted
  all_goals cases exhausted

theorem parseEscape_ne_exhausted (value : Bytes) (c : Cursor) :
    parseEscape value c ≠ .error .exhausted := by
  obtain ⟨rest, pos⟩ := c
  cases rest with
  | nil => simp [parseEscape, Cursor.fail]
  | cons e rest =>
    simp only [parseEscape, Cursor.fail]
    split
    · simp
    · split
      · exact parseUnicode_ne_exhausted _ _
      · simp

theorem parseChars_ne_exhausted {fuel : Nat} {value : Bytes} {c : Cursor}
    (enough : c.rest.length < fuel) : parseChars fuel value c ≠ .error .exhausted := by
  induction fuel generalizing value c with
  | zero => cases enough
  | succ fuel ih =>
    obtain ⟨rest, pos⟩ := c
    cases rest with
    | nil => simp [parseChars, Cursor.fail]
    | cons head rest =>
      simp only [List.length_cons] at enough
      simp only [parseChars, Cursor.fail]
      split
      · simp
      · split
        · split
          · rename_i e escaped
            intro exhausted
            cases exhausted
            exact parseEscape_ne_exhausted _ _ escaped
          · rename_i behind escaped
            obtain ⟨text, _, nonempty, ⟨shape, _⟩, _⟩ := parseEscape_passes escaped
            apply ih
            have lengths := congrArg List.length shape
            have positive := List.length_pos_iff.mpr nonempty
            simp only [List.length_append] at lengths
            omega
        · split
          · simp
          · exact ih (Nat.lt_of_succ_lt_succ enough)

theorem parseString_ne_exhausted (c : Cursor) : parseString c ≠ .error .exhausted := by
  unfold parseString
  split
  · simp [Cursor.fail]
  · exact parseChars_ne_exhausted (Nat.lt_succ_self _)

end ShadowSe.Json
