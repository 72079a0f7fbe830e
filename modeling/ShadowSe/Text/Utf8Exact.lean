import ShadowSe.Text.TokenStable

namespace ShadowSe

/-- The last `count` bytes of an encoding: six payload bits each, high bits first. -/
def sextets : Nat → Nat → Bytes
  | 0, _ => []
  | count + 1, cp => UInt8.ofNat (0x80 ||| cp >>> (6 * count) &&& 0x3F) :: sextets count cp

set_option maxRecDepth 4000 in
private theorem marked_byte : ∀ c : UInt8, c &&& 0xC0 = 0x80 →
    c = UInt8.ofNat (0x80 ||| (c &&& 0x3F).toNat) ∧ (c &&& 0x3F).toNat < 0x40 := by
  apply forall_byte
  decide

set_option maxRecDepth 4000 in
private theorem lead_byte : ∀ c : UInt8,
    (c &&& 0xE0 = 0xC0 → c = UInt8.ofNat (0xC0 ||| (c &&& 0x1F).toNat) ∧
      (c &&& 0x1F).toNat < 0x20) ∧
    (c &&& 0xF0 = 0xE0 → c = UInt8.ofNat (0xE0 ||| (c &&& 0x0F).toNat) ∧
      (c &&& 0x0F).toNat < 0x10) ∧
    (c &&& 0xF8 = 0xF0 → c = UInt8.ofNat (0xF0 ||| (c &&& 0x07).toNat)) := by
  apply forall_byte
  decide

private theorem join_high (high low : Nat) (small : low < 0x40) :
    (high <<< 6 ||| low) >>> 6 = high ∧ (high <<< 6 ||| low) &&& 0x3F = low := by
  rw [← Nat.shiftLeft_add_eq_or_of_lt small, Nat.shiftLeft_eq, Nat.shiftRight_eq_div_pow,
    show (0x3F : Nat) = 2 ^ 6 - 1 from rfl, Nat.and_two_pow_sub_one_eq_mod]
  omega

/-- The continuation loop accepts exactly the sextets of the value it returns, below
the payload it started from. -/
theorem continuation_some {count payload cp : Nat} {rest : Bytes}
    (read : continuation count rest payload = some cp) :
    rest.take count = sextets count cp ∧ cp >>> (6 * count) = payload := by
  induction count generalizing rest payload with
  | zero =>
    simp only [continuation, Option.some.injEq] at read
    simp [sextets, read]
  | succ count ih =>
    cases rest with
    | nil => simp [continuation] at read
    | cons c rest =>
      simp only [continuation] at read
      split at read
      · rename_i marked
        obtain ⟨spelled, small⟩ := marked_byte c marked
        obtain ⟨tail, above⟩ := ih read
        obtain ⟨high, low⟩ := join_high payload _ small
        have upper : cp >>> (6 * (count + 1)) = (cp >>> (6 * count)) >>> 6 := by
          rw [Nat.mul_succ, Nat.shiftRight_add]
        constructor
        · rw [List.take_succ_cons, tail, sextets, above, low, ← spelled]
        · rw [upper, above, high]
      · cases read

private theorem encode_sextets (cp : Nat) :
    (cp < 0x80 → encodeCodepoint cp = [UInt8.ofNat cp]) ∧
    (0x80 ≤ cp → cp < 0x800 →
      encodeCodepoint cp = UInt8.ofNat (0xC0 ||| cp >>> 6) :: sextets 1 cp) ∧
    (0x800 ≤ cp → cp < 0x10000 →
      encodeCodepoint cp = UInt8.ofNat (0xE0 ||| cp >>> 12) :: sextets 2 cp) ∧
    (0x10000 ≤ cp →
      encodeCodepoint cp = UInt8.ofNat (0xF0 ||| cp >>> 18) :: sextets 3 cp) := by
  unfold encodeCodepoint
  refine ⟨fun one => if_pos one, fun low two => ?_, fun low three => ?_, fun low => ?_⟩
  · rw [if_neg (by omega), if_pos two]
    simp [sextets]
  · rw [if_neg (by omega), if_neg (by omega), if_pos three]
    simp [sextets]
  · rw [if_neg (by omega), if_neg (by omega), if_neg (by omega)]
    simp [sextets]

private theorem leadByte_some {c0 : UInt8} {nbytes payload : Nat}
    (lead : leadByte c0 = some (nbytes, payload)) :
    nbytes = 2 ∧ payload < 0x20 ∧ c0 = UInt8.ofNat (0xC0 ||| payload) ∨
      nbytes = 3 ∧ payload < 0x10 ∧ c0 = UInt8.ofNat (0xE0 ||| payload) ∨
      nbytes = 4 ∧ c0 = UInt8.ofNat (0xF0 ||| payload) := by
  obtain ⟨two, three, four⟩ := lead_byte c0
  unfold leadByte at lead
  split at lead
  · rename_i marked
    cases lead
    exact .inl ⟨rfl, (two marked).2, (two marked).1⟩
  · split at lead
    · rename_i marked
      cases lead
      exact .inr (.inl ⟨rfl, (three marked).2, (three marked).1⟩)
    · split at lead
      · rename_i marked
        cases lead
        exact .inr (.inr ⟨rfl, four marked⟩)
      · cases lead

private theorem accepted_sequence {c0 : UInt8} {rest : Bytes} {nbytes payload cp : Nat}
    (lead : leadByte c0 = some (nbytes, payload))
    (read : continuation (nbytes - 1) rest payload = some cp)
    (accepted : isRejected nbytes cp = false) :
    IsScalar cp ∧ (c0 :: rest).take nbytes = encodeCodepoint cp := by
  obtain ⟨-, two, three, four⟩ := encode_sextets cp
  obtain ⟨tail, above⟩ := continuation_some read
  simp only [isRejected, Bool.or_eq_false_iff, Bool.and_eq_false_iff, beq_eq_false_iff_ne,
    decide_eq_false_iff_not] at accepted
  have scalar : IsScalar cp := by
    unfold IsScalar
    omega
  refine ⟨scalar, ?_⟩
  rcases leadByte_some lead with ⟨rfl, small, spelled⟩ | ⟨rfl, small, spelled⟩ | ⟨rfl, spelled⟩
  · have upper : cp < 0x800 := by
      rw [← above, Nat.shiftRight_eq_div_pow] at small
      omega
    rw [two (by omega) upper, spelled, ← above]
    exact congrArg _ tail
  · have upper : cp < 0x10000 := by
      rw [← above, Nat.shiftRight_eq_div_pow] at small
      omega
    rw [three (by omega) upper, spelled, ← above]
    exact congrArg _ tail
  · rw [four (by omega), spelled, ← above]
    exact congrArg _ tail

/-- Decoding at the head either costs one byte as malformed, or reads the encoding of
a scalar value. -/
theorem decodeHead_cases {s : Bytes} (nonempty : s ≠ []) :
    decodeHead s = (invalidCodepoint, 1) ∨
      IsScalar (decodeHead s).1 ∧
        s.take (decodeHead s).2 = encodeCodepoint (decodeHead s).1 := by
  cases s with
  | nil => exact absurd rfl nonempty
  | cons c0 rest =>
    rw [decodeHead]
    split
    · rename_i single
      right
      have small : c0.toNat < 0x80 := UInt8.lt_iff_toNat_lt.mp single
      constructor
      · unfold IsScalar
        omega
      · rw [(encode_sextets c0.toNat).1 small, UInt8.ofNat_toNat]
        rfl
    · split
      · exact .inl rfl
      · rename_i nbytes payload lead
        split
        · exact .inl rfl
        · split
          · exact .inl rfl
          · rename_i cp read
            split
            · exact .inl rfl
            · rename_i accepted
              exact .inr (accepted_sequence lead read (by simpa using accepted))

/-- Bytes that spell a scalar value decode to it, and it takes all of them. -/
theorem decodeHead_of_take {s : Bytes} {cp n : Nat} (scalar : IsScalar cp)
    (within : n ≤ s.length) (spelled : s.take n = encodeCodepoint cp) :
    decodeHead s = (cp, n) := by
  have size : (encodeCodepoint cp).length = n := by
    rw [← spelled, List.length_take, Nat.min_eq_left within]
  rw [← List.take_append_drop n s, spelled, decodeHead_encodeCodepoint scalar, size]

theorem IsScalar.ne_invalid {cp : Nat} (scalar : IsScalar cp) : cp ≠ invalidCodepoint := by
  unfold IsScalar at scalar
  unfold invalidCodepoint
  omega

/-- The `n` bytes at `offset` are inside the text and are what `appendCodepoint` writes
for the scalar value `cp`, which is its shortest form. -/
def Spells (text : Bytes) (offset cp n : Nat) : Prop :=
  IsScalar cp ∧ offset + n ≤ text.length ∧ text.substr offset (some n) = appendCodepoint [] cp

/-- Decoding is exact: at an offset inside the text, the decoder returns a code point
and advances by `n` exactly when the `n` bytes there spell it. Otherwise it reports
malformed input and advances by one byte. It never advances past the end. -/
theorem decodeUtf8_exact (text : Bytes) (offset : Nat) (inside : offset < text.length) :
    (∀ cp n : Nat, (decodeUtf8 text offset = (cp, offset + n) ∧ cp ≠ invalidCodepoint) ↔
      Spells text offset cp n) ∧
    ((¬ ∃ cp n : Nat, Spells text offset cp n) →
      decodeUtf8 text offset = (invalidCodepoint, offset + 1)) ∧
    (decodeUtf8 text offset).2 ≤ text.length := by
  have nonempty : text.drop offset ≠ [] := by
    simpa [List.drop_eq_nil_iff] using inside
  have size : (text.drop offset).length = text.length - offset := List.length_drop
  have advance := decodeHead_advance nonempty
  simp only [decodeUtf8_eq_decodeHead, Spells, Bytes.substr, appendCodepoint, List.nil_append]
  refine ⟨fun cp n => ⟨?_, ?_⟩, ?_, by omega⟩
  · rintro ⟨returned, valid⟩
    obtain ⟨same, reach⟩ := Prod.mk.injEq .. ▸ returned
    have length : (decodeHead (text.drop offset)).2 = n := Nat.add_left_cancel reach
    rcases decodeHead_cases nonempty with malformed | ⟨scalar, spelled⟩
    · exact absurd (same.symm.trans (congrArg Prod.fst malformed)) valid
    · rw [same] at scalar
      rw [same, length] at spelled
      exact ⟨scalar, by omega, spelled⟩
  · rintro ⟨scalar, within, spelled⟩
    rw [decodeHead_of_take scalar (by omega) spelled]
    exact ⟨rfl, scalar.ne_invalid⟩
  · intro unspelled
    rcases decodeHead_cases nonempty with malformed | ⟨scalar, spelled⟩
    · rw [malformed]
    · exact absurd ⟨_, _, scalar, by omega, spelled⟩ unspelled

theorem decodeUtf8_exact_latin :
    decodeUtf8 [0x41, 0xC3, 0xA9] 1 = (0xE9, 3) ∧ 0xE9 ≠ invalidCodepoint :=
  ((decodeUtf8_exact [0x41, 0xC3, 0xA9] 1 (by decide)).1 0xE9 2).mpr
    ⟨.inl (by decide), by decide, by decide⟩

set_option maxRecDepth 4000 in
private theorem ascii_unmarked : ∀ s : UInt8, s < 0x80 → s &&& 0xC0 ≠ 0x80 := by
  apply forall_byte
  decide

/-- No sequence reaches over an ASCII byte: where it would, the text before that byte
already ends too early. -/
theorem continuation_append_ascii {s : UInt8} (single : s < 0x80) (count : Nat)
    (rest b : Bytes) (cp : Nat) :
    continuation count (rest ++ s :: b) cp = continuation count rest cp := by
  have unmarked := ascii_unmarked s single
  induction rest generalizing count cp with
  | nil =>
    cases count with
    | zero => rfl
    | succ count => simp [continuation, unmarked]
  | cons c rest ih =>
    cases count with
    | zero => rfl
    | succ count => simp only [List.cons_append, continuation, ih]

theorem continuation_short {count : Nat} {rest : Bytes} (short : rest.length < count) (cp : Nat) :
    continuation count rest cp = none := by
  induction rest generalizing count cp with
  | nil =>
    cases count with
    | zero => simp at short
    | succ count => rfl
  | cons c rest ih =>
    cases count with
    | zero => simp at short
    | succ count =>
      simp only [continuation]
      split
      · exact ih (by simpa using short) _
      · rfl

/-- Decoding before an ASCII byte does not depend on it or on what follows. -/
theorem decodeHead_append_ascii {s : UInt8} (single : s < 0x80) {a : Bytes} (nonempty : a ≠ [])
    (b : Bytes) : decodeHead (a ++ s :: b) = decodeHead a := by
  cases a with
  | nil => exact absurd rfl nonempty
  | cons c0 rest =>
    simp only [List.cons_append, decodeHead]
    split
    · rfl
    · cases leadByte c0 with
      | none => rfl
      | some lead =>
        obtain ⟨nbytes, payload⟩ := lead
        dsimp only
        rw [continuation_append_ascii single]
        by_cases short : nbytes > rest.length + 1
        · rw [if_pos short, continuation_short (by omega)]
          simp
        · rw [if_neg short, if_neg (by simp only [List.length_append, List.length_cons]; omega)]

/-- An ASCII byte is a code point of its own in any text. -/
theorem codepoints_append_ascii {s : UInt8} (single : s < 0x80) (a b : Bytes) :
    codepoints (a ++ s :: b) = codepoints a ++ s.toNat :: codepoints b := by
  have head : decodeHead (s :: b) = (s.toNat, 1) := by simp [decodeHead, single]
  induction size : a.length using Nat.strongRecOn generalizing a with
  | _ size ih =>
    cases a with
    | nil =>
      rw [List.nil_append, codepoints_cons _ (by simp), head]
      rfl
    | cons c0 rest =>
      have nonempty : c0 :: rest ≠ [] := by simp
      have advance := decodeHead_advance nonempty
      rw [codepoints_cons _ (by simp), decodeHead_append_ascii single nonempty,
        codepoints_cons _ nonempty, List.drop_append_of_le_length advance.2, List.cons_append]
      congr 1
      exact ih _ (by simp only [List.length_drop]; omega) _ rfl

theorem flush_append (tokens : List Bytes) (current : Bytes) :
    flush tokens current = tokens ++ flush [] current := by
  unfold flush
  split
  · simp
  · simp

theorem splitTokens_append_tokens (cps : List Nat) (tokens : List Bytes) (current : Bytes) :
    splitTokens cps tokens current = tokens ++ splitTokens cps [] current := by
  induction cps generalizing tokens current with
  | nil => exact flush_append tokens current
  | cons cp rest ih =>
    simp only [splitTokens]
    split
    · exact ih tokens _
    · rw [ih, ih (flush [] current), flush_append, List.append_assoc]

theorem splitTokens_append_separator {separator : Nat}
    (splits : isTokenCharacter separator = false) (cps rest : List Nat) (tokens : List Bytes)
    (current : Bytes) :
    splitTokens (cps ++ separator :: rest) tokens current =
      splitTokens cps tokens current ++ splitTokens rest [] [] := by
  induction cps generalizing tokens current with
  | nil =>
    simp only [List.nil_append, splitTokens, splits]
    exact splitTokens_append_tokens rest _ []
  | cons cp cps ih =>
    simp only [List.cons_append, splitTokens]
    split
    · exact ih _ _
    · exact ih _ _

theorem isTokenCharacter_ascii {s : UInt8} (single : s < 0x80) :
    isTokenCharacter s.toNat = isalnum s := by
  have small : s.toNat < 0x80 := UInt8.lt_iff_toNat_lt.mp single
  rw [Bool.eq_iff_iff, isTokenCharacter_iff]
  simp only [isalnum, Bool.or_eq_true, Bool.and_eq_true, decide_eq_true_eq,
    UInt8.le_iff_toNat_le, UInt8.reduceToNat]
  omega

theorem tokenize_cut {s : UInt8} (single : s < 0x80) (separator : isalnum s = false)
    (a b : Bytes) : tokenize (a ++ s :: b) = tokenize a ++ tokenize b := by
  have splits : isTokenCharacter s.toNat = false := by
    rw [isTokenCharacter_ascii single, separator]
  rw [tokenize_eq_splitTokens, codepoints_append_ascii single, splitTokens_append_separator splits,
    ← tokenize_eq_splitTokens, ← tokenize_eq_splitTokens]

/-- Tokenization splits at separators: around an ASCII byte that is no letter or digit
the two sides tokenize on their own, whatever bytes they hold. -/
theorem tokenize_append_separator (a b : Bytes) (s : UInt8) (single : s < 0x80)
    (separator : isalnum s = false) :
    tokenize (a ++ [s] ++ b) = tokenize a ++ tokenize b := by
  rw [List.append_assoc, List.singleton_append]
  exact tokenize_cut single separator a b

theorem tokenize_append_separator_cut :
    tokenize ([0x61, 0xE4] ++ [0x2D] ++ [0xB8, 0x62]) =
      tokenize [0x61, 0xE4] ++ tokenize [0xB8, 0x62] :=
  tokenize_append_separator [0x61, 0xE4] [0xB8, 0x62] 0x2D (by decide) (by decide)

end ShadowSe
