import ShadowSe.Text.Tokenizer

namespace ShadowSe

/-- Decoding at the head of a suffix: the code point and how far it reaches. -/
def decodeHead : Bytes → Nat × Nat
  | [] => (invalidCodepoint, 0)
  | c0 :: rest =>
    if c0 < 0x80 then (c0.toNat, 1)
    else match leadByte c0 with
      | none => (invalidCodepoint, 1)
      | some (nbytes, payload) =>
        if nbytes > rest.length + 1 then (invalidCodepoint, 1)
        else match continuation (nbytes - 1) rest payload with
          | none => (invalidCodepoint, 1)
          | some cp => if isRejected nbytes cp then (invalidCodepoint, 1) else (cp, nbytes)

theorem decodeUtf8_eq_decodeHead (text : Bytes) (offset : Nat) :
    decodeUtf8 text offset =
      ((decodeHead (text.drop offset)).1, offset + (decodeHead (text.drop offset)).2) := by
  unfold decodeUtf8
  cases left : text.drop offset with
  | nil => rfl
  | cons c0 rest =>
    have size : text.length = offset + (rest.length + 1) := by
      have measured := congrArg List.length left
      simp only [List.length_drop, List.length_cons] at measured
      omega
    have bound (nbytes : Nat) : offset + nbytes > text.length ↔ nbytes > rest.length + 1 := by
      omega
    simp only [decodeHead, bound]
    split
    · rfl
    · cases leadByte c0 with
      | none => rfl
      | some lead =>
        obtain ⟨nbytes, payload⟩ := lead
        dsimp only
        split
        · rfl
        · cases continuation (nbytes - 1) rest payload with
          | none => rfl
          | some cp => dsimp only; split <;> rfl

theorem leadByte_length {c0 : UInt8} {nbytes payload : Nat}
    (lead : leadByte c0 = some (nbytes, payload)) : 0 < nbytes := by
  unfold leadByte at lead
  split at lead
  · cases lead; decide
  · split at lead
    · cases lead; decide
    · split at lead
      · cases lead; decide
      · cases lead

/-- Decoding a nonempty suffix always advances, and stays inside it. -/
theorem decodeHead_advance {s : Bytes} (nonempty : s ≠ []) :
    0 < (decodeHead s).2 ∧ (decodeHead s).2 ≤ s.length := by
  cases s with
  | nil => exact absurd rfl nonempty
  | cons c0 rest =>
    simp only [decodeHead, List.length_cons]
    split
    · simp
    · split
      · simp
      · rename_i nbytes payload lead
        have positive := leadByte_length lead
        split
        · simp
        · split
          · simp
          · split <;> simp only <;> omega

/-- All code points of a text in order; malformed bytes give `invalidCodepoint`. -/
def codepointsLoop : Nat → Bytes → List Nat
  | 0, _ => []
  | _ + 1, [] => []
  | fuel + 1, c :: rest =>
    (decodeHead (c :: rest)).1 ::
      codepointsLoop fuel ((c :: rest).drop (decodeHead (c :: rest)).2)

def codepoints (s : Bytes) : List Nat :=
  codepointsLoop s.length s

theorem codepointsLoop_fuel {fuel : Nat} {s : Bytes} (enough : s.length ≤ fuel) :
    codepointsLoop fuel s = codepoints s := by
  have agree : ∀ (first second : Nat) (s : Bytes), s.length ≤ first → s.length ≤ second →
      codepointsLoop first s = codepointsLoop second s := by
    intro first
    induction first with
    | zero =>
      intro second s short _
      have empty : s = [] := List.length_eq_zero_iff.mp (by omega)
      subst s
      cases second <;> rfl
    | succ first ih =>
      intro second s short short'
      cases s with
      | nil => cases second <;> rfl
      | cons c rest =>
        cases second with
        | zero => simp at short'
        | succ second =>
          have advance := decodeHead_advance (s := c :: rest) (by simp)
          simp only [codepointsLoop]
          rw [ih second _ (by simp only [List.length_drop, List.length_cons] at *; omega)
            (by simp only [List.length_drop, List.length_cons] at *; omega)]
  exact agree fuel s.length s enough (Nat.le_refl _)

theorem codepoints_cons (s : Bytes) (nonempty : s ≠ []) :
    codepoints s = (decodeHead s).1 :: codepoints (s.drop (decodeHead s).2) := by
  cases s with
  | nil => exact absurd rfl nonempty
  | cons c rest =>
    have advance := decodeHead_advance (s := c :: rest) (by simp)
    rw [codepoints, List.length_cons, codepointsLoop, codepointsLoop_fuel]
    simp only [List.length_drop, List.length_cons] at *
    omega

/-- Cut a code point list into tokens, as the tokenizer's loop does. -/
def splitTokens : List Nat → List Bytes → Bytes → List Bytes
  | [], tokens, current => flush tokens current
  | cp :: rest, tokens, current =>
    if isTokenCharacter cp then splitTokens rest tokens (appendCodepoint current (foldCase cp))
    else splitTokens rest (flush tokens current) []

theorem tokenizeLoop_eq_splitTokens (text : Bytes) (fuel offset : Nat) (tokens : List Bytes)
    (current : Bytes) (enough : text.length ≤ offset + fuel) :
    tokenizeLoop text fuel offset tokens current =
      splitTokens (codepoints (text.drop offset)) tokens current := by
  induction fuel generalizing offset tokens current with
  | zero =>
    have empty : text.drop offset = [] := List.drop_eq_nil_iff.mpr (by omega)
    simp [tokenizeLoop, empty, codepoints, codepointsLoop, splitTokens]
  | succ fuel ih =>
    by_cases inside : offset < text.length
    · have nonempty : text.drop offset ≠ [] := by
        simpa [List.drop_eq_nil_iff] using inside
      have advance := decodeHead_advance nonempty
      rw [codepoints_cons _ nonempty, tokenizeLoop, if_pos inside, decodeUtf8_eq_decodeHead]
      simp only [splitTokens, List.drop_drop]
      split
      · exact ih _ _ _ (by omega)
      · exact ih _ _ _ (by omega)
    · have empty : text.drop offset = [] := List.drop_eq_nil_iff.mpr (by omega)
      simp [tokenizeLoop, inside, empty, codepoints, codepointsLoop, splitTokens]

/-- The tokenizer cuts the decoded code points. -/
theorem tokenize_eq_splitTokens (text : Bytes) :
    tokenize text = splitTokens (codepoints text) [] [] := by
  simpa [tokenize] using tokenizeLoop_eq_splitTokens text text.length 0 [] [] (by simp)

/-- Unicode scalar values: code points that are no surrogate halves. -/
def IsScalar (cp : Nat) : Prop :=
  cp < 0xD800 ∨ 0xE000 ≤ cp ∧ cp ≤ 0x10FFFF

private theorem join_sextet (value : Nat) :
    (value >>> 6) <<< 6 ||| (value &&& 0x3F) = value := by
  have low : value &&& 0x3F = value % 2 ^ 6 := Nat.and_two_pow_sub_one_eq_mod value 6
  rw [low, ← Nat.shiftLeft_add_eq_or_of_lt (Nat.mod_lt _ (by decide)), Nat.shiftLeft_eq,
    Nat.shiftRight_eq_div_pow]
  omega

private theorem lead_two : ∀ high < 0x20, leadByte (UInt8.ofNat (0xC0 ||| high)) = some (2, high) ∧
    ¬ UInt8.ofNat (0xC0 ||| high) < 0x80 := by decide

private theorem lead_three : ∀ high < 0x10,
    leadByte (UInt8.ofNat (0xE0 ||| high)) = some (3, high) ∧
      ¬ UInt8.ofNat (0xE0 ||| high) < 0x80 := by decide

private theorem lead_four : ∀ high < 0x08, leadByte (UInt8.ofNat (0xF0 ||| high)) = some (4, high) ∧
    ¬ UInt8.ofNat (0xF0 ||| high) < 0x80 := by decide

private theorem tail_byte : ∀ low < 0x40, UInt8.ofNat (0x80 ||| low) &&& 0xC0 = 0x80 ∧
    (UInt8.ofNat (0x80 ||| low) &&& 0x3F).toNat = low := by decide

private theorem continuation_step (count value cp : Nat) (rest : Bytes) :
    continuation (count + 1) (UInt8.ofNat (0x80 ||| value &&& 0x3F) :: rest) cp =
      continuation count rest (cp <<< 6 ||| (value &&& 0x3F)) := by
  have small : value &&& 0x3F < 0x40 := Nat.and_lt_two_pow value (n := 6) (by decide)
  obtain ⟨marked, payload⟩ := tail_byte _ small
  simp only [continuation, marked, ↓reduceIte, payload]

/-- Reading back what `appendCodepoint` wrote gives the code point and its length. -/
theorem decodeHead_encodeCodepoint {cp : Nat} (scalar : IsScalar cp) (rest : Bytes) :
    decodeHead (encodeCodepoint cp ++ rest) = (cp, (encodeCodepoint cp).length) := by
  have lower (shift : Nat) : (cp >>> shift) >>> 6 = cp >>> (shift + 6) :=
    (Nat.shiftRight_add cp shift 6).symm
  unfold encodeCodepoint
  split
  · rename_i one
    have byte : (UInt8.ofNat cp).toNat = cp := Nat.mod_eq_of_lt (by omega)
    have single : UInt8.ofNat cp < 0x80 := UInt8.lt_iff_toNat_lt.mpr (by rw [byte]; exact one)
    simp [decodeHead, single, byte]
  · split
    · rename_i two
      have high : cp >>> 6 < 0x20 := by rw [Nat.shiftRight_eq_div_pow]; omega
      obtain ⟨lead, multi⟩ := lead_two _ high
      simp only [List.cons_append, List.nil_append, decodeHead, multi, ↓reduceIte, lead,
        List.length_cons, List.length_nil, Nat.reduceSub, continuation_step]
      simp only [continuation, join_sextet]
      have accepted : isRejected 2 cp = false := by
        simp only [isRejected]; unfold IsScalar at scalar; simp; omega
      simp [accepted]
    · split
      · rename_i three
        have high : cp >>> 12 < 0x10 := by rw [Nat.shiftRight_eq_div_pow]; omega
        obtain ⟨lead, multi⟩ := lead_three _ high
        simp only [List.cons_append, List.nil_append, decodeHead, multi, ↓reduceIte, lead,
          List.length_cons, List.length_nil, Nat.reduceSub, continuation_step]
        simp only [continuation, ← lower 6, join_sextet]
        have accepted : isRejected 3 cp = false := by
          simp only [isRejected]; unfold IsScalar at scalar; simp; omega
        simp [accepted]
      · rename_i four
        have high : cp >>> 18 < 0x08 := by
          unfold IsScalar at scalar; rw [Nat.shiftRight_eq_div_pow]; omega
        obtain ⟨lead, multi⟩ := lead_four _ high
        simp only [List.cons_append, List.nil_append, decodeHead, multi, ↓reduceIte, lead,
          List.length_cons, List.length_nil, Nat.reduceSub, continuation_step]
        simp only [continuation, ← lower 12, ← lower 6, join_sextet]
        have accepted : isRejected 4 cp = false := by
          simp only [isRejected]; unfold IsScalar at scalar; simp; omega
        simp [accepted]

theorem encodeCodepoint_ne_nil (cp : Nat) : encodeCodepoint cp ≠ [] := by
  unfold encodeCodepoint
  split
  · simp
  · split
    · simp
    · split <;> simp

/-- Decoding a text of encoded scalars returns them. -/
theorem codepoints_flatMap_encode {cps : List Nat} (scalars : ∀ cp ∈ cps, IsScalar cp) :
    codepoints (cps.flatMap encodeCodepoint) = cps := by
  induction cps with
  | nil => rfl
  | cons cp rest ih =>
    have nonempty : encodeCodepoint cp ++ rest.flatMap encodeCodepoint ≠ [] := by
      simp [encodeCodepoint_ne_nil]
    rw [List.flatMap_cons, codepoints_cons _ nonempty,
      decodeHead_encodeCodepoint (scalars cp (by simp)), List.drop_left,
      ih fun other member => scalars other (by simp [member])]

theorem isScalar_of_isTokenCharacter {cp : Nat} (char : isTokenCharacter cp = true) :
    IsScalar cp := by
  unfold isTokenCharacter invalidCodepoint at char
  unfold IsScalar
  simp only [Bool.or_eq_true, Bool.and_eq_true, decide_eq_true_eq, bne_iff_ne, ne_eq] at char
  split_ifs at char <;> omega

/-- The capitals that fold by adding `0x20`. -/
def IsCapital (cp : Nat) : Prop :=
  0x41 ≤ cp ∧ cp ≤ 0x5A ∨ 0xC0 ≤ cp ∧ cp ≤ 0xDE ∧ cp ≠ 0xD7 ∨
    0x391 ≤ cp ∧ cp ≤ 0x3A9 ∧ cp ≠ 0x3A2 ∨ 0x410 ≤ cp ∧ cp ≤ 0x42F

/-- The even members of the Latin Extended pairs, which fold to their odd neighbour. -/
def IsPairCapital (cp : Nat) : Prop :=
  0x100 ≤ cp ∧ cp ≤ 0x24F ∧ cp % 2 = 0 ∧ ¬ (0x1C4 ≤ cp ∧ cp ≤ 0x1CC)

/-- What `foldCase` does, by class of code point. -/
theorem foldCase_cases (cp : Nat) :
    IsCapital cp ∧ foldCase cp = cp + 0x20 ∨ IsPairCapital cp ∧ foldCase cp = cp + 1 ∨
      ¬ IsCapital cp ∧ ¬ IsPairCapital cp ∧ foldCase cp = cp := by
  simp only [foldCase, IsCapital, IsPairCapital, Bool.and_eq_true, decide_eq_true_eq,
    bne_iff_ne, ne_eq, beq_iff_eq, Nat.and_one_is_mod]
  split_ifs <;> omega

theorem foldCase_eq_self {cp : Nat} (single : ¬ IsCapital cp) (paired : ¬ IsPairCapital cp) :
    foldCase cp = cp := by
  rcases foldCase_cases cp with ⟨capital, _⟩ | ⟨capital, _⟩ | ⟨_, _, same⟩
  · exact absurd capital single
  · exact absurd capital paired
  · exact same

theorem foldCase_idempotent (cp : Nat) : foldCase (foldCase cp) = foldCase cp := by
  rcases foldCase_cases cp with ⟨capital, folded⟩ | ⟨capital, folded⟩ | ⟨_, _, same⟩
  · rw [folded]
    unfold IsCapital at capital
    apply foldCase_eq_self
    · unfold IsCapital
      omega
    · unfold IsPairCapital
      omega
  · rw [folded]
    unfold IsPairCapital at capital
    apply foldCase_eq_self
    · unfold IsCapital
      omega
    · unfold IsPairCapital
      omega
  · rw [same, same]

theorem isTokenCharacter_iff (cp : Nat) : isTokenCharacter cp = true ↔
    0x61 ≤ cp ∧ cp ≤ 0x7A ∨ 0x41 ≤ cp ∧ cp ≤ 0x5A ∨ 0x30 ≤ cp ∧ cp ≤ 0x39 ∨
      0xC0 ≤ cp ∧ cp ≤ 0x2FF ∧ cp ≠ 0xD7 ∧ cp ≠ 0xF7 ∨ 0x370 ≤ cp ∧ cp ≤ 0x4FF ∨
      0x1F00 ≤ cp ∧ cp ≤ 0x1FFF ∨ 0x590 ≤ cp ∧ cp ≤ 0x6FF ∨ 0x900 ≤ cp ∧ cp ≤ 0xDFF ∨
      0x3040 ≤ cp ∧ cp ≤ 0x30FF ∨ 0x3400 ≤ cp ∧ cp ≤ 0x4DBF ∨ 0x4E00 ≤ cp ∧ cp ≤ 0x9FFF ∨
      0xAC00 ≤ cp ∧ cp ≤ 0xD7AF := by
  simp only [isTokenCharacter, invalidCodepoint, Bool.or_eq_true, Bool.and_eq_true,
    decide_eq_true_eq, bne_iff_ne, ne_eq]
  split_ifs <;> simp only [false_iff, true_iff, Bool.or_eq_true,
    Bool.and_eq_true, decide_eq_true_eq] <;> omega

theorem isTokenCharacter_foldCase {cp : Nat} (char : isTokenCharacter cp = true) :
    isTokenCharacter (foldCase cp) = true := by
  rcases foldCase_cases cp with ⟨capital, folded⟩ | ⟨capital, folded⟩ | ⟨_, _, same⟩
  · rw [folded, isTokenCharacter_iff]
    rcases capital with basic | latin | greek | cyrillic
    · exact .inl (by omega)
    · exact .inr (.inr (.inr (.inl (by omega))))
    · exact .inr (.inr (.inr (.inr (.inl (by omega)))))
    · exact .inr (.inr (.inr (.inr (.inl (by omega)))))
  · rw [folded, isTokenCharacter_iff]
    unfold IsPairCapital at capital
    exact .inr (.inr (.inr (.inl (by omega))))
  · rw [same]
    exact char

/-- Token characters after folding: what the bytes of a token spell. -/
def IsFolded (cp : Nat) : Prop :=
  isTokenCharacter cp = true ∧ foldCase cp = cp

theorem isFolded_foldCase {cp : Nat} (char : isTokenCharacter cp = true) :
    IsFolded (foldCase cp) :=
  ⟨isTokenCharacter_foldCase char, foldCase_idempotent cp⟩

/-- The texts the tokenizer produces: nonempty runs of folded token characters. -/
def IsToken (token : Bytes) : Prop :=
  ∃ cps : List Nat, cps ≠ [] ∧ (∀ cp ∈ cps, IsFolded cp) ∧ token = cps.flatMap encodeCodepoint

/-- A token under construction, possibly still empty. -/
private def IsPartial (current : Bytes) : Prop :=
  ∃ cps : List Nat, (∀ cp ∈ cps, IsFolded cp) ∧ current = cps.flatMap encodeCodepoint

private theorem mem_flush {tokens : List Bytes} {current token : Bytes}
    (spelled : IsPartial current) (known : ∀ t ∈ tokens, IsToken t)
    (member : token ∈ flush tokens current) : IsToken token := by
  unfold flush at member
  split at member
  · exact known token member
  · rename_i nonempty
    rcases List.mem_append.mp member with old | new
    · exact known token old
    · obtain ⟨cps, folded, same⟩ := spelled
      cases List.mem_singleton.mp new
      refine ⟨cps, ?_, folded, same⟩
      intro empty
      simp [same, empty] at nonempty

private theorem mem_splitTokens {cps : List Nat} {tokens : List Bytes} {current token : Bytes}
    (spelled : IsPartial current) (known : ∀ t ∈ tokens, IsToken t)
    (member : token ∈ splitTokens cps tokens current) : IsToken token := by
  induction cps generalizing tokens current with
  | nil => exact mem_flush spelled known member
  | cons cp rest ih =>
    simp only [splitTokens] at member
    split at member
    · rename_i char
      refine ih ?_ known member
      obtain ⟨cps, folded, same⟩ := spelled
      refine ⟨cps ++ [foldCase cp], ?_, by simp [appendCodepoint, same]⟩
      intro other present
      rcases List.mem_append.mp present with old | new
      · exact folded other old
      · cases List.mem_singleton.mp new
        exact isFolded_foldCase char
    · exact ih ⟨[], by simp, rfl⟩ (fun t present => mem_flush spelled known present) member

/-- Every token of any text is a nonempty run of folded token characters. -/
theorem isToken_of_mem_tokenize {text token : Bytes} (member : token ∈ tokenize text) :
    IsToken token := by
  rw [tokenize_eq_splitTokens] at member
  exact mem_splitTokens ⟨[], by simp, rfl⟩ (by simp) member

private theorem splitTokens_folded {cps : List Nat} (folded : ∀ cp ∈ cps, IsFolded cp)
    (current : Bytes) :
    splitTokens cps [] current = flush [] (current ++ cps.flatMap encodeCodepoint) := by
  induction cps generalizing current with
  | nil => simp [splitTokens]
  | cons cp rest ih =>
    obtain ⟨char, fixed⟩ := folded cp (by simp)
    rw [splitTokens, if_pos char, fixed, ih fun other member => folded other (by simp [member])]
    simp [appendCodepoint]

/-- A token used as a text is its own only token. -/
theorem IsToken.tokenize_eq {token : Bytes} (valid : IsToken token) :
    tokenize token = [token] := by
  obtain ⟨cps, nonempty, folded, rfl⟩ := valid
  have scalars : ∀ cp ∈ cps, IsScalar cp :=
    fun cp member => isScalar_of_isTokenCharacter (folded cp member).1
  rw [tokenize_eq_splitTokens, codepoints_flatMap_encode scalars, splitTokens_folded folded]
  cases cps with
  | nil => exact absurd rfl nonempty
  | cons cp rest => simp [flush, encodeCodepoint_ne_nil]

/-- Every token of any text is nonempty, is the UTF-8 of token characters, and is its own
only token: what was indexed is found again when it is queried. -/
theorem mem_tokenize_stable (text token : Bytes) (member : token ∈ tokenize text) :
    token ≠ [] ∧
      (∃ cps : List Nat, token = cps.flatMap encodeCodepoint ∧
        ∀ cp ∈ cps, IsScalar cp ∧ isTokenCharacter cp = true) ∧
      tokenize token = [token] := by
  have valid := isToken_of_mem_tokenize member
  obtain ⟨cps, nonempty, folded, spelled⟩ := id valid
  refine ⟨?_, ⟨cps, spelled, ?_⟩, valid.tokenize_eq⟩
  · rw [spelled]
    cases cps with
    | nil => exact absurd rfl nonempty
    | cons cp rest => simp [encodeCodepoint_ne_nil]
  · intro cp present
    have char := (folded cp present).1
    exact ⟨isScalar_of_isTokenCharacter char, char⟩

theorem mem_tokenize_stable_latin :
    [0xC3, 0xA9] ∈ tokenize [0x2D, 0xC3, 0x89] ∧ tokenize [0xC3, 0xA9] = [[0xC3, 0xA9]] :=
  ⟨by decide, (mem_tokenize_stable [0x2D, 0xC3, 0x89] [0xC3, 0xA9] (by decide)).2.2⟩

end ShadowSe
