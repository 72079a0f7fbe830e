import Mathlib.Data.List.Forall2
import ShadowSe.Text.TokenStable

namespace ShadowSe

/-- The Unicode simple lower case of the letters from U+0041 to U+017F. -/
def simpleLower (cp : Nat) : Nat :=
  if 0x41 ≤ cp ∧ cp ≤ 0x5A then cp + 0x20
  else if 0xC0 ≤ cp ∧ cp ≤ 0xDE ∧ cp ≠ 0xD7 then cp + 0x20
  else if cp = 0x130 then 0x69
  else if cp = 0x178 then 0xFF
  else if (0x100 ≤ cp ∧ cp ≤ 0x137 ∨ 0x14A ≤ cp ∧ cp ≤ 0x177) ∧ cp % 2 = 0 then cp + 1
  else if (0x139 ≤ cp ∧ cp ≤ 0x148 ∨ 0x179 ≤ cp ∧ cp ≤ 0x17E) ∧ cp % 2 = 1 then cp + 1
  else cp

/-- The letters of these blocks that make up tokens. -/
def IsLatinLetter (cp : Nat) : Prop :=
  0x41 ≤ cp ∧ cp ≤ 0x17F ∧ isTokenCharacter cp = true

/-- The capitals that the tokenizer does not bring together with their small letter. -/
def IsMisfolded (cp : Nat) : Prop :=
  cp = 0x130 ∨ cp = 0x178 ∨
    (0x139 ≤ cp ∧ cp ≤ 0x148 ∨ 0x179 ≤ cp ∧ cp ≤ 0x17E) ∧ cp % 2 = 1

/-- Neighbours that are different letters, and that the tokenizer takes for one. -/
def IsMerged (c d : Nat) : Prop :=
  d = c + 1 ∧ c % 2 = 0 ∧
    (c = 0x130 ∨ 0x138 ≤ c ∧ c ≤ 0x148 ∨ 0x178 ≤ c ∧ c ≤ 0x17E)

/-- The pairs of letters with one folded form: a capital and its small letter unless the
capital is misfolded, and the merged neighbours. -/
def FoldAlike (c d : Nat) : Prop :=
  c = d ∨ (¬ IsMisfolded c ∧ d = simpleLower c) ∨ (¬ IsMisfolded d ∧ c = simpleLower d) ∨
    IsMerged c d ∨ IsMerged d c

/-- Some of the capitals of the first text are small letters in the second. -/
def LowersSome (cps lowered : List Nat) : Prop :=
  List.Forall₂ (fun c d => d = c ∨ d = simpleLower c) cps lowered

instance (cp : Nat) : Decidable (IsMisfolded cp) :=
  inferInstanceAs (Decidable (_ ∨ _))

instance (c d : Nat) : Decidable (IsMerged c d) :=
  inferInstanceAs (Decidable (_ ∧ _))

instance (c d : Nat) : Decidable (FoldAlike c d) :=
  inferInstanceAs (Decidable (_ ∨ _))

/-- The letters whose small letter is `0x20` further on. -/
def IsWideCapital (cp : Nat) : Prop :=
  0x41 ≤ cp ∧ cp ≤ 0x5A ∨ 0xC0 ≤ cp ∧ cp ≤ 0xDE ∧ cp ≠ 0xD7

theorem foldCase_latin {cp : Nat} (within : cp ≤ 0x17F) :
    IsWideCapital cp ∧ foldCase cp = cp + 0x20 ∨
      0x100 ≤ cp ∧ cp % 2 = 0 ∧ foldCase cp = cp + 1 ∨
      ¬ IsWideCapital cp ∧ (cp < 0x100 ∨ cp % 2 = 1) ∧ foldCase cp = cp := by
  unfold IsWideCapital
  rcases foldCase_cases cp with ⟨capital, folded⟩ | ⟨capital, folded⟩ | ⟨single, paired, same⟩
  · unfold IsCapital at capital
    exact .inl ⟨by omega, folded⟩
  · unfold IsPairCapital at capital
    exact .inr (.inl ⟨by omega, by omega, folded⟩)
  · unfold IsCapital at single
    unfold IsPairCapital at paired
    exact .inr (.inr ⟨by omega, by omega, same⟩)

theorem simpleLower_wide {cp : Nat} (capital : IsWideCapital cp) :
    simpleLower cp = cp + 0x20 ∧ ¬ IsMisfolded cp := by
  unfold IsWideCapital at capital
  unfold simpleLower IsMisfolded
  constructor
  · split_ifs <;> omega
  · omega

/-- From U+0100 on an even letter and its odd neighbour are the two cases of one letter,
or they are merged. -/
theorem simpleLower_even {cp : Nat} (low : 0x100 ≤ cp) (high : cp ≤ 0x17F) (even : cp % 2 = 0) :
    simpleLower cp = cp + 1 ∧ ¬ IsMisfolded cp ∨ IsMerged cp (cp + 1) := by
  unfold simpleLower IsMisfolded IsMerged
  split_ifs <;> omega

/-- A misfolded capital and its small letter are both token characters, folded apart. -/
theorem foldCase_misfolded : ∀ cp < 0x180, IsMisfolded cp →
    foldCase (simpleLower cp) ≠ foldCase cp ∧
      isTokenCharacter cp = true ∧ isTokenCharacter (simpleLower cp) = true := by
  decide +kernel

theorem IsMisfolded.lt {cp : Nat} (misfolded : IsMisfolded cp) : cp < 0x180 := by
  unfold IsMisfolded at misfolded
  omega

/-- A letter is small, misfolded, or folded to its small letter. -/
theorem simpleLower_cases (cp : Nat) :
    simpleLower cp = cp ∨ IsMisfolded cp ∨
      ¬ IsMisfolded cp ∧ cp ≤ 0x17F ∧ isTokenCharacter cp = true ∧
        foldCase cp = simpleLower cp := by
  by_cases misfolded : IsMisfolded cp
  · exact .inr (.inl misfolded)
  by_cases capital : IsWideCapital cp
  · have within : cp ≤ 0x17F := by unfold IsWideCapital at capital; omega
    have char : isTokenCharacter cp = true := by
      rw [isTokenCharacter_iff]
      unfold IsWideCapital at capital
      omega
    rcases foldCase_latin within with ⟨_, folded⟩ | ⟨low, _, _⟩ | ⟨single, _, _⟩
    · exact .inr (.inr ⟨misfolded, within, char, by rw [folded, (simpleLower_wide capital).1]⟩)
    · unfold IsWideCapital at capital
      omega
    · exact absurd capital single
  by_cases paired : 0x100 ≤ cp ∧ cp ≤ 0x17F ∧ cp % 2 = 0
  · obtain ⟨low, high, even⟩ := paired
    rcases simpleLower_even low high even with ⟨lower, _⟩ | ⟨_, _, merged⟩
    · have char : isTokenCharacter cp = true := by
        rw [isTokenCharacter_iff]
        omega
      rcases foldCase_latin high with ⟨wide, _⟩ | ⟨_, _, folded⟩ | ⟨_, odd, _⟩
      · exact absurd wide capital
      · exact .inr (.inr ⟨misfolded, high, char, by rw [folded, lower]⟩)
      · omega
    · left
      unfold IsMisfolded at misfolded
      unfold simpleLower
      split_ifs <;> omega
  · left
    unfold IsMisfolded at misfolded
    unfold IsWideCapital at capital
    unfold simpleLower
    split_ifs <;> omega

theorem foldCase_simpleLower {cp : Nat} (regular : ¬ IsMisfolded cp) :
    foldCase (simpleLower cp) = foldCase cp := by
  rcases simpleLower_cases cp with same | misfolded | ⟨_, _, _, folded⟩
  · rw [same]
  · exact absurd misfolded regular
  · rw [← folded, foldCase_idempotent]

theorem foldCase_merged {c d : Nat} (merged : IsMerged c d) : foldCase c = foldCase d := by
  obtain ⟨rfl, even, block⟩ := merged
  have within : c ≤ 0x17F := by omega
  have within' : c + 1 ≤ 0x17F := by omega
  have first := foldCase_latin within
  have second := foldCase_latin within'
  unfold IsWideCapital at first second
  omega

theorem foldCase_eq_iff {c d : Nat} (first : IsLatinLetter c) (second : IsLatinLetter d) :
    foldCase c = foldCase d ↔ FoldAlike c d := by
  constructor
  · intro same
    -- A capital folds by `0x20`, an even letter by one, and any other stays.
    have wide {c d : Nat} (capital : IsWideCapital c) (moved : d = c + 0x20) : FoldAlike c d :=
      .inr (.inl ⟨(simpleLower_wide capital).2, by rw [moved, (simpleLower_wide capital).1]⟩)
    have even {c d : Nat} (letter : IsLatinLetter c) (low : 0x100 ≤ c) (even : c % 2 = 0)
        (moved : d = c + 1) : FoldAlike c d := by
      rcases simpleLower_even low letter.2.1 even with ⟨lower, regular⟩ | merged
      · exact .inr (.inl ⟨regular, moved.trans lower.symm⟩)
      · exact .inr (.inr (.inr (.inl (moved ▸ merged))))
    have symm {c d : Nat} (alike : FoldAlike d c) : FoldAlike c d := by
      rcases alike with rfl | low | high | near | near
      · exact .inl rfl
      · exact .inr (.inr (.inl low))
      · exact .inr (.inl high)
      · exact .inr (.inr (.inr (.inr near)))
      · exact .inr (.inr (.inr (.inl near)))
    rcases foldCase_latin first.2.1 with ⟨capital, folded⟩ | ⟨low, even', folded⟩ | ⟨_, _, folded⟩
    · rcases foldCase_latin second.2.1 with ⟨_, folded'⟩ | ⟨_, _, folded'⟩ | ⟨_, _, folded'⟩
      · exact .inl (by omega)
      · unfold IsWideCapital at capital
        omega
      · exact wide capital (by omega)
    · rcases foldCase_latin second.2.1 with ⟨capital, folded'⟩ | ⟨_, _, folded'⟩ | ⟨_, _, folded'⟩
      · unfold IsWideCapital at capital
        omega
      · exact .inl (by omega)
      · exact even first low even' (by omega)
    · rcases foldCase_latin second.2.1 with ⟨capital, folded'⟩ | ⟨low, even', folded'⟩ |
        ⟨_, _, folded'⟩
      · exact symm (wide capital (by omega))
      · exact symm (even second low even' (by omega))
      · exact .inl (by omega)
  · rintro (rfl | ⟨regular, rfl⟩ | ⟨regular, rfl⟩ | merged | merged)
    · rfl
    · exact (foldCase_simpleLower regular).symm
    · exact foldCase_simpleLower regular
    · exact foldCase_merged merged
    · exact (foldCase_merged merged).symm

theorem flatten_splitTokens (cps : List Nat) (tokens : List Bytes) (current : Bytes) :
    (splitTokens cps tokens current).flatten = tokens.flatten ++ current ++
      ((cps.filter isTokenCharacter).map foldCase).flatMap encodeCodepoint := by
  have flushed (tokens : List Bytes) (current : Bytes) :
      (flush tokens current).flatten = tokens.flatten ++ current := by
    unfold flush
    split
    · rename_i empty
      simp [List.isEmpty_iff.mp empty]
    · simp
  induction cps generalizing tokens current with
  | nil => simp [splitTokens, flushed]
  | cons cp rest ih =>
    rw [splitTokens]
    split
    · rename_i char
      simp [ih, char, appendCodepoint]
    · rename_i char
      simp [ih, char, flushed]

/-- Texts with the same tokens have the same folded token characters. -/
theorem map_foldCase_of_tokenize_eq {cps cps' : List Nat} (scalars : ∀ cp ∈ cps, IsScalar cp)
    (scalars' : ∀ cp ∈ cps', IsScalar cp)
    (same : tokenize (cps.flatMap encodeCodepoint) = tokenize (cps'.flatMap encodeCodepoint)) :
    (cps.filter isTokenCharacter).map foldCase = (cps'.filter isTokenCharacter).map foldCase := by
  have folded (cps : List Nat) :
      ∀ cp ∈ (cps.filter isTokenCharacter).map foldCase, IsScalar cp := by
    intro cp member
    obtain ⟨source, present, rfl⟩ := List.mem_map.mp member
    exact isScalar_of_isTokenCharacter (isTokenCharacter_foldCase (List.mem_filter.mp present).2)
  rw [tokenize_eq_splitTokens, tokenize_eq_splitTokens, codepoints_flatMap_encode scalars,
    codepoints_flatMap_encode scalars'] at same
  have spelled := congrArg List.flatten same
  simp only [flatten_splitTokens, List.flatten_nil, List.nil_append] at spelled
  rw [← codepoints_flatMap_encode (folded cps), spelled, codepoints_flatMap_encode (folded cps')]

/-- Letters that fold alike, and separators in the same places, give the same tokens. -/
theorem splitTokens_congr {cps cps' : List Nat}
    (alike : List.Forall₂ (fun c d => isTokenCharacter c = isTokenCharacter d ∧
      (isTokenCharacter c = true → foldCase c = foldCase d)) cps cps')
    (tokens : List Bytes) (current : Bytes) :
    splitTokens cps tokens current = splitTokens cps' tokens current := by
  induction alike generalizing tokens current with
  | nil => rfl
  | cons head _ ih =>
    obtain ⟨sort, folded⟩ := head
    simp only [splitTokens, ← sort]
    split
    · rename_i char
      rw [folded char, ih]
    · rw [ih]

/-- Token characters and separators in the same places: the tokens are the same exactly
when the token characters fold alike one by one. -/
theorem tokenize_eq_iff_fold {cps cps' : List Nat} (scalars : ∀ cp ∈ cps, IsScalar cp)
    (scalars' : ∀ cp ∈ cps', IsScalar cp)
    (sorts : List.Forall₂ (fun c d => isTokenCharacter c = isTokenCharacter d) cps cps') :
    tokenize (cps.flatMap encodeCodepoint) = tokenize (cps'.flatMap encodeCodepoint) ↔
      List.Forall₂ (fun c d => isTokenCharacter c = true → foldCase c = foldCase d) cps cps' := by
  constructor
  · intro same
    have folded := map_foldCase_of_tokenize_eq scalars scalars' same
    clear same scalars scalars'
    induction sorts with
    | nil => exact .nil
    | @cons c d _ _ sort _ ih =>
      by_cases char : isTokenCharacter c = true
      · have char' : isTokenCharacter d = true := sort ▸ char
        simp only [List.filter_cons_of_pos char, List.filter_cons_of_pos char', List.map_cons,
          List.cons.injEq] at folded
        exact .cons (fun _ => folded.1) (ih folded.2)
      · have char' : ¬ isTokenCharacter d = true := sort ▸ char
        rw [List.filter_cons_of_neg char, List.filter_cons_of_neg char'] at folded
        exact .cons (fun accepted => absurd accepted char) (ih folded)
  · intro folded
    rw [tokenize_eq_splitTokens, tokenize_eq_splitTokens, codepoints_flatMap_encode scalars,
      codepoints_flatMap_encode scalars']
    refine splitTokens_congr ?_ [] []
    rw [List.forall₂_iff_zip] at sorts folded ⊢
    exact ⟨sorts.1, fun pair => ⟨sorts.2 pair, folded.2 pair⟩⟩

private theorem forall₂_iff_of_mem {R S : Nat → Nat → Prop} {l l' : List Nat}
    (agree : ∀ c ∈ l, ∀ d ∈ l', R c d ↔ S c d) : List.Forall₂ R l l' ↔ List.Forall₂ S l l' := by
  rw [List.forall₂_iff_zip, List.forall₂_iff_zip]
  refine and_congr_right fun _ => ⟨fun held c d pair => ?_, fun held c d pair => ?_⟩
  · obtain ⟨left, right⟩ := List.of_mem_zip pair
    exact (agree c left d right).mp (held pair)
  · obtain ⟨left, right⟩ := List.of_mem_zip pair
    exact (agree c left d right).mpr (held pair)

/-- Lowering a letter keeps its sort, and its folded form unless it is misfolded. -/
theorem lowered_letter {c d : Nat} (lowered : d = c ∨ d = simpleLower c) :
    isTokenCharacter c = isTokenCharacter d ∧ (IsScalar c → IsScalar d) ∧
      ((isTokenCharacter c = true → foldCase c = foldCase d) ↔ (c ≠ d → ¬ IsMisfolded c)) := by
  rcases lowered with rfl | rfl
  · simp
  rcases simpleLower_cases c with same | misfolded | ⟨regular, _, char, folded⟩
  · simp [same]
  · obtain ⟨apart, char, char'⟩ := foldCase_misfolded c misfolded.lt misfolded
    refine ⟨char.trans char'.symm, fun _ => isScalar_of_isTokenCharacter char', ?_, ?_⟩
    · intro same
      exact absurd (same char).symm apart
    · intro kept
      refine absurd misfolded (kept fun same => apart ?_)
      rw [← same]
  · have char' : isTokenCharacter (simpleLower c) = true := folded ▸ isTokenCharacter_foldCase char
    refine ⟨char.trans char'.symm, fun _ => isScalar_of_isTokenCharacter char', ?_⟩
    exact ⟨fun _ _ => regular, fun _ _ => (foldCase_simpleLower regular).symm⟩

/-- Lowering letters of a text leaves its tokens as they are exactly when no misfolded capital
is among those lowered. Two texts of letters that differ in more than case have different tokens
exactly when they do not agree letter by letter up to the folded pairs. -/
theorem tokenize_case_insensitive_iff (cps : List Nat) (scalars : ∀ cp ∈ cps, IsScalar cp) :
    (∀ lowered : List Nat, LowersSome cps lowered →
      (tokenize (cps.flatMap encodeCodepoint) = tokenize (lowered.flatMap encodeCodepoint) ↔
        List.Forall₂ (fun c d => c ≠ d → ¬ IsMisfolded c) cps lowered)) ∧
    ∀ cps' : List Nat, (∀ cp ∈ cps, IsLatinLetter cp) → (∀ cp ∈ cps', IsLatinLetter cp) →
      cps.map simpleLower ≠ cps'.map simpleLower →
      (tokenize (cps.flatMap encodeCodepoint) ≠ tokenize (cps'.flatMap encodeCodepoint) ↔
        ¬ List.Forall₂ FoldAlike cps cps') := by
  constructor
  · intro lowered lowers
    obtain ⟨size, pairs⟩ := List.forall₂_iff_zip.mp lowers
    have scalars' : ∀ cp ∈ lowered, IsScalar cp := by
      clear size pairs
      induction lowers with
      | nil => simp
      | cons head _ ih =>
        obtain ⟨first, others⟩ := List.forall_mem_cons.mp scalars
        exact List.forall_mem_cons.mpr ⟨(lowered_letter head).2.1 first, ih others⟩
    rw [tokenize_eq_iff_fold scalars scalars' (lowers.imp fun _ _ h => (lowered_letter h).1),
      List.forall₂_iff_zip, List.forall₂_iff_zip]
    refine and_congr_right fun _ => ⟨fun held c d pair => ?_, fun held c d pair => ?_⟩
    · exact (lowered_letter (pairs pair)).2.2.mp (held pair)
    · exact (lowered_letter (pairs pair)).2.2.mpr (held pair)
  · intro cps' letters letters' _
    have scalars' : ∀ cp ∈ cps', IsScalar cp := fun cp member =>
      isScalar_of_isTokenCharacter (letters' cp member).2.2
    have whole {l : List Nat} (letters : ∀ cp ∈ l, IsLatinLetter cp) :
        l.filter isTokenCharacter = l :=
      List.filter_eq_self.mpr fun cp member => (letters cp member).2.2
    have folded : List.Forall₂ (fun c d => foldCase c = foldCase d) cps cps' ↔
        List.Forall₂ FoldAlike cps cps' :=
      forall₂_iff_of_mem fun c left d right => foldCase_eq_iff (letters c left) (letters' d right)
    refine not_congr ⟨fun same => folded.mp ?_, fun alike => ?_⟩
    · have mapped := map_foldCase_of_tokenize_eq scalars scalars' same
      rwa [whole letters, whole letters', ← List.forall₂_eq_eq_eq, List.forall₂_map_left_iff,
        List.forall₂_map_right_iff] at mapped
    · have sorts : List.Forall₂ (fun c d => isTokenCharacter c = isTokenCharacter d) cps cps' :=
        (forall₂_iff_of_mem fun c left d right => ⟨fun _ => trivial, fun _ =>
          (letters c left).2.2.trans (letters' d right).2.2.symm⟩).mpr
            (alike.imp fun _ _ _ => trivial)
      exact (tokenize_eq_iff_fold scalars scalars' sorts).mpr
        ((folded.mpr alike).imp fun c _ same (_ : isTokenCharacter c = true) => same)

/-- A capital that folds to its small letter, and two letters that stay apart. -/
theorem tokenize_case_insensitive_ascii :
    tokenize ([0x41].flatMap encodeCodepoint) = tokenize ([0x61].flatMap encodeCodepoint) ∧
      tokenize ([0x61].flatMap encodeCodepoint) ≠ tokenize ([0x62].flatMap encodeCodepoint) := by
  constructor
  · have scalars : ∀ cp ∈ [0x41], IsScalar cp := List.forall_mem_singleton.mpr (.inl (by decide))
    refine ((tokenize_case_insensitive_iff [0x41] scalars).1 [0x61] ?_).mpr ?_
    · exact .cons (.inr rfl) .nil
    · exact .cons (fun _ => by decide) .nil
  · have scalars : ∀ cp ∈ [0x61], IsScalar cp := List.forall_mem_singleton.mpr (.inl (by decide))
    refine ((tokenize_case_insensitive_iff [0x61] scalars).2 [0x62] ?_ ?_ (by decide)).mpr ?_
    · exact List.forall_mem_singleton.mpr ⟨by decide, by decide, by decide⟩
    · exact List.forall_mem_singleton.mpr ⟨by decide, by decide, by decide⟩
    · rintro (_ | ⟨alike, _⟩)
      revert alike
      decide

/-- The Polish letters U+0141 and U+0142 are one letter in two cases with different tokens, and
U+0142 has the token of U+0143, another letter. -/
theorem tokenize_case_sensitive_polish :
    LowersSome [0x141] [0x142] ∧
      tokenize ([0x141].flatMap encodeCodepoint) ≠ tokenize ([0x142].flatMap encodeCodepoint) ∧
      [0x142].map simpleLower ≠ [0x143].map simpleLower ∧
      tokenize ([0x142].flatMap encodeCodepoint) = tokenize ([0x143].flatMap encodeCodepoint) :=
  ⟨.cons (.inr rfl) .nil, by decide, by decide, by decide⟩

end ShadowSe
