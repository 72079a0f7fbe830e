import ShadowSe.Json.Grammar

namespace ShadowSe.Json

open Support

theorem isInt_decimal (n : Nat) : IsInt (decimal n) := by
  rcases decimal_head n with zero | ⟨first, rest, shape, nonzero⟩
  · exact .inl zero
  · have digits := decimal_digits n
    rw [shape] at digits ⊢
    exact .inr ⟨first, rest, rfl, digits first (by simp), nonzero, fun c member =>
      digits c (List.mem_cons_of_mem _ member)⟩

theorem isFrac_fractionText (width n : Nat) : IsFrac (fractionText width n) := by
  simp only [fractionText]
  split
  · exact .inl rfl
  · rename_i nonempty
    refine .inr ⟨_, rfl, nonempty, ?_⟩
    intro c member
    have kept := (List.dropWhile_sublist _).subset (List.mem_reverse.mp member)
    obtain ⟨i, _, rfl⟩ := List.mem_map.mp (List.mem_reverse.mp kept)
    exact isdigit_digitByte (Nat.mod_lt _ (by decide))

theorem isExp_exponentText (exponent : Int) : IsExp (exponentText exponent) := by
  have digits : AllDigits ((if exponent.natAbs < 10 then ascii "0" else []) ++
      decimal exponent.natAbs) := by
    intro c member
    rcases List.mem_append.mp member with zero | digit
    · split at zero
      · cases List.mem_singleton.mp zero
        rfl
      · cases zero
    · exact decimal_digits _ c digit
  have nonempty : (if exponent.natAbs < 10 then ascii "0" else []) ++
      decimal exponent.natAbs ≠ [] := by
    simp [decimal_ne_nil]
  right
  unfold exponentText
  by_cases negative : exponent < 0
  · exact ⟨101, [45], _, by simp [negative, ascii], .inl rfl, .inr (.inr rfl), nonempty, digits⟩
  · exact ⟨101, [43], _, by simp [negative, ascii], .inl rfl, .inr (.inl rfl), nonempty, digits⟩

private theorem isNumber_parts (negative : Bool) {int frac exp : Bytes} (whole : IsInt int)
    (fraction : IsFrac frac) (exponent : IsExp exp) :
    IsNumber ((if negative then ascii "-" else []) ++ (int ++ (frac ++ exp))) := by
  refine ⟨if negative then ascii "-" else [], int, frac, exp, by simp, ?_, whole, fraction,
    exponent⟩
  cases negative with
  | false => exact .inl rfl
  | true => exact .inr rfl

private theorem generalText_parts (digits : Nat) (exponent : Int) :
    ∃ int frac exp, generalText digits exponent = int ++ (frac ++ exp) ∧ IsInt int ∧
      IsFrac frac ∧ IsExp exp := by
  simp only [generalText]
  split
  · exact ⟨_, _, [], (congrArg _ (List.append_nil _)).symm, isInt_decimal _,
      isFrac_fractionText _ _, .inl rfl⟩
  · exact ⟨_, _, _, List.append_assoc _ _ _, isInt_decimal _, isFrac_fractionText _ _,
      isExp_exponentText _⟩

theorem isNumber_streamText {n : Binary64} (finite : n.isFinite = true) :
    IsNumber (streamText n) := by
  cases n with
  | finite negative significand exponent canonical =>
    simp only [streamText]
    by_cases zero : significand = 0
    · rw [if_pos zero]
      exact isNumber_parts negative (.inl rfl) (.inl rfl) (.inl rfl)
    · rw [if_neg zero]
      have general (digits : Nat) (exponent : Int) :
          IsNumber ((if negative then ascii "-" else []) ++ generalText digits exponent) := by
        obtain ⟨int, frac, exp, shape, whole, fraction, power⟩ :=
          generalText_parts digits exponent
        rw [shape]
        exact isNumber_parts negative whole fraction power
      generalize roundHalfEven _ _ = digits
      by_cases carry : digits = 10 ^ 6
      · rw [if_pos carry]
        exact general _ _
      · rw [if_neg carry]
        exact general _ _
  | _ => cases finite

theorem isNumber_toString64 (n : Int) : IsNumber (toString64 n) := by
  have number := isNumber_parts (decide (n < 0)) (isInt_decimal n.natAbs) (.inl rfl) (.inl rfl)
  simpa [toString64] using number

theorem isNumber_numberText {n : Binary64} (finite : n.isFinite = true) :
    IsNumber (numberText n) := by
  unfold numberText
  split
  · exact isNumber_toString64 _
  · exact isNumber_streamText finite

theorem strtod_decimal (negative : Bool) (n : Nat) :
    strtod ((if negative then ascii "-" else []) ++ decimal n) = .ofRatio negative n 1 := by
  have digits := decimal_digits n
  have sign : signPart ((if negative then ascii "-" else []) ++ decimal n) =
      (negative, decimal n) := by
    cases negative with
    | true => rfl
    | false =>
      obtain ⟨first, rest, shape⟩ := List.exists_cons_of_ne_nil (decimal_ne_nil n)
      have digit := digits first (by simp [shape])
      have noMinus : first ≠ 45 := by
        rintro rfl
        cases digit
      have noPlus : first ≠ 43 := by
        rintro rfl
        cases digit
      simp [shape, signPart, noMinus, noPlus]
  have whole : (decimal n).takeWhile isdigit = decimal n := by
    have kept := @List.takeWhile_append_of_pos _ isdigit _ [] digits
    simpa using kept
  have nothing : (decimal n).dropWhile isdigit = [] := by
    have dropped := @List.dropWhile_append_of_pos _ isdigit _ [] digits
    simpa using dropped
  simp only [strtod, sign, whole, nothing, fractionPart, exponentPart]
  rw [if_neg (by simp [decimal_ne_nil])]
  simp [ofDecimal, scaleDown, decimalValue_decimal]

/-- An integer is read back as the number nearest to it. -/
theorem strtod_toString64 (n : Int) : strtod (toString64 n) = .ofInt n := by
  have read := strtod_decimal (decide (n < 0)) n.natAbs
  simpa [toString64, Binary64.ofInt] using read

/-- Numbers equal to an integer of at most 53 bits are written as that integer. -/
theorem numberText_small {n : Binary64} {k : Int} (small : k.natAbs < 2 ^ 53)
    (same : n.eq (.ofInt k) = true) : numberText n = toString64 k := by
  have finite := Binary64.ofInt_isFinite small
  have value := Binary64.toInt64_ofInt small
  have less := Binary64.fabsLess_ofInt small (by decide : 2 ^ 53 ≤ 9200000000000000000)
  rcases Binary64.eq_cases same with rfl | ⟨zero, zeroInt⟩
  · rw [numberText, value, if_pos ⟨same, finite, less⟩]
  · have none : k = 0 := by
      rw [← value]
      rcases zeroInt with shape | shape
      all_goals
        rw [shape]
        exact Binary64.toInt64_zero _
    subst none
    have written (negative : Bool) :
        numberText (Binary64.zero negative) = toString64 0 := by
      rw [numberText, Binary64.toInt64_zero, Binary64.ofInt_zero,
        if_pos ⟨Binary64.eq_zero _ _, rfl, Binary64.fabsLess_zero _ (by decide)⟩]
    rcases zero with rfl | rfl
    · exact written true
    · exact written false

theorem strtod_numberText {n : Binary64} {k : Int} (small : k.natAbs < 2 ^ 53)
    (same : n.eq (.ofInt k) = true) : (strtod (numberText n)).eq n = true := by
  rw [numberText_small small same, strtod_toString64]
  have finite := Binary64.ofInt_isFinite small
  rcases Binary64.eq_cases same with rfl | ⟨zero, zeroInt⟩
  · exact Binary64.eq_self finite
  · rcases zero with rfl | rfl
    all_goals
      rcases zeroInt with shape | shape
      all_goals
        rw [shape]
        exact Binary64.eq_zero _ _

end ShadowSe.Json
