import ShadowSe.Web.WebServer

namespace ShadowSe.WebServer

def upperDigits : Bytes :=
  ascii "0123456789ABCDEF"

def lowerDigits : Bytes :=
  ascii "0123456789abcdef"

/-- A hexadecimal digit of either case, with its value. -/
def HexDigit (h value : UInt8) : Prop :=
  upperDigits[value.toNat]? = some h ∨ lowerDigits[value.toNat]? = some h

instance (h value : UInt8) : Decidable (HexDigit h value) :=
  inferInstanceAs (Decidable (_ ∨ _))

/-- `FormEncoding text s`: the text is a form encoding of `s`. -/
inductive FormEncoding : Bytes → Bytes → Prop
  | nil : FormEncoding [] []
  | literal {text s : Bytes} {c : UInt8} (noPlus : c ≠ 43) (noPercent : c ≠ 37)
      (rest : FormEncoding text s) : FormEncoding (c :: text) (c :: s)
  | percent {text s : Bytes} {c high low : UInt8} (hi : HexDigit high (c / 16))
      (lo : HexDigit low (c % 16)) (rest : FormEncoding text s) :
      FormEncoding (37 :: high :: low :: text) (c :: s)
  | space {text s : Bytes} (rest : FormEncoding text s) : FormEncoding (43 :: text) (32 :: s)

/-- Two hexadecimal digits in front. -/
def Escaped (text : Bytes) : Prop :=
  ∃ high low rest, text = high :: low :: rest ∧ (∃ hi, HexDigit high hi) ∧ ∃ lo, HexDigit low lo

/-- A scan over bytes and well-formed escapes meets a `%` without two digits. -/
inductive BadEscape : Bytes → Prop
  | here {rest : Bytes} (bad : ¬ Escaped rest) : BadEscape (37 :: rest)
  | plain {rest : Bytes} {c : UInt8} (noPercent : c ≠ 37) (later : BadEscape rest) :
      BadEscape (c :: rest)
  | escape {rest : Bytes} {high low hi lo : UInt8} (first : HexDigit high hi)
      (second : HexDigit low lo) (later : BadEscape rest) : BadEscape (37 :: high :: low :: rest)

private theorem hex_table : ∀ h : UInt8, (hex h).all (HexDigit h ·) = true := by
  apply forall_byte
  decide +kernel

private theorem hex_digits : ∀ value : UInt8, upperDigits[value.toNat]?.all (hex · == some value) ∧
    lowerDigits[value.toNat]?.all (hex · == some value) := by
  apply forall_byte
  decide +kernel

theorem hex_eq_some_iff {h value : UInt8} : hex h = some value ↔ HexDigit h value := by
  constructor
  · intro found
    have digit := hex_table h
    rw [found] at digit
    exact of_decide_eq_true digit
  · intro digit
    obtain ⟨upper, lower⟩ := hex_digits value
    rcases digit with digit | digit
    · simpa [digit] using upper
    · simpa [digit] using lower

private theorem join_nibbles : ∀ c : UInt8, (c / 16) <<< 4 ||| c % 16 = c := by
  apply forall_byte
  decide +kernel

theorem urlDecode_escape {high low hi lo : UInt8} (first : HexDigit high hi)
    (second : HexDigit low lo) (rest : Bytes) :
    urlDecode (37 :: high :: low :: rest) = (urlDecode rest).map ((hi <<< 4 ||| lo) :: ·) := by
  rw [urlDecode.eq_def]
  simp only [hex_eq_some_iff.mpr first, hex_eq_some_iff.mpr second]
  rfl

theorem FormEncoding.urlDecode_eq {text s : Bytes} (encoded : FormEncoding text s) :
    urlDecode text = some s := by
  induction encoded with
  | nil => rfl
  | literal noPlus noPercent _ ih => rw [urlDecode_plain noPlus noPercent, ih, Option.map_some]
  | percent hi lo _ ih => rw [urlDecode_escape hi lo, ih, join_nibbles, Option.map_some]
  | space _ ih => rw [urlDecode_plus, ih, Option.map_some]

theorem BadEscape.urlDecode_eq {text : Bytes} (bad : BadEscape text) : urlDecode text = none := by
  induction bad with
  | @here rest bad =>
    rw [urlDecode.eq_def]
    rcases rest with _ | ⟨high, _ | ⟨low, rest⟩⟩
    · rfl
    · rfl
    · cases hi : hex high with
      | none => simp [hi]
      | some first =>
        cases lo : hex low with
        | none => simp [hi, lo]
        | some second =>
          exact absurd ⟨high, low, rest, rfl, ⟨first, hex_eq_some_iff.mp hi⟩,
            ⟨second, hex_eq_some_iff.mp lo⟩⟩ bad
  | @plain rest c noPercent _ ih =>
    by_cases plus : c = 43
    · rw [plus, urlDecode_plus, ih, Option.map_none]
    · rw [urlDecode_plain plus noPercent, ih, Option.map_none]
  | escape first second _ ih => rw [urlDecode_escape first second, ih, Option.map_none]

theorem badEscape_of_urlDecode {text : Bytes} (failed : urlDecode text = none) :
    BadEscape text := by
  fun_induction urlDecode text with
  | case1 => cases failed
  | case2 rest ih => exact .plain (by decide) (ih (Option.map_eq_none_iff.mp failed))
  | case3 high low rest hi lo second first _ ih =>
    exact .escape (hex_eq_some_iff.mp first) (hex_eq_some_iff.mp second)
      (ih (Option.map_eq_none_iff.mp failed))
  | case4 high low rest bad =>
    refine .here fun escaped => ?_
    obtain ⟨_, _, _, shape, ⟨hi, first⟩, lo, second⟩ := escaped
    cases shape
    exact bad hi lo (hex_eq_some_iff.mpr first) (hex_eq_some_iff.mpr second)
  | case5 rest short =>
    refine .here fun escaped => ?_
    obtain ⟨high, low, more, shape, _⟩ := escaped
    exact short high low more shape
  | case6 c rest _ noPercent ih =>
    exact .plain noPercent (ih (Option.map_eq_none_iff.mp failed))

/-- `urlDecode` undoes every form encoding, and fails at bad escapes alone. -/
theorem urlDecode_exact (text s : Bytes) :
    (FormEncoding text s → urlDecode text = some s) ∧
      (urlDecode text = none ↔ BadEscape text) :=
  ⟨FormEncoding.urlDecode_eq, badEscape_of_urlDecode, BadEscape.urlDecode_eq⟩

end ShadowSe.WebServer
