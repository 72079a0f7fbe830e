import Mathlib.Data.List.Basic

namespace ShadowSe.Support

/-- The bytes that encode some characters. -/
def IsUtf8 (s : List UInt8) : Prop :=
  ∃ text : List Char, s = text.flatMap String.utf8EncodeChar

def IsAscii (s : List UInt8) : Prop :=
  ∀ c ∈ s, c < 0x80

theorem isUtf8_iff_isValidUTF8 (s : List UInt8) : IsUtf8 s ↔ s.toByteArray.IsValidUTF8 := by
  constructor
  · rintro ⟨text, rfl⟩
    exact .intro text rfl
  · rintro ⟨text, same⟩
    exact ⟨text, List.toByteArray_inj.mp same⟩

instance (s : List UInt8) : Decidable (IsUtf8 s) :=
  decidable_of_iff' _ (isUtf8_iff_isValidUTF8 s)

theorem isUtf8_nil : IsUtf8 [] :=
  ⟨[], rfl⟩

theorem isUtf8_encodeChar (c : Char) : IsUtf8 (String.utf8EncodeChar c) :=
  ⟨[c], by simp⟩

theorem IsUtf8.append {s t : List UInt8} : IsUtf8 s → IsUtf8 t → IsUtf8 (s ++ t) := by
  rintro ⟨first, rfl⟩ ⟨second, rfl⟩
  exact ⟨first ++ second, by simp⟩

/-- What follows valid text in valid text is valid. -/
theorem IsUtf8.of_append {s t : List UInt8} (whole : IsUtf8 (s ++ t)) (start : IsUtf8 s) :
    IsUtf8 t := by
  obtain ⟨text, joined⟩ := whole
  obtain ⟨first, rfl⟩ := start
  have encoded : first.utf8Encode ++ t.toByteArray = text.utf8Encode := by
    simp only [List.utf8Encode, ← joined, List.toByteArray_append]
  obtain ⟨rest, rfl⟩ := List.isPrefix_of_utf8Encode_append_eq_utf8Encode _ encoded
  rw [List.flatMap_append] at joined
  exact ⟨rest, List.append_cancel_left joined⟩

/-- Valid text can be cut in front of every byte that begins a character. -/
theorem IsUtf8.split {s t : List UInt8} {c : UInt8} (whole : IsUtf8 (s ++ c :: t))
    (first : c.IsUTF8FirstByte) : IsUtf8 s ∧ IsUtf8 (c :: t) := by
  have start : IsUtf8 s := by
    obtain ⟨text, joined⟩ := whole
    induction text generalizing s with
    | nil => simp at joined
    | cons char text ih =>
      rw [List.flatMap_cons] at joined
      rcases List.append_eq_append_iff.mp joined with ⟨back, shape, rest⟩ | ⟨back, rfl, rest⟩
      · cases back with
        | nil =>
          rw [List.append_nil] at shape
          exact shape ▸ isUtf8_encodeChar char
        | cons d back =>
          -- The byte lies in the encoding of one character, so it is its first.
          obtain ⟨rfl, -⟩ := List.cons.inj rest
          have inside : s.length < (String.utf8EncodeChar char).length := by
            rw [shape]
            simp
          have here : (String.utf8EncodeChar char)[s.length] = c := by
            simp [shape]
          have none := UInt8.isUTF8FirstByte_getElem_utf8EncodeChar.mp (here ▸ first)
          exact List.length_eq_zero_iff.mp none ▸ isUtf8_nil
      · exact (isUtf8_encodeChar char).append (ih rest.symm)
  exact ⟨start, whole.of_append start⟩

theorem IsUtf8.firstByte {c : UInt8} {s : List UInt8} (valid : IsUtf8 (c :: s)) :
    c.IsUTF8FirstByte := by
  obtain ⟨text, joined⟩ := valid
  cases text with
  | nil => cases joined
  | cons char text =>
    rw [List.flatMap_cons] at joined
    have inside : 0 < (String.utf8EncodeChar char).length :=
      List.length_pos_iff.mpr String.utf8EncodeChar_ne_nil
    have here : (String.utf8EncodeChar char)[0] = c := by
      have same := congrArg (·[0]?) joined
      rw [List.getElem?_append_left inside, List.getElem?_eq_getElem inside] at same
      exact (Option.some.inj same).symm
    rw [← here]
    exact UInt8.isUTF8FirstByte_getElem_utf8EncodeChar.mpr rfl

/-- Text around whole characters is valid in each of its parts. -/
theorem isUtf8_around {middle : List UInt8} (valid : IsUtf8 middle) (nonempty : middle ≠ [])
    (s t : List UInt8) : IsUtf8 (s ++ (middle ++ t)) ↔ IsUtf8 s ∧ IsUtf8 t := by
  constructor
  · intro whole
    cases middle with
    | nil => exact absurd rfl nonempty
    | cons c middle =>
      have split := whole.split valid.firstByte
      exact ⟨split.1, split.2.of_append valid⟩
  · rintro ⟨start, rest⟩
    exact start.append (valid.append rest)

private theorem toNat_head {c d : UInt8} {s t : List UInt8} (same : c :: s = d :: t) :
    c.toNat = d.toNat :=
  congrArg UInt8.toNat (List.cons.inj same).1

/-- Behind this byte stand the code points up to the surrogates, which no character has. -/
theorem IsUtf8.behind_0xED {c : UInt8} {s : List UInt8} (valid : IsUtf8 (0xED :: c :: s)) :
    c < 0xA0 := by
  obtain ⟨text, joined⟩ := valid
  cases text with
  | nil => cases joined
  | cons char text =>
    have scalar : char.val.toNat < 0xD800 ∨ 0xDFFF < char.val.toNat ∧ char.val.toNat < 0x110000 :=
      char.valid
    rw [List.flatMap_cons] at joined
    unfold String.utf8EncodeChar at joined
    dsimp only at joined
    generalize char.val.toNat = v at joined scalar
    split at joined
    · have first := toNat_head joined
      simp at first
      omega
    · split at joined
      · have first := toNat_head joined
        simp at first
        omega
      · split at joined
        · have first := toNat_head joined
          have second := toNat_head (List.cons.inj joined).2
          rw [UInt8.lt_iff_toNat_lt]
          simp at first second ⊢
          omega
        · have first := toNat_head joined
          simp at first
          omega

/-- A cut of valid text is valid when no character is cut in two. -/
theorem IsUtf8.take_iff {s : List UInt8} (valid : IsUtf8 s) (n : Nat) :
    IsUtf8 (s.take n) ↔ ∀ c, s[n]? = some c → c.IsUTF8FirstByte := by
  constructor
  · intro start c next
    obtain ⟨inside, rfl⟩ := List.getElem?_eq_some_iff.mp next
    rw [← List.take_append_drop n s] at valid
    have rest := valid.of_append start
    rw [List.drop_eq_getElem_cons inside] at rest
    exact rest.firstByte
  · intro boundary
    by_cases inside : n < s.length
    · rw [← List.take_append_drop n s, List.drop_eq_getElem_cons inside] at valid
      exact (valid.split (boundary _ (List.getElem?_eq_getElem inside))).1
    · rwa [List.take_of_length_le (Nat.le_of_not_lt inside)]

instance (s : List UInt8) : Decidable (IsAscii s) :=
  List.decidableBAll _ s

@[simp]
theorem isAscii_nil : IsAscii [] :=
  List.forall_mem_nil _

@[simp]
theorem isAscii_cons {c : UInt8} {s : List UInt8} : IsAscii (c :: s) ↔ c < 0x80 ∧ IsAscii s :=
  List.forall_mem_cons

@[simp]
theorem isAscii_append {s t : List UInt8} : IsAscii (s ++ t) ↔ IsAscii s ∧ IsAscii t :=
  List.forall_mem_append

theorem IsAscii.isUtf8 {s : List UInt8} (plain : IsAscii s) : IsUtf8 s := by
  induction s with
  | nil => exact isUtf8_nil
  | cons c rest ih =>
    rw [isAscii_cons, UInt8.lt_iff_toNat_lt] at plain
    have small : c.toNat < 0x80 := plain.1
    have single : String.utf8EncodeChar (Char.ofNat c.toNat) = [c] := by
      have value : (Char.ofNat c.toNat).val.toNat = c.toNat := by
        rw [Char.ofNat, dif_pos (.inl (by omega))]
        rfl
      rw [String.utf8EncodeChar, value]
      simp only [show c.toNat ≤ 0x7F by omega, ↓reduceIte, UInt8.ofNat_toNat]
    have head : IsUtf8 [c] := single ▸ isUtf8_encodeChar _
    exact head.append (ih plain.2)

theorem isUtf8_ascii_append {start : List UInt8} (plain : IsAscii start) (t : List UInt8) :
    IsUtf8 (start ++ t) ↔ IsUtf8 t :=
  ⟨fun whole => whole.of_append plain.isUtf8, plain.isUtf8.append⟩

theorem isUtf8_append_ascii {last : List UInt8} (plain : IsAscii last) (s : List UInt8) :
    IsUtf8 (s ++ last) ↔ IsUtf8 s := by
  by_cases empty : last = []
  · rw [empty, List.append_nil]
  · have around := isUtf8_around plain.isUtf8 empty s []
    rw [List.append_nil] at around
    rw [around, and_iff_left isUtf8_nil]

/-- Text on both sides of an ASCII character. -/
theorem isUtf8_cons_between {c : UInt8} (small : c < 0x80) (s t : List UInt8) :
    IsUtf8 (s ++ c :: t) ↔ IsUtf8 s ∧ IsUtf8 t :=
  isUtf8_around (IsAscii.isUtf8 (by simpa using small)) (List.cons_ne_nil c []) s t

theorem isUtf8_between {first last : UInt8} (small : first < 0x80) (small' : last < 0x80)
    (s : List UInt8) : IsUtf8 (first :: (s ++ [last])) ↔ IsUtf8 s := by
  rw [← List.singleton_append, isUtf8_ascii_append (by simpa using small),
    isUtf8_append_ascii (by simpa using small')]

end ShadowSe.Support
