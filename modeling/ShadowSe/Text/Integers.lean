import Mathlib.Data.List.TakeWhile
import ShadowSe.Text.Numerals

namespace ShadowSe

/-- The sign and the number that are read; none without a digit. -/
def scanInteger (s : Bytes) : Option (Bool × Nat) :=
  let (negative, rest) := signPart (s.dropWhile isspace)
  let digits := rest.takeWhile isdigit
  if digits = [] then none else some (negative, decimalValue digits)

/-- `std::stol`; none when it throws. -/
def stol (s : Bytes) : Option Int :=
  match scanInteger s with
  | none => none
  | some (negative, n) =>
    let value : Int := if negative then -n else n
    if -2 ^ 63 ≤ value ∧ value < 2 ^ 63 then some value else none

/-- `std::stoul`; none when it throws. A minus sign negates modulo the word size. -/
def stoul (s : Bytes) : Option UInt64 :=
  match scanInteger s with
  | none => none
  | some (negative, n) =>
    if n < 2 ^ 64 then some (if negative then -UInt64.ofNat n else UInt64.ofNat n) else none

/-- The parts of a text that begins with an integer. -/
structure IntegerText (s blank sign digits rest : Bytes) : Prop where
  shape : s = blank ++ (sign ++ (digits ++ rest))
  blank : ∀ c ∈ blank, isspace c = true
  sign : sign = [] ∨ sign = [43] ∨ sign = [45]
  nonempty : digits ≠ []
  digits : ∀ c ∈ digits, isdigit c = true
  rest : ∀ c ∈ rest.head?, isdigit c = false

theorem digit_ne : ∀ c : UInt8, isdigit c = true → isspace c = false ∧ c ≠ 45 ∧ c ≠ 43 := by
  apply forall_byte
  decide +kernel

theorem signPart_cons {c : UInt8} (minus : c ≠ 45) (plus : c ≠ 43) (rest : Bytes) :
    signPart (c :: rest) = (false, c :: rest) := by
  unfold signPart
  split
  · rename_i same
    exact absurd (List.cons.inj same).1 minus
  · rename_i same
    exact absurd (List.cons.inj same).1 plus
  · rfl

theorem signPart_shape (s : Bytes) : ∃ sign, s = sign ++ (signPart s).2 ∧
    (sign = [] ∨ sign = [43] ∨ sign = [45]) ∧ ((signPart s).1 = true ↔ sign = [45]) := by
  unfold signPart
  split
  · exact ⟨[45], rfl, .inr (.inr rfl), by simp⟩
  · exact ⟨[43], rfl, .inr (.inl rfl), by simp⟩
  · exact ⟨[], rfl, .inl rfl, by simp⟩

private theorem takeWhile_append_stop {p : UInt8 → Bool} {s rest : Bytes}
    (all : ∀ c ∈ s, p c = true) (stop : ∀ c ∈ rest.head?, p c = false) :
    (s ++ rest).takeWhile p = s ∧ (s ++ rest).dropWhile p = rest := by
  rw [List.takeWhile_append_of_pos all, List.dropWhile_append_of_pos all]
  cases rest with
  | nil => simp
  | cons c rest =>
    have other : p c = false := stop c rfl
    simp [other]

theorem scanInteger_eq_some_iff {s : Bytes} {negative : Bool} {n : Nat} :
    scanInteger s = some (negative, n) ↔ ∃ blank sign digits rest,
      IntegerText s blank sign digits rest ∧ (negative = true ↔ sign = [45]) ∧
        n = decimalValue digits := by
  constructor
  · intro scanned
    obtain ⟨sign, shape, known, minus⟩ := signPart_shape (s.dropWhile isspace)
    simp only [scanInteger] at scanned
    split at scanned
    · cases scanned
    · rename_i nonempty
      obtain ⟨rfl, rfl⟩ := Prod.mk.inj (Option.some.inj scanned)
      refine ⟨s.takeWhile isspace, sign, _, (signPart (s.dropWhile isspace)).2.dropWhile isdigit,
        ⟨?_, ?_, known, nonempty, ?_, ?_⟩, minus, rfl⟩
      · rw [List.takeWhile_append_dropWhile, ← shape, List.takeWhile_append_dropWhile]
      · exact fun c => List.mem_takeWhile_imp
      · exact fun c => List.mem_takeWhile_imp
      · intro c first
        have stop := List.head?_dropWhile_not isdigit (signPart (s.dropWhile isspace)).2
        rw [Option.mem_def.mp first] at stop
        exact stop
  · rintro ⟨blank, sign, digits, rest, text, minus, rfl⟩
    obtain ⟨first, more, rfl⟩ := List.exists_cons_of_ne_nil text.nonempty
    obtain ⟨visible, notMinus, notPlus⟩ := digit_ne first (text.digits first List.mem_cons_self)
    have passed : s.dropWhile isspace = sign ++ (first :: more ++ rest) := by
      rw [text.shape]
      refine (takeWhile_append_stop text.blank ?_).2
      rcases text.sign with rfl | rfl | rfl
      · simpa using visible
      · simp [isspace]
      · simp [isspace]
    have split :
        signPart (sign ++ (first :: more ++ rest)) = (negative, first :: more ++ rest) := by
      rcases text.sign with rfl | rfl | rfl
      · have none : negative = false := by simpa using minus
        rw [none]
        exact signPart_cons notMinus notPlus _
      · have none : negative = false := by simpa using minus
        rw [none]
        rfl
      · rw [minus.mpr rfl]
        rfl
    rw [scanInteger, passed, split]
    dsimp only
    rw [(takeWhile_append_stop text.digits text.rest).1, if_neg text.nonempty]

theorem stol_eq_some_iff {s : Bytes} {p : Int} : stol s = some p ↔ ∃ blank sign digits rest,
    IntegerText s blank sign digits rest ∧
      p = (if sign = [45] then -(decimalValue digits : Int) else decimalValue digits) ∧
      -2 ^ 63 ≤ p ∧ p < 2 ^ 63 := by
  constructor
  · intro read
    unfold stol at read
    split at read
    · cases read
    · rename_i negative n scanned
      obtain ⟨blank, sign, digits, rest, text, minus, rfl⟩ := scanInteger_eq_some_iff.mp scanned
      simp only [minus, Option.ite_none_right_eq_some, Option.some.injEq] at read
      obtain ⟨range, rfl⟩ := read
      exact ⟨blank, sign, digits, rest, text, rfl, range⟩
  · rintro ⟨blank, sign, digits, rest, text, rfl, range⟩
    have scanned : scanInteger s = some (decide (sign = [45]), decimalValue digits) :=
      scanInteger_eq_some_iff.mpr ⟨blank, sign, digits, rest, text, decide_eq_true_iff, rfl⟩
    simp only [stol, scanned, decide_eq_true_eq]
    exact if_pos range

theorem stoul_eq_some_iff {s : Bytes} {v : UInt64} : stoul s = some v ↔
    ∃ blank sign digits rest, IntegerText s blank sign digits rest ∧
      decimalValue digits < 2 ^ 64 ∧
      v = if sign = [45] then -UInt64.ofNat (decimalValue digits)
        else UInt64.ofNat (decimalValue digits) := by
  constructor
  · intro read
    unfold stoul at read
    split at read
    · cases read
    · rename_i negative n scanned
      obtain ⟨blank, sign, digits, rest, text, minus, rfl⟩ := scanInteger_eq_some_iff.mp scanned
      simp only [minus, Option.ite_none_right_eq_some, Option.some.injEq] at read
      obtain ⟨range, rfl⟩ := read
      exact ⟨blank, sign, digits, rest, text, range, rfl⟩
  · rintro ⟨blank, sign, digits, rest, text, range, rfl⟩
    have scanned : scanInteger s = some (decide (sign = [45]), decimalValue digits) :=
      scanInteger_eq_some_iff.mpr ⟨blank, sign, digits, rest, text, decide_eq_true_iff, rfl⟩
    simp only [stoul, scanned, decide_eq_true_eq]
    exact if_pos range

end ShadowSe
