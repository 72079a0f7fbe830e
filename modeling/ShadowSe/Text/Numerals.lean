import Mathlib.Data.Nat.Digits.Lemmas
import Mathlib.Tactic.IntervalCases
import ShadowSe.Support.Binary64
import ShadowSe.Text.Bytes

/-! Numbers as text: `std::to_string`, `strtod` and the insertion of a `double` into a
stream, all in the C locale. -/

namespace ShadowSe

open Support

/-- `std::isdigit`. -/
def isdigit (c : UInt8) : Bool :=
  48 ≤ c && c ≤ 57

def digitByte (digit : Nat) : UInt8 :=
  48 + UInt8.ofNat digit

def digitValue (c : UInt8) : Nat :=
  c.toNat - 48

/-- A number in decimal, without leading zeros. -/
def decimal (n : Nat) : Bytes :=
  if n = 0 then [48] else (Nat.digits 10 n).reverse.map digitByte

/-- The number that a string of digits writes. -/
def decimalValue (digits : Bytes) : Nat :=
  Nat.ofDigits 10 (digits.reverse.map digitValue)

/-- `std::to_string` of an integer. -/
def toString64 (n : Int) : Bytes :=
  (if n < 0 then ascii "-" else []) ++ decimal n.natAbs

/-- `strtod` of the digits with a decimal exponent. -/
def ofDecimal (negative : Bool) (digits : Bytes) (exponent : Int) : Binary64 :=
  let scaled := scaleDown 10 (decimalValue digits) 1 (-exponent)
  .ofRatio negative scaled.1 scaled.2

/-- The exponent of a decimal literal; no digits after the `e` mean that there is none. -/
def exponentPart : Bytes → Int
  | c :: rest =>
    if c = 101 ∨ c = 69 then
      match rest with
      | 43 :: digits => decimalValue (digits.takeWhile isdigit)
      | 45 :: digits => -decimalValue (digits.takeWhile isdigit)
      | digits => decimalValue (digits.takeWhile isdigit)
    else 0
  | [] => 0

/-- The fraction digits of a decimal literal, and what follows them. -/
def fractionPart : Bytes → Bytes × Bytes
  | 46 :: rest => (rest.takeWhile isdigit, rest.dropWhile isdigit)
  | rest => ([], rest)

/-- An optional sign, and what follows it. -/
def signPart : Bytes → Bool × Bytes
  | 45 :: rest => (true, rest)
  | 43 :: rest => (false, rest)
  | rest => (false, rest)

/-- `strtod` on decimal text. White space, hexadecimal and the names of the infinities
and NaNs are never passed to it. -/
def strtod (s : Bytes) : Binary64 :=
  let (negative, s) := signPart s
  let whole := s.takeWhile isdigit
  let (fraction, s) := fractionPart (s.dropWhile isdigit)
  if whole = [] ∧ fraction = [] then .zero false
  else ofDecimal negative (whole ++ fraction) (exponentPart s - fraction.length)

/-- The last `width` digits of a number, the most significant first. -/
def padded (width n : Nat) : Bytes :=
  (List.range width).reverse.map fun i => digitByte (n / 10 ^ i % 10)

/-- The point and the digits after it; `%g` drops trailing zeros and a bare point. -/
def fractionText (width n : Nat) : Bytes :=
  let digits := ((padded width n).reverse.dropWhile (· == 48)).reverse
  if digits = [] then [] else 46 :: digits

/-- The exponent of scientific notation, of at least two digits. -/
def exponentText (exponent : Int) : Bytes :=
  ascii (if exponent < 0 then "e-" else "e+") ++
    (if exponent.natAbs < 10 then ascii "0" else []) ++ decimal exponent.natAbs

/-- `%g` of a positive number of six significant digits `digits`, the first of which
stands for `10 ^ exponent`. -/
def generalText (digits : Nat) (exponent : Int) : Bytes :=
  if -4 ≤ exponent ∧ exponent < 6 then
    let width := (5 - exponent).toNat
    decimal (digits / 10 ^ width) ++ fractionText width (digits % 10 ^ width)
  else
    decimal (digits / 10 ^ 5) ++ fractionText 5 (digits % 10 ^ 5) ++ exponentText exponent

/-- `os << n` with the default flags and precision. -/
def streamText : Binary64 → Bytes
  | .nan => ascii "nan"
  | .infinity negative => ascii (if negative then "-inf" else "inf")
  | .finite negative significand exponent _ =>
    (if negative then ascii "-" else []) ++
      if significand = 0 then ascii "0"
      else
        let (p, q) := Binary64.ratio significand exponent
        let lead := floorLog 10 p q
        let scaled := scaleDown 10 p q (lead - 5)
        let digits := roundHalfEven scaled.1 scaled.2
        -- Rounding up to a seventh digit moves the point.
        if digits = 10 ^ 6 then generalText (10 ^ 5) (lead + 1) else generalText digits lead

/-- `os << std::fixed << std::setprecision(2) << n`. -/
def fixedText : Binary64 → Bytes
  | .nan => ascii "nan"
  | .infinity negative => ascii (if negative then "-inf" else "inf")
  | .finite negative significand exponent _ =>
    let (p, q) := Binary64.ratio significand exponent
    let hundredths := roundHalfEven (p * 100) q
    (if negative then ascii "-" else []) ++ decimal (hundredths / 100) ++ ascii "." ++
      padded 2 (hundredths % 100)

theorem isdigit_digitByte {digit : Nat} (small : digit < 10) :
    isdigit (digitByte digit) = true := by
  interval_cases digit <;> rfl

theorem digitValue_digitByte {digit : Nat} (small : digit < 10) :
    digitValue (digitByte digit) = digit := by
  interval_cases digit <;> rfl

theorem decimal_digits (n : Nat) : ∀ c ∈ decimal n, isdigit c = true := by
  intro c member
  unfold decimal at member
  split at member
  · cases List.mem_singleton.mp member
    rfl
  · obtain ⟨digit, inside, rfl⟩ := List.mem_map.mp member
    exact isdigit_digitByte (Nat.digits_lt_base (by decide) (List.mem_reverse.mp inside))

theorem decimal_ne_nil (n : Nat) : decimal n ≠ [] := by
  unfold decimal
  split
  · exact List.cons_ne_nil _ _
  · rename_i positive
    simpa using Nat.digits_ne_nil_iff_ne_zero.mpr positive

theorem decimalValue_decimal (n : Nat) : decimalValue (decimal n) = n := by
  unfold decimal decimalValue
  split
  · rename_i none
    rw [none]
    rfl
  · have kept : ((Nat.digits 10 n).reverse.map digitByte).reverse.map digitValue =
        Nat.digits 10 n := by
      rw [← List.map_reverse, List.reverse_reverse, List.map_map]
      conv_rhs => rw [← List.map_id (Nat.digits 10 n)]
      apply List.map_congr_left
      intro digit member
      exact digitValue_digitByte (Nat.digits_lt_base (by decide) member)
    rw [kept, Nat.ofDigits_digits]

theorem decimal_head (n : Nat) : decimal n = [48] ∨
    ∃ first rest, decimal n = first :: rest ∧ first ≠ 48 := by
  by_cases none : n = 0
  · left
    simp [decimal, none]
  · right
    have digits : Nat.digits 10 n ≠ [] := Nat.digits_ne_nil_iff_ne_zero.mpr none
    have shape : decimal n = digitByte ((Nat.digits 10 n).getLast digits) ::
        (Nat.digits 10 n).dropLast.reverse.map digitByte := by
      rw [decimal, if_neg none]
      conv_lhs => rw [← List.dropLast_append_getLast digits]
      simp
    refine ⟨_, _, shape, ?_⟩
    intro zero
    have small := Nat.digits_lt_base (by decide) (List.getLast_mem digits)
    have value := digitValue_digitByte small
    rw [zero] at value
    exact Nat.getLast_digit_ne_zero 10 none value.symm

end ShadowSe
