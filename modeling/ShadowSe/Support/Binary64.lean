import Mathlib.Algebra.Group.Nat.Defs
import Mathlib.Algebra.Ring.Int.Defs
import Mathlib.Data.Nat.Log

namespace ShadowSe.Support

/-- The significands and exponents of finite numbers: normal, or at the least exponent. -/
def Canonical (significand : Nat) (exponent : Int) : Prop :=
  significand < 2 ^ 53 ∧ -1074 ≤ exponent ∧ exponent ≤ 971 ∧
    (2 ^ 52 ≤ significand ∨ exponent = -1074)

instance (significand : Nat) (exponent : Int) : Decidable (Canonical significand exponent) :=
  inferInstanceAs (Decidable (_ ∧ _ ∧ _ ∧ _))

/-- A finite number is the significand times two to the exponent, with its sign. -/
inductive Binary64 where
  | nan
  | infinity (negative : Bool)
  | finite (negative : Bool) (significand : Nat) (exponent : Int)
      (canonical : Canonical significand exponent)
  deriving DecidableEq

/-- `⌊log_b (p / q)⌋` for positive `p` and `q`. -/
def floorLog (b p q : Nat) : Int :=
  if q ≤ p then Nat.log b (p / q) else -(Nat.clog b ((q + p - 1) / p) : Int)

/-- `p / q` to the nearest integer, a tie to the even one. -/
def roundHalfEven (p q : Nat) : Nat :=
  if 2 * (p % q) < q then p / q
  else if q < 2 * (p % q) then p / q + 1
  else p / q + p / q % 2

/-- `p / q / b ^ e` as a fraction. -/
def scaleDown (b p q : Nat) (e : Int) : Nat × Nat :=
  (p * b ^ (-e).toNat, q * b ^ e.toNat)

namespace Binary64

def isFinite : Binary64 → Bool
  | finite .. => true
  | _ => false

def zero (negative : Bool) : Binary64 :=
  .finite negative 0 (-1074) (by decide)

/-- A number with this significand and exponent; an infinity when it is too large. -/
def make (negative : Bool) (significand : Nat) (exponent : Int) : Binary64 :=
  if fits : Canonical significand exponent then .finite negative significand exponent fits
  else .infinity negative

/-- The number nearest to `p / q`, with the given sign. -/
def ofRatio (negative : Bool) (p q : Nat) : Binary64 :=
  if p = 0 then zero negative
  else
    let exponent := max (-1074) (floorLog 2 p q - 52)
    let scaled := scaleDown 2 p q exponent
    let significand := roundHalfEven scaled.1 scaled.2
    -- Rounding up may carry into the exponent.
    if significand = 2 ^ 53 then make negative (2 ^ 52) (exponent + 1)
    else make negative significand exponent

/-- `static_cast<double>` of an integer. -/
def ofInt (n : Int) : Binary64 :=
  ofRatio (n < 0) n.natAbs 1

/-- The absolute value of a finite number as a fraction. -/
def ratio (significand : Nat) (exponent : Int) : Nat × Nat :=
  (significand * 2 ^ exponent.toNat, 2 ^ (-exponent).toNat)

/-- `static_cast<std::int64_t>`; what is out of range is the least integer, as on x86-64. -/
def toInt64 : Binary64 → Int
  | finite negative significand exponent _ =>
    let size := (ratio significand exponent).1 / (ratio significand exponent).2
    let value : Int := if negative then -size else size
    if -2 ^ 63 ≤ value ∧ value < 2 ^ 63 then value else -2 ^ 63
  | _ => -2 ^ 63

/-- `static_cast<std::size_t>`; none where it is undefined. -/
def toSize : Binary64 → Option UInt64
  | finite negative significand exponent _ =>
    let size := (ratio significand exponent).1 / (ratio significand exponent).2
    if size < 2 ^ 64 ∧ (negative = true → size = 0) then some (UInt64.ofNat size) else none
  | _ => none

/-- `==`: the zeros are equal, and NaN is equal to nothing. -/
def eq : Binary64 → Binary64 → Bool
  | nan, _ => false
  | infinity negative, other => other == infinity negative
  | finite negative significand exponent canonical, other =>
    other == finite negative significand exponent canonical ||
      significand == 0 && (other == zero true || other == zero false)

/-- `fabs(x) < bound`. -/
def fabsLess : Binary64 → Nat → Bool
  | finite _ significand exponent _, bound =>
    (ratio significand exponent).1 < bound * (ratio significand exponent).2
  | _, _ => false

/-- `n < x`. -/
def natLess (n : Nat) : Binary64 → Bool
  | finite negative significand exponent _ =>
    !negative && n * (ratio significand exponent).2 < (ratio significand exponent).1
  | infinity negative => !negative
  | nan => false

private theorem wholePart_le {significand : Nat} {exponent : Int} (small : significand < 2 ^ 53)
    (fits : (ratio significand exponent).1 / (ratio significand exponent).2 < 2 ^ 64) :
    (ratio significand exponent).1 / (ratio significand exponent).2 ≤ 2 ^ 64 - 2 ^ 11 := by
  rcases Int.lt_or_le exponent 0 with negative | positive
  · have up : exponent.toNat = 0 := Int.toNat_eq_zero.mpr (Int.le_of_lt negative)
    simp only [ratio, up, Nat.pow_zero, Nat.mul_one]
    refine Nat.le_trans (Nat.div_le_self _ _) ?_
    omega
  · have down : (-exponent).toNat = 0 := by omega
    simp only [ratio, down, Nat.pow_zero, Nat.div_one] at fits ⊢
    generalize exponent.toNat = shift at fits ⊢
    by_cases short : shift ≤ 11
    · calc significand * 2 ^ shift ≤ (2 ^ 53 - 1) * 2 ^ 11 :=
            Nat.mul_le_mul (by omega) (Nat.pow_le_pow_right (by decide) short)
        _ = 2 ^ 64 - 2 ^ 11 := by decide
    · -- A multiple of `2 ^ 11` below `2 ^ 64`.
      obtain ⟨more, rfl⟩ := Nat.exists_eq_add_of_le (Nat.le_of_not_le short)
      rw [Nat.add_comm, Nat.pow_add, ← Nat.mul_assoc] at fits ⊢
      omega

private theorem toSize_cases {x : Binary64} {size : UInt64} (converted : x.toSize = some size) :
    ∃ negative significand exponent canonical,
      x = .finite negative significand exponent canonical ∧ size.toNat < 2 ^ 64 ∧
        (ratio significand exponent).1 / (ratio significand exponent).2 = size.toNat := by
  cases x with
  | nan => cases converted
  | infinity => cases converted
  | finite negative significand exponent canonical =>
    simp only [toSize] at converted
    split at converted
    · next fits =>
      obtain rfl := Option.some.inj converted
      refine ⟨negative, significand, exponent, canonical, rfl, UInt64.toNat_lt _, ?_⟩
      rw [UInt64.toNat_ofNat_of_lt' fits.1]
    · cases converted

/-- Below `2 ^ 64` the numbers are at least `2 ^ 11` apart. -/
theorem toSize_le {x : Binary64} {size : UInt64} (converted : x.toSize = some size) :
    size.toNat ≤ 2 ^ 64 - 2 ^ 11 := by
  obtain ⟨_, significand, exponent, canonical, rfl, fits, whole⟩ := toSize_cases converted
  rw [← whole] at fits ⊢
  exact wholePart_le canonical.1 fits

theorem le_toSize {n : Nat} {x : Binary64} {size : UInt64} (less : natLess n x = true)
    (converted : x.toSize = some size) : n ≤ size.toNat := by
  obtain ⟨negative, significand, exponent, canonical, rfl, _, whole⟩ := toSize_cases converted
  simp only [natLess, Bool.and_eq_true, decide_eq_true_eq] at less
  rw [← whole]
  exact (Nat.le_div_iff_mul_le (Nat.two_pow_pos _)).mpr (Nat.le_of_lt less.2)

theorem roundHalfEven_one (n : Nat) : roundHalfEven n 1 = n := by
  simp [roundHalfEven, Nat.mod_one]

private theorem canonical_small {n : Nat} (positive : n ≠ 0) (small : n < 2 ^ 53) :
    Nat.log 2 n ≤ 52 ∧ Canonical (n * 2 ^ (52 - Nat.log 2 n)) (Nat.log 2 n - 52) := by
  have bits : Nat.log 2 n ≤ 52 :=
    Nat.lt_succ_iff.mp (Nat.log_lt_of_lt_pow positive small)
  have join : 2 ^ Nat.log 2 n * 2 ^ (52 - Nat.log 2 n) = 2 ^ 52 := by
    rw [← Nat.pow_add, Nat.add_sub_cancel' bits]
  refine ⟨bits, ?_, by omega, by omega, .inl ?_⟩
  · calc n * 2 ^ (52 - Nat.log 2 n)
        < 2 ^ (Nat.log 2 n + 1) * 2 ^ (52 - Nat.log 2 n) :=
          Nat.mul_lt_mul_of_pos_right (Nat.lt_pow_succ_log_self (by decide) n)
            (Nat.two_pow_pos _)
      _ = 2 ^ 53 := by rw [Nat.pow_succ, Nat.mul_right_comm, join, ← Nat.pow_succ]
  · calc 2 ^ 52 = 2 ^ Nat.log 2 n * 2 ^ (52 - Nat.log 2 n) := join.symm
      _ ≤ n * 2 ^ (52 - Nat.log 2 n) :=
          Nat.mul_le_mul_right _ (Nat.pow_log_le_self 2 positive)

/-- An integer of at most 53 bits is represented exactly. -/
theorem ofInt_small {n : Int} (small : n.natAbs < 2 ^ 53) :
    ∃ significand exponent canonical,
      ofInt n = .finite (n < 0) significand exponent canonical ∧ exponent ≤ 0 ∧
        significand = n.natAbs * 2 ^ (-exponent).toNat := by
  by_cases none : n.natAbs = 0
  · have same : n = 0 := by omega
    subst same
    refine ⟨0, -1074, by decide, rfl, by decide, ?_⟩
    rw [Int.natAbs_zero, Nat.zero_mul]
  · obtain ⟨bits, canonical⟩ := canonical_small none small
    have shift : (-((Nat.log 2 n.natAbs : Int) - 52)).toNat = 52 - Nat.log 2 n.natAbs := by omega
    refine ⟨_, _, canonical, ?_, by omega, by rw [shift]⟩
    have exponent : max (-1074) (floorLog 2 n.natAbs 1 - 52) =
        (Nat.log 2 n.natAbs : Int) - 52 := by
      rw [floorLog, if_pos (by omega), Nat.div_one]
      omega
    have scaled : scaleDown 2 n.natAbs 1 ((Nat.log 2 n.natAbs : Int) - 52) =
        (n.natAbs * 2 ^ (52 - Nat.log 2 n.natAbs), 1) := by
      have whole : ((Nat.log 2 n.natAbs : Int) - 52).toNat = 0 := by omega
      simp only [scaleDown, shift, whole, Nat.one_mul, Nat.pow_zero]
    have noCarry : n.natAbs * 2 ^ (52 - Nat.log 2 n.natAbs) ≠ 2 ^ 53 := Nat.ne_of_lt canonical.1
    simp only [ofInt, ofRatio, none, ↓reduceIte, exponent, scaled, roundHalfEven_one, noCarry]
    rw [make, dif_pos canonical]

theorem ofInt_isFinite {n : Int} (small : n.natAbs < 2 ^ 53) : (ofInt n).isFinite = true := by
  obtain ⟨_, _, _, shape, _⟩ := ofInt_small small
  rw [shape]
  rfl

theorem toInt64_ofInt {n : Int} (small : n.natAbs < 2 ^ 53) : (ofInt n).toInt64 = n := by
  obtain ⟨significand, exponent, _, shape, whole, exact⟩ := ofInt_small small
  have up : exponent.toNat = 0 := by omega
  rw [shape]
  simp only [toInt64, ratio, up, exact, Nat.pow_zero, Nat.mul_one,
    Nat.mul_div_cancel _ (Nat.two_pow_pos _), decide_eq_true_eq]
  split <;> split <;> omega

theorem fabsLess_ofInt {n : Int} (small : n.natAbs < 2 ^ 53) {bound : Nat}
    (large : 2 ^ 53 ≤ bound) : (ofInt n).fabsLess bound = true := by
  obtain ⟨significand, exponent, _, shape, whole, exact⟩ := ofInt_small small
  have up : exponent.toNat = 0 := by omega
  rw [shape]
  simp only [fabsLess, ratio, up, exact, Nat.pow_zero, Nat.mul_one, decide_eq_true_eq]
  exact Nat.mul_lt_mul_of_pos_right (by omega) (Nat.two_pow_pos _)

theorem ofInt_zero : ofInt 0 = zero false :=
  rfl

theorem toInt64_zero (negative : Bool) : (zero negative).toInt64 = 0 := by
  simp only [zero, toInt64, ratio, Nat.zero_mul, Nat.zero_div]
  cases negative with
  | true => rfl
  | false => rfl

theorem fabsLess_zero (negative : Bool) {bound : Nat} (positive : 0 < bound) :
    (zero negative).fabsLess bound = true := by
  simp only [zero, fabsLess, ratio, Nat.zero_mul, decide_eq_true_eq]
  exact Nat.mul_pos positive (Nat.two_pow_pos _)

theorem eq_zero (negative other : Bool) : (zero negative).eq (zero other) = true := by
  cases other with
  | true => simp [zero, eq]
  | false => simp [zero, eq]

theorem eq_self {x : Binary64} (finite : x.isFinite = true) : x.eq x = true := by
  cases x with
  | finite => simp [eq]
  | _ => cases finite

/-- Numbers that compare equal are the same, except for the two zeros. -/
theorem eq_cases {x y : Binary64} (same : x.eq y = true) :
    x = y ∨ (x = zero true ∨ x = zero false) ∧ (y = zero true ∨ y = zero false) := by
  cases x with
  | nan => cases same
  | infinity negative => exact .inl (by simpa [eq] using (beq_iff_eq.mp same).symm)
  | finite negative significand exponent canonical =>
    simp only [eq, Bool.or_eq_true, Bool.and_eq_true, beq_iff_eq] at same
    rcases same with same | ⟨rfl, zeros⟩
    · exact .inl same.symm
    · have least : exponent = -1074 := by
        obtain ⟨_, _, _, normal | least⟩ := canonical
        · omega
        · exact least
      subst least
      cases negative with
      | false => exact .inr ⟨.inr rfl, zeros⟩
      | true => exact .inr ⟨.inl rfl, zeros⟩

end Binary64

end ShadowSe.Support
