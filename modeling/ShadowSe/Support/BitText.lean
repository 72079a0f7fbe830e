import Mathlib.Data.Nat.Bitwise

/-! Texts of bits: numbers of fixed widths one after the other, each with its most significant
bit first, as codecs write and read them through the low end of a machine word. -/

namespace ShadowSe.Support

/-- The low bits of a number, the most significant one first. -/
def bitsOf : Nat → Nat → List Bool
  | 0, _ => []
  | width + 1, n => n.testBit width :: bitsOf width n

@[simp] theorem length_bitsOf (width n : Nat) : (bitsOf width n).length = width := by
  induction width with
  | zero => rfl
  | succ width ih => rw [bitsOf, List.length_cons, ih]

theorem bitsOf_congr {width m n : Nat} (same : ∀ bit < width, m.testBit bit = n.testBit bit) :
    bitsOf width m = bitsOf width n := by
  induction width with
  | zero => rfl
  | succ width ih =>
    rw [bitsOf, bitsOf, same width (Nat.lt_succ_self width),
      ih fun bit below => same bit (Nat.lt_succ_of_lt below)]

theorem bitsOf_mod {width size : Nat} (fits : width ≤ size) (n : Nat) :
    bitsOf width (n % 2 ^ size) = bitsOf width n :=
  bitsOf_congr fun bit below => by
    rw [Nat.testBit_mod_two_pow, decide_eq_true (Nat.lt_of_lt_of_le below fits), Bool.true_and]

theorem bitsOf_add (high low n : Nat) :
    bitsOf (high + low) n = bitsOf high (n >>> low) ++ bitsOf low n := by
  induction high with
  | zero => rw [Nat.zero_add, bitsOf, List.nil_append]
  | succ high ih =>
    rw [Nat.succ_add, bitsOf, bitsOf, ih, Nat.testBit_shiftRight, Nat.add_comm low high,
      List.cons_append]

/-- Writing at the low end of a word; what the shift drops is not read any more. -/
theorem bitsOf_push {width value size bits : Nat} (fits : value < 2 ^ width)
    (room : bits + width ≤ size) (buffer : Nat) :
    bitsOf (bits + width) (buffer <<< width % 2 ^ size ||| value) =
      bitsOf bits buffer ++ bitsOf width value := by
  rw [bitsOf_add]
  congr 1
  · refine bitsOf_congr fun bit below => ?_
    have kept : width + bit < size := by omega
    have above : value.testBit (width + bit) = false :=
      Nat.testBit_lt_two_pow (Nat.lt_of_lt_of_le fits (Nat.pow_le_pow_right (by decide) (by omega)))
    rw [Nat.testBit_shiftRight, Nat.testBit_or, Nat.testBit_mod_two_pow, Nat.testBit_shiftLeft,
      above]
    simp [kept]
  · refine bitsOf_congr fun bit below => ?_
    rw [Nat.testBit_or, Nat.testBit_mod_two_pow, Nat.testBit_shiftLeft]
    simp [Nat.not_le.mpr below]

theorem bitsOf_zero (width : Nat) : bitsOf width 0 = List.replicate width false := by
  induction width with
  | zero => rfl
  | succ width ih => rw [bitsOf, ih, Nat.zero_testBit, List.replicate_succ]

def bytesToBits (s : List UInt8) : List Bool :=
  s.flatMap fun c => bitsOf 8 c.toNat

def ofBits (bits : List Bool) : UInt8 :=
  bits.foldl (fun value bit => 2 * value + bit.toUInt8) 0

/-- The complete bytes; what is left of the last one is dropped. -/
def bitsToBytes : List Bool → List UInt8
  | a :: b :: c :: d :: e :: f :: g :: h :: rest =>
    ofBits [a, b, c, d, e, f, g, h] :: bitsToBytes rest
  | _ => []

theorem bitsToBytes_short {bits : List Bool} (short : bits.length < 8) : bitsToBytes bits = [] := by
  unfold bitsToBytes
  split
  · simp only [List.length_cons] at short
    omega
  · rfl

theorem bitsToBytes_cons (c : UInt8) (rest : List Bool) :
    bitsToBytes (bitsOf 8 c.toNat ++ rest) = c :: bitsToBytes rest := by
  have each : ∀ value < 256, ofBits (bitsOf 8 value) = UInt8.ofNat value := by decide +kernel
  have byte : ofBits (bitsOf 8 c.toNat) = c := by
    rw [each c.toNat c.toNat_lt, UInt8.ofNat_toNat]
  calc bitsToBytes (bitsOf 8 c.toNat ++ rest)
      = ofBits (bitsOf 8 c.toNat) :: bitsToBytes rest := rfl
    _ = c :: bitsToBytes rest := by rw [byte]

theorem length_bytesToBits (s : List UInt8) : (bytesToBits s).length = 8 * s.length := by
  induction s with
  | nil => rfl
  | cons c s ih =>
    rw [bytesToBits, List.flatMap_cons, List.length_append, length_bitsOf, List.length_cons]
    rw [bytesToBits] at ih
    omega

/-- Bytes are read back from their bits, whatever follows them within a byte. -/
theorem bitsToBytes_bytesToBits (s : List UInt8) {rest : List Bool} (short : rest.length < 8) :
    bitsToBytes (bytesToBits s ++ rest) = s := by
  induction s with
  | nil => exact bitsToBytes_short short
  | cons c s ih =>
    calc bitsToBytes (bytesToBits (c :: s) ++ rest)
        = bitsToBytes (bitsOf 8 c.toNat ++ (bytesToBits s ++ rest)) := by
          rw [bytesToBits, List.flatMap_cons, List.append_assoc, ← bytesToBits]
      _ = c :: s := by rw [bitsToBytes_cons, ih]

end ShadowSe.Support
