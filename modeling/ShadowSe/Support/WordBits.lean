import Mathlib.Data.Nat.Bitwise

namespace ShadowSe.Support

/-- The word with the one bit of this position. -/
def bitMask (bit : Nat) : UInt64 :=
  1 <<< UInt64.ofNat (bit % 64)

def testBit (words : List UInt64) (bit : Nat) : Bool :=
  words.getD (bit / 64) 0 &&& bitMask bit != 0

def setBit (words : List UInt64) (bit : Nat) : List UInt64 :=
  words.modify (bit / 64) (· ||| bitMask bit)

theorem toNat_bitMask (bit : Nat) : (bitMask bit).toNat = 2 ^ (bit % 64) := by
  have small : bit % 64 < 64 := Nat.mod_lt _ (by decide)
  have size : 2 ^ (bit % 64) < 2 ^ 64 := Nat.pow_lt_pow_right (by decide) small
  have position : (UInt64.ofNat (bit % 64)).toNat = bit % 64 :=
    UInt64.toNat_ofNat_of_lt' (Nat.lt_trans small (by decide))
  rw [bitMask, UInt64.toNat_shiftLeft, position, Nat.mod_eq_of_lt small, UInt64.toNat_one,
    Nat.one_shiftLeft, Nat.mod_eq_of_lt size]

theorem and_bitMask (word : UInt64) (bit : Nat) :
    (word &&& bitMask bit != 0) = word.toNat.testBit (bit % 64) := by
  have masked : (word &&& bitMask bit).toNat =
      (word.toNat.testBit (bit % 64)).toNat * 2 ^ (bit % 64) := by
    rw [UInt64.toNat_and, toNat_bitMask, Nat.and_two_pow]
  rw [Bool.eq_iff_iff, bne_iff_ne, ne_eq, ← UInt64.toNat_inj, masked]
  cases word.toNat.testBit (bit % 64) with
  | true => simp
  | false => simp

@[simp] theorem length_setBit (words : List UInt64) (bit : Nat) :
    (setBit words bit).length = words.length :=
  List.length_modify ..

@[simp] theorem testBit_zeros (count bit : Nat) :
    testBit (List.replicate count 0) bit = false := by
  have word : (List.replicate count (0 : UInt64)).getD (bit / 64) 0 = 0 := by
    rw [List.getD_eq_getElem?_getD, List.getElem?_replicate]
    split <;> rfl
  rw [testBit, word, UInt64.zero_and]
  rfl

/-- Setting a bit that has a word sets that bit and no other. -/
theorem testBit_setBit {words : List UInt64} {bit : Nat} (inside : bit / 64 < words.length)
    (other : Nat) : testBit (setBit words bit) other = (bit == other || testBit words other) := by
  simp only [testBit, setBit, and_bitMask, List.getD_eq_getElem?_getD, List.getElem?_modify]
  by_cases same : bit / 64 = other / 64
  · have position : (bit == other) = decide (bit % 64 = other % 64) := by
      rw [Bool.eq_iff_iff, beq_iff_eq, decide_eq_true_eq]
      omega
    rw [← same, List.getElem?_eq_getElem inside, position]
    simp [toNat_bitMask, Nat.testBit_two_pow, Bool.or_comm]
  · have apart : bit ≠ other := fun equal => same (by rw [equal])
    simp [same, apart]

@[simp] theorem length_setBits (bits : List Nat) (words : List UInt64) :
    (bits.foldl setBit words).length = words.length := by
  induction bits generalizing words with
  | nil => rfl
  | cons bit bits ih => rw [List.foldl_cons, ih, length_setBit]

/-- After setting bits that have words, these and the ones set before are set. -/
theorem testBit_setBits {bits : List Nat} {words : List UInt64}
    (inside : ∀ bit ∈ bits, bit / 64 < words.length) (other : Nat) :
    testBit (bits.foldl setBit words) other = (bits.contains other || testBit words other) := by
  induction bits generalizing words with
  | nil => rfl
  | cons bit bits ih =>
    rw [List.forall_mem_cons] at inside
    have later := @ih (setBit words bit) (by simpa using inside.2)
    rw [List.foldl_cons, later, testBit_setBit inside.1, List.contains_cons, Bool.beq_comm]
    cases bits.contains other with
    | true => simp
    | false => simp

end ShadowSe.Support
