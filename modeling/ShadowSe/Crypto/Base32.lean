import ShadowSe.Support.BitText
import ShadowSe.Text.Bytes

namespace ShadowSe

open Support

def kB32 : Bytes :=
  ascii "ABCDEFGHIJKLMNOPQRSTUVWXYZ234567"

/-- The letter of the low five bits. -/
def letter32 (v : UInt64) : UInt8 :=
  kB32.getD (v &&& 31).toNat 0

/-- The inner loop: what it appends, and the bits that it leaves in the buffer. -/
def drain (buffer : UInt64) : Nat → Bytes × Nat
  | bits + 5 => (letter32 (buffer >>> UInt64.ofNat bits) :: (drain buffer bits).1,
      (drain buffer bits).2)
  | bits => ([], bits)

/-- The outer loop of `b32Unpadded`, with what it appends to its output. -/
def encode32 (buffer : UInt64) (bits : Nat) : Bytes → Bytes
  | [] => if 0 < bits then [letter32 (buffer <<< UInt64.ofNat (5 - bits))] else []
  | d :: rest =>
    let buffer := buffer <<< 8 ||| d.toUInt64
    (drain buffer (bits + 8)).1 ++ encode32 buffer (drain buffer (bits + 8)).2 rest

def b32Unpadded (data : Bytes) : Bytes :=
  encode32 0 0 data

/-- The letters and then the digits from 2 to 7. -/
def base32Alphabet : Bytes :=
  (List.range 26).map (fun i => UInt8.ofNat (65 + i)) ++
    (List.range 6).map fun i => UInt8.ofNat (50 + i)

/-- The value of a character is its place in the alphabet. -/
def base32Value (c : UInt8) : Nat :=
  base32Alphabet.idxOf c

/-- The bits that a text stands for. -/
def base32Bits (text : Bytes) : List Bool :=
  text.flatMap fun c => bitsOf 5 (base32Value c)

def base32Decode (text : Bytes) : Bytes :=
  bitsToBytes (base32Bits text)

private theorem letter32_table : ∀ v < 32,
    kB32.getD v 0 ∈ base32Alphabet ∧ base32Value (kB32.getD v 0) = v := by
  decide +kernel

private theorem toNat_low (v : UInt64) : (v &&& 31).toNat = v.toNat % 2 ^ 5 := by
  rw [UInt64.toNat_and, show (31 : UInt64).toNat = 2 ^ 5 - 1 from rfl,
    Nat.and_two_pow_sub_one_eq_mod]

theorem letter32_mem (v : UInt64) : letter32 v ∈ base32Alphabet := by
  rw [letter32, toNat_low]
  exact (letter32_table _ (Nat.mod_lt _ (by decide))).1

theorem base32Bits_letter32 (v : UInt64) (text : Bytes) :
    base32Bits (letter32 v :: text) = bitsOf 5 v.toNat ++ base32Bits text := by
  have value : base32Value (letter32 v) = v.toNat % 2 ^ 5 := by
    rw [letter32, toNat_low]
    exact (letter32_table _ (Nat.mod_lt _ (by decide))).2
  rw [base32Bits, List.flatMap_cons, value, bitsOf_mod (Nat.le_refl 5), base32Bits]

private theorem toNat_shift {n : Nat} (small : n < 64) : (UInt64.ofNat n).toNat % 64 = n := by
  rw [UInt64.toNat_ofNat_of_lt' (Nat.lt_trans small (by decide)), Nat.mod_eq_of_lt small]

/-- The bits that are drained and those that stay are the ones that were in the buffer. -/
theorem base32Bits_drain (buffer : UInt64) {bits : Nat} (room : bits < 64) :
    base32Bits (drain buffer bits).1 ++ bitsOf (drain buffer bits).2 buffer.toNat =
      bitsOf bits buffer.toNat ∧ (drain buffer bits).2 < 5 := by
  fun_induction drain buffer bits with
  | case1 bits ih =>
    have shifted : (buffer >>> UInt64.ofNat bits).toNat = buffer.toNat >>> bits := by
      rw [UInt64.toNat_shiftRight, toNat_shift (by omega)]
    obtain ⟨later, few⟩ := ih (by omega)
    have sum : bits + 5 = 5 + bits := Nat.add_comm bits 5
    refine ⟨?_, few⟩
    rw [base32Bits_letter32, List.append_assoc, later, shifted]
    exact (sum ▸ bitsOf_add 5 bits buffer.toNat).symm
  | case2 bits few =>
    exact ⟨rfl, Nat.lt_of_not_le fun many => few (bits - 5) (by omega)⟩

/-- The encoder writes the bits that wait in the buffer and then those of the bytes, filled
up with zeros within the last letter. -/
theorem base32Bits_encode32 {bits : Nat} (pending : bits < 5) (buffer : UInt64) (data : Bytes) :
    ∃ zeros < 5, base32Bits (encode32 buffer bits data) =
      bitsOf bits buffer.toNat ++ bytesToBits data ++ List.replicate zeros false := by
  induction data generalizing bits buffer with
  | nil =>
    rw [encode32]
    by_cases waiting : 0 < bits
    · refine ⟨5 - bits, by omega, ?_⟩
      have filled := bitsOf_push (Nat.two_pow_pos (5 - bits)) (by omega : bits + (5 - bits) ≤ 64)
        buffer.toNat
      have whole : bits + (5 - bits) = 5 := Nat.add_sub_cancel' (Nat.le_of_lt pending)
      rw [Nat.or_zero, bitsOf_zero, whole] at filled
      rw [if_pos waiting, base32Bits_letter32, UInt64.toNat_shiftLeft, toNat_shift (by omega), filled]
      simp [base32Bits, bytesToBits]
    · obtain rfl : bits = 0 := by omega
      exact ⟨0, by decide, rfl⟩
  | cons d rest ih =>
    have pushed : bitsOf (bits + 8) (buffer <<< 8 ||| d.toUInt64).toNat =
        bitsOf bits buffer.toNat ++ bitsOf 8 d.toNat := by
      rw [UInt64.toNat_or, UInt64.toNat_shiftLeft, UInt8.toNat_toUInt64]
      exact bitsOf_push d.toNat_lt (by omega) _
    rw [encode32]
    generalize buffer <<< 8 ||| d.toUInt64 = next at pushed ⊢
    obtain ⟨drained, few⟩ := base32Bits_drain next (by omega : bits + 8 < 64)
    obtain ⟨zeros, fill, later⟩ := ih few next
    refine ⟨zeros, fill, ?_⟩
    calc base32Bits ((drain next (bits + 8)).1 ++ encode32 next (drain next (bits + 8)).2 rest)
        = (base32Bits (drain next (bits + 8)).1 ++
            bitsOf (drain next (bits + 8)).2 next.toNat) ++
              bytesToBits rest ++ List.replicate zeros false := by
          rw [base32Bits, List.flatMap_append, ← base32Bits, ← base32Bits, later]
          simp only [List.append_assoc]
      _ = bitsOf bits buffer.toNat ++ bytesToBits (d :: rest) ++ List.replicate zeros false := by
          rw [drained, pushed]
          simp only [bytesToBits, List.flatMap_cons, List.append_assoc]

theorem encode32_mem (buffer : UInt64) (bits : Nat) (data : Bytes) :
    ∀ c ∈ encode32 buffer bits data, c ∈ base32Alphabet := by
  have drained (buffer : UInt64) (bits : Nat) :
      ∀ c ∈ (drain buffer bits).1, c ∈ base32Alphabet := by
    fun_induction drain buffer bits with
    | case1 bits ih => exact List.forall_mem_cons.mpr ⟨letter32_mem _, ih⟩
    | case2 => simp
  induction data generalizing buffer bits with
  | nil =>
    rw [encode32]
    split
    · simpa using letter32_mem _
    · simp
  | cons d rest ih =>
    rw [encode32, List.forall_mem_append]
    exact ⟨drained _ _, ih _ _⟩

theorem length_base32Bits (text : Bytes) : (base32Bits text).length = 5 * text.length := by
  induction text with
  | nil => rfl
  | cons c text ih =>
    rw [base32Bits, List.flatMap_cons, List.length_append, length_bitsOf, List.length_cons]
    rw [base32Bits] at ih
    omega

/-- The bits of the bytes, then fewer than five zeros. -/
theorem base32Bits_b32Unpadded (x : Bytes) :
    ∃ zeros < 5, base32Bits (b32Unpadded x) = bytesToBits x ++ List.replicate zeros false := by
  obtain ⟨zeros, few, bits⟩ := base32Bits_encode32 (show 0 < 5 by decide) 0 x
  exact ⟨zeros, few, bits⟩

theorem length_b32Unpadded (x : Bytes) : (b32Unpadded x).length = (8 * x.length + 4) / 5 := by
  obtain ⟨zeros, few, bits⟩ := base32Bits_b32Unpadded x
  have lengths := congrArg List.length bits
  rw [length_base32Bits, List.length_append, length_bytesToBits, List.length_replicate] at lengths
  omega

theorem base32Decode_b32Unpadded (x : Bytes) : base32Decode (b32Unpadded x) = x := by
  obtain ⟨zeros, few, bits⟩ := base32Bits_b32Unpadded x
  rw [base32Decode, bits]
  exact bitsToBytes_bytesToBits x (by rw [List.length_replicate]; omega)

/-- `b32Unpadded` is base32 without padding. -/
theorem b32Unpadded_exact :
    (∀ x, (b32Unpadded x).length = (8 * x.length + 4) / 5 ∧
      (∀ c ∈ b32Unpadded x, c ∈ base32Alphabet) ∧
      (∃ zeros < 5, base32Bits (b32Unpadded x) = bytesToBits x ++ List.replicate zeros false) ∧
      base32Decode (b32Unpadded x) = x) ∧
    ∀ x y, x.length = y.length → x ≠ y → b32Unpadded x ≠ b32Unpadded y := by
  refine ⟨fun x => ⟨length_b32Unpadded x, encode32_mem 0 0 x, base32Bits_b32Unpadded x,
    base32Decode_b32Unpadded x⟩, fun x y _ distinct same => distinct ?_⟩
  calc x = base32Decode (b32Unpadded x) := (base32Decode_b32Unpadded x).symm
    _ = base32Decode (b32Unpadded y) := by rw [same]
    _ = y := base32Decode_b32Unpadded y

end ShadowSe
