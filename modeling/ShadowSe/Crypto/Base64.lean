import ShadowSe.Support.BitText
import ShadowSe.Text.Bytes

namespace ShadowSe

open Support

def kBase64Alphabet : Bytes :=
  ascii "ABCDEFGHIJKLMNOPQRSTUVWXYZabcdefghijklmnopqrstuvwxyz0123456789-_"

def kB64 : Bytes :=
  ascii "ABCDEFGHIJKLMNOPQRSTUVWXYZabcdefghijklmnopqrstuvwxyz0123456789+/"

/-- The letter of the low six bits. -/
def letter64 (alphabet : Bytes) (v : UInt32) : UInt8 :=
  alphabet.getD (v &&& 63).toNat 0

/-- The loop over groups of three bytes and its two tails. -/
def encode64 (alphabet : Bytes) : Bytes → Bytes
  | a :: b :: c :: rest =>
    let v := a.toUInt32 <<< 16 ||| b.toUInt32 <<< 8 ||| c.toUInt32
    letter64 alphabet (v >>> 18) :: letter64 alphabet (v >>> 12) ::
      letter64 alphabet (v >>> 6) :: letter64 alphabet v :: encode64 alphabet rest
  | [a, b] =>
    let v := a.toUInt32 <<< 16 ||| b.toUInt32 <<< 8
    [letter64 alphabet (v >>> 18), letter64 alphabet (v >>> 12), letter64 alphabet (v >>> 6)]
  | [a] =>
    let v := a.toUInt32 <<< 16
    [letter64 alphabet (v >>> 18), letter64 alphabet (v >>> 12)]
  | [] => []

def toBase64 (data : Bytes) : Bytes :=
  encode64 kBase64Alphabet data

def b64Unpadded (data : Bytes) : Bytes :=
  encode64 kB64 data

/-- `none` is the -1 of the source. -/
def base64Value (c : UInt8) : Option UInt32 :=
  if 65 ≤ c ∧ c ≤ 90 then some (c - 65).toUInt32
  else if 97 ≤ c ∧ c ≤ 122 then some (c - 97 + 26).toUInt32
  else if 48 ≤ c ∧ c ≤ 57 then some (c - 48 + 52).toUInt32
  else if c = 45 ∨ c = 43 then some 62
  else if c = 95 ∨ c = 47 then some 63
  else none

/-- The loop of `fromBase64`, with what it appends to its output. -/
def decode64 (buffer : UInt32) (bits : Nat) : Bytes → Bytes
  | [] => []
  | c :: rest =>
    if c = 61 then []
    else match base64Value c with
      | none => decode64 buffer bits rest
      | some v =>
        let buffer := buffer <<< 6 ||| v
        if 8 ≤ bits + 6 then
          (buffer >>> UInt32.ofNat (bits + 6 - 8) &&& 0xFF).toUInt8 ::
            decode64 buffer (bits + 6 - 8) rest
        else decode64 buffer (bits + 6) rest

def fromBase64 (b64 : Bytes) : Bytes :=
  decode64 0 0 b64

/-- The six bits of each letter up to the first `=`. -/
def base64Bits (text : Bytes) : List Bool :=
  ((text.takeWhile (· != 61)).filterMap base64Value).flatMap fun v => bitsOf 6 v.toNat

private theorem base64Value_table : ∀ c : UInt8, (base64Value c).all (·.toNat < 2 ^ 6) = true := by
  apply forall_byte
  decide +kernel

theorem base64Value_small {c : UInt8} {v : UInt32} (value : base64Value c = some v) :
    v.toNat < 2 ^ 6 := by
  have small := base64Value_table c
  rw [value] at small
  exact of_decide_eq_true small

theorem base64Bits_stop (text : Bytes) : base64Bits (61 :: text) = [] :=
  rfl

private theorem takeWhile_noStop {c : UInt8} (noStop : c ≠ 61) (text : Bytes) :
    (c :: text).takeWhile (· != 61) = c :: text.takeWhile (· != 61) := by
  rw [List.takeWhile_cons, if_pos (bne_iff_ne.mpr noStop)]

theorem base64Bits_skip {c : UInt8} (noStop : c ≠ 61) (foreign : base64Value c = none)
    (text : Bytes) : base64Bits (c :: text) = base64Bits text := by
  rw [base64Bits, takeWhile_noStop noStop, List.filterMap_cons_none foreign]
  rfl

theorem base64Bits_letter {c : UInt8} {v : UInt32} (value : base64Value c = some v) (text : Bytes) :
    base64Bits (c :: text) = bitsOf 6 v.toNat ++ base64Bits text := by
  have noStop : c ≠ 61 := by
    rintro rfl
    cases value
  rw [base64Bits, takeWhile_noStop noStop, List.filterMap_cons_some value]
  rfl

private theorem toNat_lowByte {n : Nat} (small : n < 32) (buffer : UInt32) :
    (buffer >>> UInt32.ofNat n &&& 0xFF).toUInt8.toNat = buffer.toNat >>> n % 2 ^ 8 := by
  have position : (UInt32.ofNat n).toNat = n :=
    UInt32.toNat_ofNat_of_lt' (Nat.lt_trans small (by decide))
  have mask : (0xFF : UInt32).toNat = 2 ^ 8 - 1 := rfl
  rw [UInt32.toNat_toUInt8, UInt32.toNat_and, UInt32.toNat_shiftRight, position, mask,
    Nat.and_two_pow_sub_one_eq_mod, Nat.mod_mod, Nat.mod_eq_of_lt small]

/-- The decoder reads the bits that wait in the buffer and then those of the text. -/
theorem decode64_eq {bits : Nat} (pending : bits < 8) (buffer : UInt32) (text : Bytes) :
    decode64 buffer bits text = bitsToBytes (bitsOf bits buffer.toNat ++ base64Bits text) := by
  induction text generalizing bits buffer with
  | nil =>
    refine (bitsToBytes_short ?_).symm
    simpa [base64Bits] using pending
  | cons c rest ih =>
    by_cases stop : c = 61
    · rw [stop, base64Bits_stop, List.append_nil, bitsToBytes_short (by simpa using pending)]
      rfl
    · rw [decode64, if_neg stop]
      cases value : base64Value c with
      | none => rw [base64Bits_skip stop value, ih pending]
      | some v =>
        have pushed : bitsOf (bits + 6) (buffer <<< 6 ||| v).toNat =
            bitsOf bits buffer.toNat ++ bitsOf 6 v.toNat := by
          rw [UInt32.toNat_or, UInt32.toNat_shiftLeft]
          exact bitsOf_push (base64Value_small value) (by omega) _
        rw [base64Bits_letter value, ← List.append_assoc, ← pushed]
        dsimp only
        generalize buffer <<< 6 ||| v = buffer
        by_cases full : 8 ≤ bits + 6
        · obtain ⟨left, room⟩ := Nat.exists_eq_add_of_le' full
          have byte := toNat_lowByte (show left < 32 by omega) buffer
          rw [if_pos full, room, Nat.add_sub_cancel, ih (by omega), Nat.add_comm, bitsOf_add,
            List.append_assoc, ← bitsOf_mod (Nat.le_refl 8) (_ >>> left), ← byte, bitsToBytes_cons]
        · rw [if_neg full, ih (by omega)]

theorem fromBase64_eq (text : Bytes) : fromBase64 text = bitsToBytes (base64Bits text) :=
  decode64_eq (by decide) 0 text

/-- An alphabet in which each letter has its place as its value. -/
def Letters (alphabet : Bytes) : Prop :=
  ∀ v < 64, base64Value (alphabet.getD v 0) = some (UInt32.ofNat v)

theorem letters_kBase64Alphabet : Letters kBase64Alphabet := by
  unfold Letters
  decide +kernel

theorem letters_kB64 : Letters kB64 := by
  unfold Letters
  decide +kernel

theorem base64Bits_letter64 {alphabet : Bytes} (letters : Letters alphabet) (v : UInt32)
    (text : Bytes) :
    base64Bits (letter64 alphabet v :: text) = bitsOf 6 v.toNat ++ base64Bits text := by
  have low : (v &&& 63).toNat = v.toNat % 2 ^ 6 := by
    rw [UInt32.toNat_and, show (63 : UInt32).toNat = 2 ^ 6 - 1 from rfl,
      Nat.and_two_pow_sub_one_eq_mod]
  have small : v.toNat % 2 ^ 6 < 64 := Nat.mod_lt _ (by decide)
  have value := letters (v &&& 63).toNat (low ▸ small)
  rw [letter64, base64Bits_letter value, UInt32.ofNat_toNat, low, bitsOf_mod (Nat.le_refl 6)]

private theorem bitsOf_quad (v : UInt32) :
    bitsOf 6 (v >>> 18).toNat ++ (bitsOf 6 (v >>> 12).toNat ++
      (bitsOf 6 (v >>> 6).toNat ++ bitsOf 6 v.toNat)) = bitsOf 24 v.toNat := by
  have first := bitsOf_add 6 18 v.toNat
  have second := bitsOf_add 6 12 v.toNat
  have third := bitsOf_add 6 6 v.toNat
  rw [first, second, third]
  simp only [UInt32.toNat_shiftRight]
  rfl

private theorem bitsOf_group (a b c : UInt8) :
    bitsOf 24 (a.toUInt32 <<< 16 ||| b.toUInt32 <<< 8 ||| c.toUInt32).toNat =
      bytesToBits [a, b, c] := by
  have above (d : UInt8) {bit : Nat} (high : 8 ≤ bit) : d.toNat.testBit bit = false :=
    Nat.testBit_lt_two_pow (Nat.lt_of_lt_of_le d.toNat_lt (Nat.pow_le_pow_right (by decide) high))
  have value : (a.toUInt32 <<< 16 ||| b.toUInt32 <<< 8 ||| c.toUInt32).toNat =
      a.toNat <<< 16 % 2 ^ 32 ||| b.toNat <<< 8 % 2 ^ 32 ||| c.toNat := by
    simp only [UInt32.toNat_or, UInt32.toNat_shiftLeft, UInt8.toNat_toUInt32]
    rfl
  have bytes : bytesToBits [a, b, c] =
      bitsOf 8 a.toNat ++ (bitsOf 8 b.toNat ++ bitsOf 8 c.toNat) := by
    simp [bytesToBits]
  rw [value, bytes, bitsOf_add 8 16, bitsOf_add 8 8]
  refine congrArg₂ _ (bitsOf_congr fun bit below => ?_)
    (congrArg₂ _ (bitsOf_congr fun bit below => ?_) (bitsOf_congr fun bit below => ?_)) <;>
  simp only [Nat.testBit_shiftRight, Nat.testBit_or, Nat.testBit_mod_two_pow,
    Nat.testBit_shiftLeft]
  · simp [above b (show 8 ≤ 16 + bit - 8 by omega), above c (show 8 ≤ 16 + bit by omega),
      show 16 + bit < 32 by omega]
  · simp [above c (show 8 ≤ 8 + bit by omega), show 8 + bit < 32 by omega,
      show ¬ 16 ≤ 8 + bit by omega]
  · simp [show ¬ 16 ≤ bit by omega, show ¬ 8 ≤ bit by omega]

/-- The letters carry the bits of the bytes, filled up with zeros within the last letter. -/
theorem base64Bits_encode64 {alphabet : Bytes} (letters : Letters alphabet) (data : Bytes) :
    ∃ zeros < 6, base64Bits (encode64 alphabet data) =
      bytesToBits data ++ List.replicate zeros false := by
  induction data using encode64.induct with
  | case1 a b c rest ih =>
    obtain ⟨zeros, few, bits⟩ := ih
    refine ⟨zeros, few, ?_⟩
    have split : bytesToBits (a :: b :: c :: rest) = bytesToBits [a, b, c] ++ bytesToBits rest := by
      simp [bytesToBits]
    rw [encode64]
    simp only [base64Bits_letter64 letters, bits]
    rw [split, ← bitsOf_group, ← bitsOf_quad]
    simp only [List.append_assoc]
  | case2 a b =>
    refine ⟨2, by decide, ?_⟩
    have padded : bytesToBits [a, b, 0] =
        (bytesToBits [a, b] ++ List.replicate 2 false) ++ List.replicate 6 false := by
      simp [bytesToBits, bitsOf_zero]
    have group := bitsOf_group a b 0
    rw [← bitsOf_quad, padded, show (0 : UInt8).toUInt32 = 0 from rfl, UInt32.or_zero,
      ← List.append_assoc, ← List.append_assoc] at group
    rw [encode64]
    simp only [base64Bits_letter64 letters, ← List.append_assoc]
    exact (List.append_nil _).trans (List.append_inj_left' group (by simp))
  | case3 a =>
    refine ⟨4, by decide, ?_⟩
    have padded : bytesToBits [a, 0, 0] =
        (bytesToBits [a] ++ List.replicate 4 false) ++ List.replicate 12 false := by
      simp [bytesToBits, bitsOf_zero]
    have group := bitsOf_group a 0 0
    rw [← bitsOf_quad, padded, show (0 : UInt8).toUInt32 = 0 from rfl, UInt32.zero_shiftLeft,
      UInt32.or_zero, UInt32.or_zero, ← List.append_assoc] at group
    rw [encode64]
    simp only [base64Bits_letter64 letters, ← List.append_assoc]
    exact (List.append_nil _).trans (List.append_inj_left' group (by simp))
  | case4 => exact ⟨0, by decide, rfl⟩

/-- `Noisy text noisy`: characters that are in neither alphabet and not `=` are inserted. -/
inductive Noisy : Bytes → Bytes → Prop
  | nil : Noisy [] []
  | keep {text noisy : Bytes} (c : UInt8) (rest : Noisy text noisy) : Noisy (c :: text) (c :: noisy)
  | insert {text noisy : Bytes} {c : UInt8}
      (foreign : c ∉ kBase64Alphabet ∧ c ∉ kB64 ∧ c ≠ 61) (rest : Noisy text noisy) :
      Noisy text (c :: noisy)

/-- Nothing, or padding with whatever follows its first `=`. -/
def Padding (tail : Bytes) : Prop :=
  tail = [] ∨ ∃ more, tail = 61 :: more

private theorem letters_table : ∀ c : UInt8, (base64Value c).all (fun v =>
    kBase64Alphabet[v.toNat]? == some c || kB64[v.toNat]? == some c) = true := by
  apply forall_byte
  decide +kernel

theorem base64Value_foreign {c : UInt8} (web : c ∉ kBase64Alphabet) (plus : c ∉ kB64) :
    base64Value c = none := by
  cases value : base64Value c with
  | none => rfl
  | some v =>
    have letter := letters_table c
    rw [value, Option.all_some, Bool.or_eq_true, beq_iff_eq, beq_iff_eq] at letter
    rcases letter with letter | letter
    · exact absurd (List.mem_of_getElem? letter) web
    · exact absurd (List.mem_of_getElem? letter) plus

theorem Noisy.base64Bits_eq {text noisy : Bytes} (inserted : Noisy text noisy) {tail : Bytes}
    (padding : Padding tail) : base64Bits (noisy ++ tail) = base64Bits text := by
  induction inserted with
  | nil =>
    rcases padding with rfl | ⟨more, rfl⟩
    · rfl
    · rfl
  | keep c _ ih =>
    by_cases stop : c = 61
    · rw [stop]
      rfl
    · rw [List.cons_append]
      cases value : base64Value c with
      | none => rw [base64Bits_skip stop value, base64Bits_skip stop value, ih]
      | some v => rw [base64Bits_letter value, base64Bits_letter value, ih]
  | @insert _ noisy c foreign _ ih =>
    have skipped := base64Value_foreign foreign.1 foreign.2.1
    rw [List.cons_append, base64Bits_skip foreign.2.2 skipped, ih]

theorem fromBase64_encode64 {alphabet : Bytes} (letters : Letters alphabet) {x noisy tail : Bytes}
    (inserted : Noisy (encode64 alphabet x) noisy) (padding : Padding tail) :
    fromBase64 (noisy ++ tail) = x := by
  obtain ⟨zeros, few, bits⟩ := base64Bits_encode64 letters x
  rw [fromBase64_eq, inserted.base64Bits_eq padding, bits]
  exact bitsToBytes_bytesToBits x (by rw [List.length_replicate]; omega)

theorem Noisy.refl (text : Bytes) : Noisy text text := by
  induction text with
  | nil => exact .nil
  | cons c _ ih => exact .keep c ih

/-- Both encodings are read back, with foreign characters among them and padding behind. -/
theorem fromBase64_exact (x : Bytes) :
    fromBase64 (toBase64 x) = x ∧ fromBase64 (b64Unpadded x) = x ∧
      ∀ noisy tail, Noisy (toBase64 x) noisy ∨ Noisy (b64Unpadded x) noisy → Padding tail →
        fromBase64 (noisy ++ tail) = x := by
  have plain {alphabet : Bytes} (letters : Letters alphabet) :
      fromBase64 (encode64 alphabet x) = x := by
    have read := fromBase64_encode64 letters (.refl (encode64 alphabet x)) (.inl rfl)
    rwa [List.append_nil] at read
  refine ⟨plain letters_kBase64Alphabet, plain letters_kB64, ?_⟩
  intro noisy tail inserted padding
  rcases inserted with web | plus
  · exact fromBase64_encode64 letters_kBase64Alphabet web padding
  · exact fromBase64_encode64 letters_kB64 plus padding

end ShadowSe
