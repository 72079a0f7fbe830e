import ShadowSe.Crawl.Bloom
import ShadowSe.Support.Binary64
import ShadowSe.Support.WordBits

namespace ShadowSe.BloomFilter

open Support

/-- The filter for the size and the rounded number of probes that the formula gives; none
where a conversion is undefined. -/
def construct (hash : Bytes → UInt64) (mBits : Binary64) (rounded : UInt64 → Binary64) :
    Option BloomFilter := do
  let size ← mBits.toSize
  let m_ := if size = 0 then 1 else size
  let k := rounded m_
  let probes ← (if Binary64.natLess 1 k then k else .ofInt 1).toSize
  some { hash, m_, k_ := probes.toNat, bits_ := List.replicate ((m_ + 63) / 64).toNat 0 }

private theorem toNat_words {m : UInt64} (room : m.toNat ≤ 2 ^ 64 - 2 ^ 11) :
    ((m + 63) / 64).toNat = (m.toNat + 63) / 64 := by
  have sum : (m + 63).toNat = m.toNat + 63 := by
    rw [UInt64.toNat_add, show (63 : UInt64).toNat = 63 from rfl]
    omega
  rw [UInt64.toNat_div, sum]
  rfl

/-- The constructor makes filters with a bit and a probe at least, and computes their number of
words without overflow. -/
theorem construct_eq_create {hash : Bytes → UInt64} {mBits : Binary64}
    {rounded : UInt64 → Binary64} {filter : BloomFilter}
    (constructed : construct hash mBits rounded = some filter) :
    1 ≤ filter.m_ ∧ 1 ≤ filter.k_ ∧ filter = create hash filter.m_.toNat filter.k_ := by
  simp only [construct, Option.bind_eq_bind, Option.bind_eq_some_iff, Option.some.injEq]
    at constructed
  obtain ⟨size, converted, probes, counted, rfl⟩ := constructed
  have small := Binary64.toSize_le converted
  generalize shape : (if size = 0 then 1 else size) = m_ at counted ⊢
  have positive : 1 ≤ m_.toNat ∧ m_.toNat ≤ 2 ^ 64 - 2 ^ 11 := by
    rw [← shape]
    by_cases none : size = 0
    · rw [if_pos none]
      decide
    · rw [if_neg none]
      have value : size.toNat ≠ 0 := fun zero => none (UInt64.toNat_inj.mp zero)
      omega
  have probing : 1 ≤ probes.toNat := by
    split at counted
    · next more => exact Binary64.le_toSize more counted
    · have single : (Binary64.ofInt 1).toSize = some 1 := by decide +kernel
      rw [← Option.some.inj (single.symm.trans counted)]
      decide
  refine ⟨UInt64.le_iff_toNat_le.mpr positive.1, probing, ?_⟩
  simp only [create, toNat_words positive.2, UInt64.ofNat_toNat]

section
variable (second : Bytes → UInt64)

/-- `probe` with any hash in the place of `fnv1a`. -/
def probeWith (filter : BloomFilter) (key : Bytes) (i : Nat) : Nat :=
  let h1 := filter.hash key
  let h2 := if second key = 0 then 1 else second key
  ((h1 + UInt64.ofNat i * h2) % filter.m_).toNat

def probes (filter : BloomFilter) (key : Bytes) : List Nat :=
  (List.range filter.k_).map (filter.probeWith second key)

def insertWith (filter : BloomFilter) (key : Bytes) : BloomFilter :=
  { filter with bits_ := (filter.probes second key).foldl setBit filter.bits_ }

def maybeContainsWith (filter : BloomFilter) (key : Bytes) : Bool :=
  (filter.probes second key).all (testBit filter.bits_)

end

theorem insertWith_fnv1a (filter : BloomFilter) (key : Bytes) :
    filter.insertWith fnv1a key = filter.insert key := by
  rw [insertWith, probes, List.foldl_map]
  rfl

theorem maybeContainsWith_fnv1a (filter : BloomFilter) (key : Bytes) :
    filter.maybeContainsWith fnv1a key = filter.maybeContains key := by
  rw [maybeContainsWith, probes, List.all_map]
  rfl

inductive Call where
  | insert (key : Bytes)
  | clear

def call (second : Bytes → UInt64) (filter : BloomFilter) : Call → BloomFilter
  | .insert key => filter.insertWith second key
  | .clear => filter.clear

/-- The keys inserted since the last `clear`, after one more call. -/
def inserted (keys : List Bytes) : Call → List Bytes
  | .insert key => key :: keys
  | .clear => []

def run (second : Bytes → UInt64) (filter : BloomFilter) (calls : List Call) : BloomFilter :=
  calls.foldl (call second) filter

def sinceClear (calls : List Call) : List Bytes :=
  calls.foldl inserted []

structure Sound (second : Bytes → UInt64) (filter : BloomFilter) (keys : List Bytes) :
    Prop where
  /-- Every bit has a word. -/
  room : 1 ≤ filter.m_ ∧ filter.m_.toNat ≤ 64 * filter.bits_.length
  probing : 1 ≤ filter.k_
  present : ∀ key ∈ keys, filter.maybeContainsWith second key = true

variable {second : Bytes → UInt64} {filter : BloomFilter} {keys : List Bytes}

theorem Sound.probeWith_word (sound : Sound second filter keys) (key : Bytes) (i : Nat) :
    filter.probeWith second key i / 64 < filter.bits_.length := by
  obtain ⟨positive, words⟩ := sound.room
  rw [UInt64.le_iff_toNat_le, UInt64.toNat_one] at positive
  have below : filter.probeWith second key i < filter.m_.toNat := by
    rw [probeWith, UInt64.toNat_mod]
    exact Nat.mod_lt _ positive
  omega

theorem Sound.insertWith (sound : Sound second filter keys) (key : Bytes) :
    Sound second (filter.insertWith second key) (key :: keys) := by
  have inside : ∀ bit ∈ filter.probes second key, bit / 64 < filter.bits_.length := by
    intro bit member
    obtain ⟨i, _, rfl⟩ := List.mem_map.mp member
    exact sound.probeWith_word key i
  have bits (bit : Nat) : testBit (filter.insertWith second key).bits_ bit =
      ((filter.probes second key).contains bit || testBit filter.bits_ bit) :=
    testBit_setBits inside bit
  refine ⟨?_, sound.probing, ?_⟩
  · have length : (filter.insertWith second key).bits_.length = filter.bits_.length :=
      length_setBits ..
    rw [length]
    exact sound.room
  · intro other member
    refine List.all_eq_true.mpr fun bit probed => ?_
    rw [bits, Bool.or_eq_true, List.contains_iff_mem]
    rcases List.mem_cons.mp member with rfl | earlier
    · exact .inl probed
    · exact .inr (List.all_eq_true.mp (sound.present other earlier) bit probed)

theorem Sound.maybeContainsWith_clear (sound : Sound second filter keys) (key : Bytes) :
    filter.clear.maybeContainsWith second key = false := by
  have zeros : filter.clear.bits_ = List.replicate filter.bits_.length 0 := List.map_const' ..
  have first : filter.probeWith second key 0 ∈ filter.clear.probes second key :=
    List.mem_map.mpr ⟨0, List.mem_range.mpr sound.probing, rfl⟩
  rw [maybeContainsWith, zeros, List.all_eq_false]
  exact ⟨_, first, by simp⟩

theorem Sound.clear (sound : Sound second filter keys) : Sound second filter.clear [] where
  room := by simpa [BloomFilter.clear] using sound.room
  probing := sound.probing
  present := by simp

theorem Sound.call (sound : Sound second filter keys) (next : Call) :
    Sound second (filter.call second next) (inserted keys next) := by
  cases next with
  | insert key => exact sound.insertWith key
  | clear => exact sound.clear

theorem Sound.run (sound : Sound second filter keys) (calls : List Call) :
    Sound second (filter.run second calls) (calls.foldl inserted keys) := by
  induction calls generalizing filter keys with
  | nil => exact sound
  | cons next calls ih => exact ih (sound.call next)

theorem Sound.create (hash second : Bytes → UInt64) {m : UInt64} {k : Nat} (bits : 1 ≤ m)
    (probing : 1 ≤ k) : Sound second (create hash m.toNat k) [] where
  room := by
    simp only [BloomFilter.create, UInt64.ofNat_toNat, List.length_replicate]
    exact ⟨bits, by omega⟩
  probing := probing
  present := by simp

/-- There are no false negatives, and no probe outside of the words. -/
theorem run_sound (hash second : Bytes → UInt64) {m : UInt64} {k : Nat} (bits : 1 ≤ m)
    (probing : 1 ≤ k) (calls : List Call) :
    (∀ key ∈ sinceClear calls,
      ((create hash m.toNat k).run second calls).maybeContainsWith second key = true) ∧
    (∀ key i, ((create hash m.toNat k).run second calls).probeWith second key i / 64 <
      ((create hash m.toNat k).run second calls).bits_.length) ∧
    ∀ key, ((create hash m.toNat k).run second calls).clear.maybeContainsWith second key =
      false := by
  have sound := (Sound.create hash second bits probing).run calls
  exact ⟨sound.present, sound.probeWith_word, sound.maybeContainsWith_clear⟩

theorem run_sound_refilled :
    ((create fnv1a (100 : UInt64).toNat 7).run fnv1a [.insert (ascii "http://a/"), .clear,
      .insert (ascii "http://b/")]).maybeContainsWith fnv1a (ascii "http://b/") = true :=
  (run_sound fnv1a fnv1a (by decide) (by decide) _).1 _ (List.mem_singleton.mpr rfl)

end ShadowSe.BloomFilter
