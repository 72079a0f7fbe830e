import ShadowSe.Text.Bytes

/-! The Bloom filter in front of the set of seen URLs. Its geometry comes from a
floating-point formula and one of its hashes from `std::hash`; both are parameters. -/

namespace ShadowSe

structure BloomFilter where
  /-- `std::hash<std::string>`. -/
  hash : Bytes → UInt64
  m_ : UInt64
  k_ : Nat
  bits_ : List UInt64

namespace BloomFilter

/-- FNV-1a, 64 bits. -/
def fnv1a (s : Bytes) : UInt64 :=
  s.foldl (fun hash c => (hash ^^^ c.toUInt64) * 1099511628211) 1469598103934665603

/-- The filter as constructed, with all bits clear. -/
def create (hash : Bytes → UInt64) (m k : Nat) : BloomFilter :=
  { hash, m_ := UInt64.ofNat m, k_ := k, bits_ := List.replicate ((m + 63) / 64) 0 }

/-- The bit that the probe `i` of a key looks at. -/
def probe (filter : BloomFilter) (key : Bytes) (i : Nat) : Nat :=
  let h1 := filter.hash key
  let h2 := if fnv1a key = 0 then 1 else fnv1a key
  ((h1 + UInt64.ofNat i * h2) % filter.m_).toNat

/-- The mask of a bit within its word. -/
def mask (bit : Nat) : UInt64 :=
  1 <<< UInt64.ofNat (bit % 64)

def insert (filter : BloomFilter) (key : Bytes) : BloomFilter :=
  { filter with bits_ := (List.range filter.k_).foldl (fun bits i =>
      let bit := filter.probe key i
      bits.modify (bit / 64) (· ||| mask bit)) filter.bits_ }

def maybeContains (filter : BloomFilter) (key : Bytes) : Bool :=
  (List.range filter.k_).all fun i =>
    let bit := filter.probe key i
    filter.bits_.getD (bit / 64) 0 &&& mask bit != 0

def clear (filter : BloomFilter) : BloomFilter :=
  { filter with bits_ := filter.bits_.map fun _ => 0 }

end BloomFilter

end ShadowSe
