import Mathlib.Data.Nat.Bitwise
import ShadowSe.Index.InvertedIndex

/-! The versioned binary format of a document set, its reader, and the plain
snapshot file. -/

namespace ShadowSe

open Support

def kSnapshotVersion : UInt32 := 1

/-- The characters `SHSE1` and a NUL. -/
def kMagic : Bytes := [83, 72, 83, 69, 49, 0]

def pushU32 (v : UInt32) : Bytes :=
  [(v &&& 0xFF).toUInt8, ((v >>> 8) &&& 0xFF).toUInt8, ((v >>> 16) &&& 0xFF).toUInt8,
    ((v >>> 24) &&& 0xFF).toUInt8]

def pushU8 (v : UInt8) : Bytes :=
  [v]

/-- The length is cast to 32 bits. -/
def pushStr (s : Bytes) : Bytes :=
  pushU32 (UInt32.ofNat s.length) ++ s

/-- The value of the enumeration. -/
def SourceType.toU8 : SourceType → UInt8
  | .clearWeb => 0
  | .onion => 1

def serializeOne (d : Document) : Bytes :=
  pushStr d.url ++ pushStr d.title ++ pushStr d.snippet ++ pushStr d.content ++
    pushU8 d.source.toU8 ++ pushU32 d.depth

def serializeDocuments (docs : List Document) : Bytes :=
  kMagic ++ pushU32 kSnapshotVersion ++ pushU32 (UInt32.ofNat docs.length) ++
    docs.flatMap serializeOne

/-- Addition of two `std::size_t` of `w` bits. -/
def addSize (w a b : Nat) : Nat :=
  (a + b) % 2 ^ w

/-- A larger object than one of `PTRDIFF_MAX` bytes cannot be allocated. -/
def maxObjectSize (w : Nat) : Nat :=
  2 ^ (w - 1) - 1

structure Reader where
  data : Bytes
  pos : Nat := 0

namespace Reader

variable (w : Nat)

def readU8 (r : Reader) : Option (UInt8 × Reader) :=
  if addSize w r.pos 1 > r.data.length then none
  else some (r.data.getD r.pos 0, { r with pos := addSize w r.pos 1 })

def readU32 (r : Reader) : Option (UInt32 × Reader) :=
  if addSize w r.pos 4 > r.data.length then none
  else
    -- The byte at `data.size()` is the terminating NUL.
    let byte := fun i => (r.data.getD (addSize w r.pos i) 0).toUInt32
    some (byte 0 ||| byte 1 <<< 8 ||| byte 2 <<< 16 ||| byte 3 <<< 24,
      { r with pos := addSize w r.pos 4 })

/-- There is no result where the call returns `false` or throws. -/
def readStr (r : Reader) : Option (Bytes × Reader) := do
  let (len, r) ← r.readU32 w
  if addSize w r.pos len.toNat > r.data.length then none
  -- A sum that wraps around passes the test; then `assign` throws before anything is copied.
  else if len.toNat > maxObjectSize w then none
  else some ((r.data.drop r.pos).take len.toNat, { r with pos := addSize w r.pos len.toNat })

/-- The body of the loop over the documents. -/
def readDocument (r : Reader) : Option (Document × Reader) := do
  let (url, r) ← r.readStr w
  let (title, r) ← r.readStr w
  let (snippet, r) ← r.readStr w
  let (content, r) ← r.readStr w
  let (source, r) ← r.readU8 w
  let (depth, r) ← r.readU32 w
  let source := if source = SourceType.onion.toU8 then SourceType.onion else .clearWeb
  some ({ url, title, snippet, content, source, depth }, r)

def readDocuments : Nat → Reader → List Document → Option (List Document)
  | 0, _, out => some out
  | count + 1, r, out => do
    let (d, r) ← r.readDocument w
    readDocuments count r (out ++ [d])

end Reader

/-- `deserializeDocuments` on a target with `w`-bit sizes. Where a call throws the caller gets
the exception, which counts as a body that is not read. -/
def deserializeDocuments (w : Nat) (data : Bytes) : Except Bytes (List Document) :=
  let r : Reader := { data }
  if addSize w r.pos kMagic.length > data.length ∨ data.take kMagic.length ≠ kMagic then
    .error (ascii "not a Shadow SE snapshot (bad magic)")
  else
    match Reader.readU32 w { r with pos := addSize w r.pos kMagic.length } with
    | none => .error (ascii "unsupported snapshot version")
    | some (version, r) =>
      if version ≠ kSnapshotVersion then .error (ascii "unsupported snapshot version")
      else
        match r.readU32 w with
        | none => .error (ascii "corrupt snapshot header")
        | some (count, r) =>
          if count > 10000000 then
            .error (ascii "snapshot declares an implausible document count")
          else
            match r.readDocuments w count.toNat [] with
            | none => .error (ascii "corrupt snapshot body")
            | some out => .ok out

/-- The readable files, by path. -/
abbrev Disk := Table Bytes Bytes

/-- How writing a file ends: it cannot be opened, some of it is lost, or all is kept. -/
inductive WriteOutcome where
  | cannotOpen
  | failed (kept : Bytes)
  | written

def saveSnapshot (disk : Disk) (outcome : WriteOutcome) (path : Bytes) (docs : List Document) :
    Except Bytes Unit × Disk :=
  let data := serializeDocuments docs
  match outcome with
  | .cannotOpen => (.error (ascii "cannot open " ++ path ++ ascii " for writing"), disk)
  | .failed kept => (.error (ascii "failed to write " ++ path), disk.insert path kept)
  | .written => (.ok (), disk.insert path data)

def loadSnapshot (w : Nat) (disk : Disk) (path : Bytes) : Except Bytes (List Document) :=
  match disk.lookup path with
  | none => .error (ascii "cannot open " ++ path ++ ascii " for reading")
  | some data => deserializeDocuments w data

/-- `Engine::saveState`. -/
def Engine.saveState (order : VisitOrder) (ix : InvertedIndex) (disk : Disk)
    (outcome : WriteOutcome) (path : Bytes) : Except Bytes Unit × Disk :=
  saveSnapshot disk outcome path (ix.allDocuments order)

/-- `Engine::loadState`: the index is replaced only after a successful load. -/
def Engine.loadState (w : Nat) (layout : Layout) (ix : InvertedIndex) (disk : Disk)
    (path : Bytes) : Except Bytes Unit × InvertedIndex :=
  match loadSnapshot w disk path with
  | .error err => (.error err, ix)
  | .ok docs => (.ok (), ix.replaceAll layout docs)

/-- The length fields of the format can hold the lengths of the document's texts. -/
structure Document.FitsFormat (d : Document) : Prop where
  url : d.url.length < 2 ^ 32
  title : d.title.length < 2 ^ 32
  snippet : d.snippet.length < 2 ^ 32
  content : d.content.length < 2 ^ 32

/-- The data is no larger than an object of a target with `w`-bit sizes can be. -/
def InMemory (w : Nat) (data : Bytes) : Prop :=
  data.length < 2 ^ (w - 1)

theorem InMemory.lt {w : Nat} {data : Bytes} (inMemory : InMemory w data) :
    data.length < 2 ^ w :=
  Nat.lt_of_lt_of_le inMemory (Nat.pow_le_pow_right (by decide) (Nat.sub_le w 1))

namespace Reader

variable {w : Nat}

/-- A read that consumes exactly `bytes` and yields `value`, wherever they stand in
data that fits in memory. -/
def Consumes {α : Type} (read : Reader → Option (α × Reader)) (w : Nat) (bytes : Bytes)
    (value : α) : Prop :=
  ∀ before rest : Bytes, InMemory w (before ++ (bytes ++ rest)) →
    read ⟨before ++ (bytes ++ rest), before.length⟩ =
      some (value, ⟨(before ++ bytes) ++ rest, (before ++ bytes).length⟩)

private theorem addSize_eq {a b : Nat} (fits : a + b < 2 ^ w) : addSize w a b = a + b :=
  Nat.mod_eq_of_lt fits

theorem readU8_consumes (v : UInt8) : Consumes (readU8 w) w (pushU8 v) v := by
  intro before rest inMemory
  have fits := inMemory.lt
  simp only [pushU8, List.length_append, List.length_singleton] at fits
  have next : addSize w before.length 1 = before.length + 1 := addSize_eq (by omega)
  simp [readU8, pushU8, next]

private theorem join_bytes {n : Nat} (bounded : n < 2 ^ 32) :
    n % 256 ||| (n / 2 ^ 8 % 256) <<< 8 ||| (n / 2 ^ 16 % 256) <<< 16 |||
      (n / 2 ^ 24 % 256) <<< 24 = n := by
  have low : n % 256 ||| (n / 2 ^ 8 % 256) <<< 8 = n % 2 ^ 16 := by
    rw [Nat.or_comm, ← Nat.shiftLeft_add_eq_or_of_lt (b := n % 256) (i := 8) (by omega),
      Nat.shiftLeft_eq]
    omega
  have middle : n % 2 ^ 16 ||| (n / 2 ^ 16 % 256) <<< 16 = n % 2 ^ 24 := by
    rw [Nat.or_comm, ← Nat.shiftLeft_add_eq_or_of_lt (b := n % 2 ^ 16) (i := 16) (by omega),
      Nat.shiftLeft_eq]
    omega
  rw [low, middle, Nat.or_comm, ← Nat.shiftLeft_add_eq_or_of_lt (by omega), Nat.shiftLeft_eq]
  omega

private theorem join_pushed (v : UInt32) :
    let byte := fun u : UInt32 => u % 256 &&& 255
    byte v ||| byte (v >>> 8) <<< 8 ||| byte (v >>> 16) <<< 16 ||| byte (v >>> 24) <<< 24 = v := by
  have masked (n : Nat) : n % 256 &&& 255 = n % 256 := by
    rw [Nat.and_two_pow_sub_one_eq_mod _ 8]
    omega
  have shifted (n k : Nat) (small : k ≤ 24) : (n % 256) <<< k % 4294967296 = (n % 256) <<< k := by
    apply Nat.mod_eq_of_lt
    rw [Nat.shiftLeft_eq]
    calc n % 256 * 2 ^ k < 2 ^ 8 * 2 ^ k :=
          Nat.mul_lt_mul_of_pos_right (by omega) (Nat.two_pow_pos k)
      _ ≤ 2 ^ 8 * 2 ^ 24 := Nat.mul_le_mul_left _ (Nat.pow_le_pow_right (by decide) small)
      _ = 4294967296 := by decide
  apply UInt32.toNat_inj.mp
  simpa [Nat.shiftRight_eq_div_pow, masked, shifted] using join_bytes v.toNat_lt

theorem readU32_consumes (v : UInt32) : Consumes (readU32 w) w (pushU32 v) v := by
  intro before rest inMemory
  have fits := inMemory.lt
  simp only [pushU32, List.length_append, List.length_cons, List.length_nil] at fits
  have offset (i : Nat) (small : i ≤ 4) : addSize w before.length i = before.length + i :=
    addSize_eq (by omega)
  simp [readU32, pushU32, offset, join_pushed]

theorem readStr_consumes {s : Bytes} (short : s.length < 2 ^ 32) :
    Consumes (readStr w) w (pushStr s) s := by
  intro before rest inMemory
  have fits := inMemory.lt
  have length : (UInt32.ofNat s.length).toNat = s.length := Nat.mod_eq_of_lt short
  have allocated : ¬ s.length > maxObjectSize w := by
    unfold InMemory at inMemory
    simp only [pushStr, List.length_append] at inMemory
    unfold maxObjectSize
    omega
  have next : addSize w (before ++ pushU32 (UInt32.ofNat s.length)).length s.length =
      (before ++ pushU32 (UInt32.ofNat s.length)).length + s.length := by
    simp only [pushStr, List.length_append] at fits ⊢
    exact addSize_eq (by omega)
  simp only [pushStr, List.append_assoc] at inMemory ⊢
  simp only [readStr, readU32_consumes _ _ _ inMemory, Option.bind_eq_bind, Option.bind_some,
    length, next, if_neg allocated]
  simp
  omega

theorem readDocument_consumes {d : Document} (texts : d.FitsFormat) :
    Consumes (readDocument w) w (serializeOne d) { d with id := 0 } := by
  intro before rest inMemory
  have source : (if d.source.toU8 = SourceType.onion.toU8 then SourceType.onion
      else .clearWeb) = d.source := by
    cases d.source <;> rfl
  unfold InMemory at inMemory
  simp only [serializeOne, List.append_assoc, List.length_append] at inMemory
  simp only [readDocument, serializeOne, List.append_assoc, Option.bind_eq_bind]
  -- The fields are read in the order in which they were written.
  rw [readStr_consumes texts.url, Option.bind_some, readStr_consumes texts.title, Option.bind_some,
    readStr_consumes texts.snippet, Option.bind_some, readStr_consumes texts.content,
    Option.bind_some, readU8_consumes, Option.bind_some, readU32_consumes, Option.bind_some, source]
  · simp
  all_goals simp only [InMemory, List.length_append]; omega

theorem readDocuments_flatMap {docs : List Document} (texts : ∀ d ∈ docs, d.FitsFormat)
    (before : Bytes) (out : List Document)
    (inMemory : InMemory w (before ++ docs.flatMap serializeOne)) :
    readDocuments w docs.length ⟨before ++ docs.flatMap serializeOne, before.length⟩ out =
      some (out ++ docs.map fun d => { d with id := 0 }) := by
  induction docs generalizing before out with
  | nil => simp [readDocuments]
  | cons d rest ih =>
    rw [List.flatMap_cons] at inMemory ⊢
    have read :=
      readDocument_consumes (texts d (by simp)) before (rest.flatMap serializeOne) inMemory
    have later := ih (fun other member => texts other (List.mem_cons_of_mem _ member))
      (before ++ serializeOne d) (out ++ [{ d with id := 0 }]) (by simpa using inMemory)
    simp only [List.length_cons, readDocuments, read, Option.bind_eq_bind, Option.bind_some, later]
    simp

end Reader

/-- The sizes that the loader accepts. -/
structure FitsFormat (docs : List Document) : Prop where
  count : docs.length ≤ 10000000
  texts : ∀ d ∈ docs, d.FitsFormat

theorem length_serializeOne (d : Document) : (serializeOne d).length =
    21 + d.url.length + d.title.length + d.snippet.length + d.content.length := by
  simp only [serializeOne, pushStr, pushU32, pushU8, List.length_append, List.length_cons,
    List.length_nil]
  omega

private theorem length_bodies {docs : List Document} (texts : ∀ d ∈ docs, d.FitsFormat) :
    (docs.flatMap serializeOne).length ≤ docs.length * 2 ^ 35 := by
  induction docs with
  | nil => simp
  | cons d rest ih =>
    have later := ih fun other member => texts other (List.mem_cons_of_mem _ member)
    obtain ⟨url, title, snippet, content⟩ := texts d (by simp)
    rw [List.flatMap_cons, List.length_append, length_serializeOne, List.length_cons]
    omega

/-- Serialized data within the limits is far from filling a 64-bit address space. -/
theorem length_serializeDocuments_lt {docs : List Document} (fits : FitsFormat docs) :
    (serializeDocuments docs).length < 2 ^ 63 := by
  have whole := length_bodies fits.texts
  have count := fits.count
  simp only [serializeDocuments, kMagic, pushU32, List.length_append, List.length_cons,
    List.length_nil]
  omega

/-- Reading back what was written gives the documents, without their ids. -/
theorem deserializeDocuments_serialize {docs : List Document} (fits : FitsFormat docs) :
    deserializeDocuments 64 (serializeDocuments docs) =
      .ok (docs.map fun d => { d with id := 0 }) := by
  have inMemory : InMemory 64 (serializeDocuments docs) := length_serializeDocuments_lt fits
  have count := fits.count
  have counted : (UInt32.ofNat docs.length).toNat = docs.length :=
    Nat.mod_eq_of_lt (by omega)
  have inLimit : ¬ UInt32.ofNat docs.length > 10000000 := by
    rw [gt_iff_lt, UInt32.lt_iff_toNat_lt, counted]
    simpa using count
  have shape : serializeDocuments docs = kMagic ++ (pushU32 kSnapshotVersion ++
      (pushU32 (UInt32.ofNat docs.length) ++ docs.flatMap serializeOne)) := by
    simp [serializeDocuments]
  rw [shape] at inMemory ⊢
  have version := Reader.readU32_consumes kSnapshotVersion kMagic _ inMemory
  have size := Reader.readU32_consumes (w := 64) (UInt32.ofNat docs.length)
    (kMagic ++ pushU32 kSnapshotVersion) (docs.flatMap serializeOne)
    (by simpa only [List.append_assoc] using inMemory)
  have read := Reader.readDocuments_flatMap (w := 64) fits.texts
    (kMagic ++ pushU32 kSnapshotVersion ++ pushU32 (UInt32.ofNat docs.length)) []
    (by simpa only [List.append_assoc] using inMemory)
  have start : addSize 64 0 kMagic.length = kMagic.length := rfl
  simp only [deserializeDocuments, start]
  rw [if_neg (by simp), version]
  simp only [ne_eq, not_true_eq_false, ↓reduceIte, size, inLimit, counted]
  rw [read]
  rfl

end ShadowSe
