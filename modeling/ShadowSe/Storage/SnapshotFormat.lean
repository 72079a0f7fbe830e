import ShadowSe.Storage.Snapshot

namespace ShadowSe

/-- A target has sizes of at least 32 bits, so that a short step from any position does not
wrap around. -/
theorem InMemory.add_lt {w : Nat} {data : Bytes} (inMemory : InMemory w data) (wide : 32 ≤ w) :
    data.length + 6 < 2 ^ w := by
  have double : 2 ^ w = 2 * 2 ^ (w - 1) := by
    rw [← Nat.pow_succ', Nat.succ_eq_add_one, Nat.sub_add_cancel (Nat.le_trans (by decide) wide)]
  have half : 2 ^ 31 ≤ 2 ^ (w - 1) := Nat.pow_le_pow_right (by decide) (by omega)
  unfold InMemory at inMemory
  omega

/-- The fields of a document as they are laid out, with any byte for the source. -/
structure RawDocument where
  url : Bytes
  title : Bytes
  snippet : Bytes
  content : Bytes
  source : UInt8
  depth : UInt32

namespace RawDocument

def bytes (raw : RawDocument) : Bytes :=
  pushStr raw.url ++ (pushStr raw.title ++ (pushStr raw.snippet ++ (pushStr raw.content ++
    (pushU8 raw.source ++ pushU32 raw.depth))))

/-- The document that is read. -/
def toDocument (raw : RawDocument) : Document where
  url := raw.url
  title := raw.title
  snippet := raw.snippet
  content := raw.content
  source := if raw.source = SourceType.onion.toU8 then .onion else .clearWeb
  depth := raw.depth

end RawDocument

/-- A reader between what it has passed and what is left. -/
def Reader.between (before rest : Bytes) : Reader :=
  ⟨before ++ rest, before.length⟩

namespace Reader

variable {w : Nat}

theorem Consumes.between {α : Type} {read : Reader → Option (α × Reader)} {bytes : Bytes}
    {value : α} (consumes : Consumes read w bytes value) {before rest : Bytes}
    (inMemory : InMemory w (before ++ (bytes ++ rest))) :
    read (between before (bytes ++ rest)) = some (value, between (before ++ bytes) rest) :=
  consumes before rest inMemory

private theorem addSize_of_lt {a b : Nat} (fits : a + b < 2 ^ w) : addSize w a b = a + b :=
  Nat.mod_eq_of_lt fits

/-- Four bytes are the text of the number that they make up. -/
theorem pushU32_join (a b c d : UInt8) :
    pushU32 (a.toUInt32 ||| b.toUInt32 <<< 8 ||| c.toUInt32 <<< 16 ||| d.toUInt32 <<< 24) =
      [a, b, c, d] := by
  have bounds := And.intro a.toNat_lt (And.intro b.toNat_lt (And.intro c.toNat_lt d.toNat_lt))
  let v := UInt32.ofNat (a.toNat + 256 * b.toNat + 65536 * c.toNat + 16777216 * d.toNat)
  have spelled : pushU32 v = [a, b, c, d] := by
    have value : v.toNat = a.toNat + 256 * b.toNat + 65536 * c.toNat + 16777216 * d.toNat :=
      Nat.mod_eq_of_lt (by omega)
    have masked (n : Nat) : n &&& 255 = n % 256 := Nat.and_two_pow_sub_one_eq_mod n 8
    simp only [pushU32, List.cons.injEq, and_true, ← UInt8.toNat_inj, UInt32.toNat_toUInt8,
      UInt32.toNat_and, UInt32.toNat_shiftRight, value, UInt32.reduceToNat, masked,
      Nat.shiftRight_eq_div_pow, Nat.reduceMod, Nat.reducePow]
    omega
  -- Reading the four bytes gives both numbers.
  have read := readU32_consumes (w := 64) v [] [] (by simp [InMemory, pushU32])
  simp only [spelled, List.nil_append, List.append_nil, List.length_nil] at read
  have joined : a.toUInt32 ||| b.toUInt32 <<< 8 ||| c.toUInt32 <<< 16 ||| d.toUInt32 <<< 24 = v :=
    by simpa [readU32, addSize] using read
  rw [joined, spelled]

theorem pushU32_inj {a b : UInt32} : pushU32 a = pushU32 b ↔ a = b := by
  constructor
  · intro same
    have first := readU32_consumes (w := 64) a [] [] (by simp [InMemory, pushU32])
    have second := readU32_consumes (w := 64) b [] [] (by simp [InMemory, pushU32])
    rw [same, second] at first
    exact (Prod.mk.inj (Option.some.inj first)).1.symm
  · rintro rfl
    rfl

theorem readU8_eq_some_iff {before tail : Bytes} {v : UInt8} {after : Reader}
    (wide : 32 ≤ w) (inMemory : InMemory w (before ++ tail)) :
    (between before tail).readU8 w = some (v, after) ↔
      ∃ rest, tail = pushU8 v ++ rest ∧ after = between (before ++ pushU8 v) rest := by
  constructor
  · intro read
    have fits := inMemory.add_lt wide
    rw [List.length_append] at fits
    have next : addSize w before.length 1 = before.length + 1 := addSize_of_lt (by omega)
    simp only [readU8, between, next] at read
    cases tail with
    | nil =>
      rw [if_pos (by simp)] at read
      cases read
    | cons c rest =>
      rw [if_neg (by simp)] at read
      cases read
      exact ⟨rest, by simp [pushU8], by simp [between, pushU8]⟩
  · rintro ⟨rest, rfl, rfl⟩
    exact (readU8_consumes v).between inMemory

theorem readU32_eq_some_iff {before tail : Bytes} {v : UInt32} {after : Reader}
    (wide : 32 ≤ w) (inMemory : InMemory w (before ++ tail)) :
    (between before tail).readU32 w = some (v, after) ↔
      ∃ rest, tail = pushU32 v ++ rest ∧ after = between (before ++ pushU32 v) rest := by
  constructor
  · intro read
    have fits := inMemory.add_lt wide
    rw [List.length_append] at fits
    have next (i : Nat) (small : i ≤ 4) : addSize w before.length i = before.length + i :=
      addSize_of_lt (by omega)
    simp only [readU32, between, next 4 (Nat.le_refl 4)] at read
    split at read
    · cases read
    · rename_i inside
      obtain ⟨a, b, c, d, rest, rfl⟩ : ∃ a b c d rest, tail = a :: b :: c :: d :: rest := by
        rw [List.length_append] at inside
        rcases tail with _ | ⟨a, _ | ⟨b, _ | ⟨c, _ | ⟨d, rest⟩⟩⟩⟩
        case cons.cons.cons.cons => exact ⟨a, b, c, d, rest, rfl⟩
        all_goals simp at inside
      have byte (i : Nat) (small : i ≤ 4) :
          (before ++ a :: b :: c :: d :: rest).getD (addSize w before.length i) 0 =
            (a :: b :: c :: d :: rest).getD i 0 := by
        rw [next i small, List.getD_append_right _ _ _ _ (Nat.le_add_right _ i),
          Nat.add_sub_cancel_left]
      simp only [byte 0 (by decide), byte 1 (by decide), byte 2 (by decide), byte 3 (by decide),
        List.getD_cons_zero, List.getD_cons_succ] at read
      cases read
      exact ⟨rest, by simp [pushU32_join], by simp [between, pushU32_join]⟩
  · rintro ⟨rest, rfl, rfl⟩
    exact (readU32_consumes v).between inMemory

/-- A sum that wraps around passes the bounds test only for a length that no string has. -/
theorem addSize_eq_add {data : Bytes} {pos len : Nat} (inMemory : InMemory w data)
    (within : pos ≤ data.length) (inside : ¬ addSize w pos len > data.length)
    (allocated : ¬ len > maxObjectSize w) : addSize w pos len = pos + len := by
  refine addSize_of_lt ?_
  unfold InMemory at inMemory
  unfold maxObjectSize at allocated
  cases w with
  | zero =>
    rw [Nat.zero_sub] at inMemory allocated
    omega
  | succ w =>
    rw [Nat.succ_sub_one] at inMemory allocated
    rw [Nat.pow_succ]
    omega

theorem readStr_eq_some_iff {before tail s : Bytes} {after : Reader}
    (wide : 32 ≤ w) (inMemory : InMemory w (before ++ tail)) :
    (between before tail).readStr w = some (s, after) ↔
      s.length < 2 ^ 32 ∧
        ∃ rest, tail = pushStr s ++ rest ∧ after = between (before ++ pushStr s) rest := by
  constructor
  · intro read
    obtain ⟨⟨len, r⟩, counted, read⟩ := Option.bind_eq_some_iff.mp read
    obtain ⟨behind, rfl, rfl⟩ := (readU32_eq_some_iff wide inMemory).mp counted
    dsimp only at read
    split at read
    · cases read
    rename_i inside
    split at read
    · cases read
    rename_i allocated
    rw [← List.append_assoc] at inMemory
    have next := addSize_eq_add inMemory (by simp [between]) inside allocated
    rw [next] at inside read
    obtain ⟨str, rest, rfl, size⟩ :
        ∃ str rest, behind = str ++ rest ∧ str.length = len.toNat := by
      refine ⟨_, _, (List.take_append_drop len.toNat behind).symm, ?_⟩
      simp only [between, List.length_append] at inside
      rw [List.length_take]
      omega
    have pushed : pushStr str = pushU32 len ++ str := by
      rw [pushStr, size, UInt32.ofNat_toNat]
    simp only [between, List.drop_left, ← size, List.take_left, Option.some.injEq,
      Prod.mk.injEq] at read
    obtain ⟨rfl, rfl⟩ := read
    refine ⟨size.trans_lt len.toNat_lt, rest, by simp [pushed], ?_⟩
    simp [between, pushed, size, Nat.add_assoc]
  · rintro ⟨short, rest, rfl, rfl⟩
    exact (readStr_consumes short).between inMemory

/-- A read that succeeds exactly when the bytes of a value are next. -/
def Reads {α : Type} (read : Reader → Option (α × Reader)) (w : Nat)
    (spells : α → Bytes → Prop) : Prop :=
  ∀ before tail v after, InMemory w (before ++ tail) →
    (read (between before tail) = some (v, after) ↔
      ∃ bytes rest, spells v bytes ∧ tail = bytes ++ rest ∧ after = between (before ++ bytes) rest)

theorem readU8_reads (wide : 32 ≤ w) : Reads (readU8 w) w fun v bytes => bytes = pushU8 v := by
  intro before tail v after inMemory
  rw [readU8_eq_some_iff wide inMemory]
  simp

theorem readU32_reads (wide : 32 ≤ w) : Reads (readU32 w) w fun v bytes => bytes = pushU32 v := by
  intro before tail v after inMemory
  rw [readU32_eq_some_iff wide inMemory]
  simp

theorem readStr_reads (wide : 32 ≤ w) :
    Reads (readStr w) w fun s bytes => s.length < 2 ^ 32 ∧ bytes = pushStr s := by
  intro before tail s after inMemory
  rw [readStr_eq_some_iff wide inMemory]
  simp

theorem Reads.pure {α : Type} (v : α) :
    Reads (fun r => some (v, r)) w fun u bytes => u = v ∧ bytes = [] := by
  intro before tail u after _
  constructor
  · intro read
    cases read
    exact ⟨[], tail, ⟨rfl, rfl⟩, rfl, by rw [List.append_nil]⟩
  · rintro ⟨_, rest, ⟨rfl, rfl⟩, rfl, rfl⟩
    simp

theorem Reads.bind {α β : Type} {read : Reader → Option (α × Reader)}
    {next : α × Reader → Option (β × Reader)} {first : α → Bytes → Prop}
    {second : α → β → Bytes → Prop} (reads : Reads read w first)
    (later : ∀ v, Reads (fun r => next (v, r)) w (second v)) :
    Reads (fun r => (read r).bind next) w fun u bytes =>
      ∃ v front back, first v front ∧ second v u back ∧ bytes = front ++ back := by
  intro before tail u after inMemory
  dsimp only
  rw [Option.bind_eq_some_iff]
  constructor
  · rintro ⟨⟨v, r⟩, taken, followed⟩
    obtain ⟨front, rest, spelled, rfl, rfl⟩ := (reads before tail v r inMemory).mp taken
    rw [← List.append_assoc] at inMemory
    obtain ⟨back, rest, spelled', rfl, rfl⟩ := (later v _ _ _ _ inMemory).mp followed
    exact ⟨front ++ back, rest, ⟨v, front, back, spelled, spelled', rfl⟩, by simp, by simp⟩
  · rintro ⟨_, rest, ⟨v, front, back, spelled, spelled', rfl⟩, rfl, rfl⟩
    refine ⟨(v, between (before ++ front) (back ++ rest)), ?_, ?_⟩
    · exact (reads _ _ _ _ inMemory).mpr ⟨front, back ++ rest, spelled, by simp, rfl⟩
    · rw [List.append_assoc, ← List.append_assoc] at inMemory
      exact (later v _ _ _ _ inMemory).mpr ⟨back, rest, spelled', rfl, by simp⟩

theorem Reads.congr {α : Type} {read : Reader → Option (α × Reader)}
    {spells other : α → Bytes → Prop} (reads : Reads read w spells)
    (same : ∀ v bytes, spells v bytes ↔ other v bytes) : Reads read w other := by
  have equal : spells = other := by
    funext v bytes
    exact propext (same v bytes)
  exact equal ▸ reads

/-- The fields of a document are read in the order in which they are laid out. -/
theorem readDocument_reads (wide : 32 ≤ w) :
    Reads (readDocument w) w fun d bytes =>
      ∃ raw : RawDocument, raw.toDocument.FitsFormat ∧ d = raw.toDocument ∧ bytes = raw.bytes := by
  have string := readStr_reads wide
  refine Reads.congr (.bind string fun url => .bind string fun title =>
    .bind string fun snippet => .bind string fun content =>
    .bind (readU8_reads wide) fun source => .bind (readU32_reads wide) fun depth => .pure _) ?_
  intro d bytes
  constructor
  · rintro ⟨url, _, _, ⟨urlFits, rfl⟩, ⟨title, _, _, ⟨titleFits, rfl⟩, ⟨snippet, _, _,
      ⟨snippetFits, rfl⟩, ⟨content, _, _, ⟨contentFits, rfl⟩, ⟨source, _, _, rfl,
      ⟨depth, _, _, rfl, ⟨rfl, rfl⟩, rfl⟩, rfl⟩, rfl⟩, rfl⟩, rfl⟩, rfl⟩
    exact ⟨⟨url, title, snippet, content, source, depth⟩,
      ⟨urlFits, titleFits, snippetFits, contentFits⟩, rfl, by simp [RawDocument.bytes]⟩
  · rintro ⟨raw, fits, rfl, rfl⟩
    exact ⟨raw.url, _, _, ⟨fits.url, rfl⟩, ⟨raw.title, _, _, ⟨fits.title, rfl⟩, ⟨raw.snippet, _, _,
      ⟨fits.snippet, rfl⟩, ⟨raw.content, _, _, ⟨fits.content, rfl⟩, ⟨raw.source, _, _, rfl,
      ⟨raw.depth, _, _, rfl, ⟨rfl, rfl⟩, rfl⟩, rfl⟩, rfl⟩, rfl⟩, rfl⟩, by simp [RawDocument.bytes]⟩

/-- The documents that are read are those laid out next, and nothing behind them matters. -/
theorem readDocuments_eq_some_iff {count : Nat} {before tail : Bytes} {out docs : List Document}
    (wide : 32 ≤ w) (inMemory : InMemory w (before ++ tail)) :
    readDocuments w count (between before tail) out = some docs ↔
      ∃ raws : List RawDocument, ∃ rest, raws.length = count ∧
        (∀ raw ∈ raws, raw.toDocument.FitsFormat) ∧
        tail = raws.flatMap RawDocument.bytes ++ rest ∧
        docs = out ++ raws.map RawDocument.toDocument := by
  induction count generalizing before tail out with
  | zero =>
    simp only [readDocuments, Option.some.injEq]
    constructor
    · rintro rfl
      exact ⟨[], tail, rfl, by simp, by simp, by simp⟩
    · rintro ⟨raws, rest, none, _, _, rfl⟩
      simp [List.length_eq_zero_iff.mp none]
  | succ count ih =>
    simp only [readDocuments, Option.bind_eq_bind]
    rw [Option.bind_eq_some_iff]
    constructor
    · rintro ⟨⟨d, r⟩, read, followed⟩
      obtain ⟨_, rest, ⟨raw, fits, rfl, rfl⟩, rfl, rfl⟩ :=
        (readDocument_reads wide before tail d r inMemory).mp read
      rw [← List.append_assoc] at inMemory
      obtain ⟨raws, rest, rfl, all, rfl, rfl⟩ := (ih inMemory).mp followed
      exact ⟨raw :: raws, rest, rfl, List.forall_mem_cons.mpr ⟨fits, all⟩, by simp, by simp⟩
    · rintro ⟨raws, rest, counted, all, rfl, rfl⟩
      cases raws with
      | nil => cases counted
      | cons raw raws =>
        rw [List.forall_mem_cons] at all
        rw [List.flatMap_cons, List.append_assoc] at inMemory ⊢
        refine ⟨(raw.toDocument, between (before ++ raw.bytes) (raws.flatMap RawDocument.bytes ++
          rest)), ?_, ?_⟩
        · exact (readDocument_reads wide _ _ _ _ inMemory).mpr
            ⟨_, _, ⟨raw, all.1, rfl, rfl⟩, rfl, rfl⟩
        · rw [← List.append_assoc] at inMemory
          exact (ih inMemory).mpr ⟨raws, rest, Nat.succ.inj counted, all.2, rfl, by simp⟩

end Reader

/-- The magic, the version and the number of documents. -/
def snapshotHeader (count : UInt32) : Bytes :=
  kMagic ++ (pushU32 kSnapshotVersion ++ pushU32 count)

theorem magic_iff (data : Bytes) :
    (kMagic.length > data.length ∨ data.take kMagic.length ≠ kMagic) ↔ ¬ kMagic <+: data := by
  rw [List.prefix_iff_eq_take, eq_comm]
  constructor
  · rintro (short | other) same
    · have length := congrArg List.length same
      rw [List.length_take] at length
      omega
    · exact other same
  · exact .inr

theorem addSize_magic {w : Nat} {data : Bytes} (wide : 32 ≤ w) (inMemory : InMemory w data) :
    addSize w 0 kMagic.length = kMagic.length := by
  have fits := inMemory.add_lt wide
  have size : kMagic.length = 6 := rfl
  exact Nat.mod_eq_of_lt (by omega)

theorem snapshotHeader_reads {w : Nat} {count : UInt32} {tail : Bytes}
    (inMemory : InMemory w (snapshotHeader count ++ tail)) :
    ¬ (kMagic.length > (snapshotHeader count ++ tail).length ∨
        (snapshotHeader count ++ tail).take kMagic.length ≠ kMagic) ∧
      (Reader.readU32 w ⟨snapshotHeader count ++ tail, kMagic.length⟩ = some (kSnapshotVersion,
        Reader.between (kMagic ++ pushU32 kSnapshotVersion) (pushU32 count ++ tail))) ∧
      (Reader.between (kMagic ++ pushU32 kSnapshotVersion) (pushU32 count ++ tail)).readU32 w =
        some (count, Reader.between (snapshotHeader count) tail) := by
  have shape : snapshotHeader count ++ tail =
      kMagic ++ (pushU32 kSnapshotVersion ++ (pushU32 count ++ tail)) := by
    simp [snapshotHeader]
  refine ⟨?_, ?_, ?_⟩
  · rw [magic_iff, not_not, shape]
    exact List.prefix_append _ _
  · rw [shape] at inMemory ⊢
    exact Reader.readU32_consumes kSnapshotVersion kMagic _ inMemory
  · rw [shape, ← List.append_assoc] at inMemory
    rw [snapshotHeader, ← List.append_assoc]
    exact (Reader.readU32_consumes count).between inMemory

theorem deserializeDocuments_header_iff {w : Nat} {data : Bytes} {docs : List Document}
    (wide : 32 ≤ w) (inMemory : InMemory w data) : deserializeDocuments w data = .ok docs ↔
      ∃ count tail, data = snapshotHeader count ++ tail ∧ count ≤ 10000000 ∧
        (Reader.between (snapshotHeader count) tail).readDocuments w count.toNat [] =
          some docs := by
  simp only [deserializeDocuments, addSize_magic wide inMemory]
  constructor
  · intro read
    split at read
    · cases read
    rename_i magic
    rw [magic_iff, not_not] at magic
    obtain ⟨tail, rfl⟩ := magic
    split at read
    · cases read
    rename_i version r found
    change (Reader.between kMagic tail).readU32 w = some (version, r) at found
    obtain ⟨tail, rfl, rfl⟩ := (Reader.readU32_eq_some_iff wide inMemory).mp found
    split at read
    · cases read
    rename_i current
    rw [not_not] at current
    subst current
    split at read
    · cases read
    rename_i count r counted
    rw [← List.append_assoc] at inMemory
    obtain ⟨tail, rfl, rfl⟩ := (Reader.readU32_eq_some_iff wide inMemory).mp counted
    split at read
    · cases read
    rename_i inLimit
    split at read
    · cases read
    rename_i out body
    cases read
    rw [List.append_assoc] at body
    exact ⟨count, tail, by simp [snapshotHeader], UInt32.not_lt.mp inLimit, body⟩
  · rintro ⟨count, tail, rfl, inLimit, body⟩
    obtain ⟨magic, version, counted⟩ := snapshotHeader_reads inMemory
    have current : ¬ kSnapshotVersion ≠ kSnapshotVersion := not_not.mpr rfl
    rw [if_neg magic, version]
    simp only [if_neg current, counted, if_neg (UInt32.not_lt.mpr inLimit), body]

/-- The data begins with documents, as many as it declares, and goes on with `rest`. -/
structure LaidOut (data : Bytes) (raws : List RawDocument) (rest : Bytes) : Prop where
  shape : data = snapshotHeader (UInt32.ofNat raws.length) ++
    (raws.flatMap RawDocument.bytes ++ rest)
  count : raws.length ≤ 10000000
  texts : ∀ raw ∈ raws, raw.toDocument.FitsFormat

/-- The reader accepts what is laid out, whatever the sources and the rest are. -/
theorem deserializeDocuments_eq_ok_iff {w : Nat} {data : Bytes} {docs : List Document}
    (wide : 32 ≤ w) (inMemory : InMemory w data) : deserializeDocuments w data = .ok docs ↔
      ∃ raws rest, LaidOut data raws rest ∧ docs = raws.map RawDocument.toDocument := by
  rw [deserializeDocuments_header_iff wide inMemory]
  constructor
  · rintro ⟨count, tail, rfl, inLimit, read⟩
    obtain ⟨raws, rest, counted, texts, rfl, rfl⟩ :=
      (Reader.readDocuments_eq_some_iff wide inMemory).mp read
    refine ⟨raws, rest, ⟨?_, ?_, texts⟩, rfl⟩
    · rw [counted, UInt32.ofNat_toNat]
    · rw [counted]
      exact UInt32.le_iff_toNat_le.mp inLimit
  · rintro ⟨raws, rest, ⟨rfl, small, texts⟩, rfl⟩
    have counted : (UInt32.ofNat raws.length).toNat = raws.length :=
      Nat.mod_eq_of_lt (Nat.lt_of_le_of_lt small (by decide))
    refine ⟨_, _, rfl, ?_, (Reader.readDocuments_eq_some_iff wide inMemory).mpr
      ⟨raws, rest, counted.symm, texts, rfl, rfl⟩⟩
    rw [UInt32.le_iff_toNat_le, counted]
    exact small

end ShadowSe
