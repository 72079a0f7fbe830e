import ShadowSe.Storage.SnapshotFormat

namespace ShadowSe

open Support

namespace RawDocument

/-- The byte for the source is one that the writer writes. -/
def HasTag (raw : RawDocument) : Prop :=
  ∃ source : SourceType, raw.source = source.toU8

theorem toU8_toDocument (raw : RawDocument) :
    raw.toDocument.source.toU8 = raw.source ↔ raw.HasTag := by
  constructor
  · exact fun same => ⟨_, same.symm⟩
  · rintro ⟨source, same⟩
    rw [toDocument, same]
    cases source <;> rfl

theorem serializeOne_toDocument (raw : RawDocument) :
    serializeOne raw.toDocument =
      { raw with source := raw.toDocument.source.toU8 : RawDocument }.bytes := by
  simp [serializeOne, bytes, toDocument]

theorem length_bytes (raw : RawDocument) (source : UInt8) :
    { raw with source : RawDocument }.bytes.length = raw.bytes.length := by
  simp [bytes, pushU8]

theorem bytes_inj_source {raw : RawDocument} {source : UInt8} :
    { raw with source : RawDocument }.bytes = raw.bytes ↔ source = raw.source := by
  simp [bytes, pushU8]

end RawDocument

private theorem flatMap_eq_append_iff {α : Type} {f g : α → Bytes}
    (size : ∀ a, (f a).length = (g a).length) (items : List α) (rest : Bytes) :
    items.flatMap f = items.flatMap g ++ rest ↔ rest = [] ∧ ∀ a ∈ items, f a = g a := by
  induction items with
  | nil => simp [eq_comm]
  | cons a items ih =>
    rw [List.flatMap_cons, List.flatMap_cons, List.append_assoc, List.forall_mem_cons]
    constructor
    · intro same
      obtain ⟨head, tail⟩ := List.append_inj same (size a)
      exact ⟨(ih.mp tail).1, head, (ih.mp tail).2⟩
    · rintro ⟨none, head, tail⟩
      rw [head, ih.mpr ⟨none, tail⟩]

/-- The writer writes what was read exactly when nothing was left unread and every source
has one of its two bytes. -/
theorem LaidOut.serializeDocuments_iff {data rest : Bytes} {raws : List RawDocument}
    (laidOut : LaidOut data raws rest) :
    serializeDocuments (raws.map RawDocument.toDocument) = data ↔
      rest = [] ∧ ∀ raw ∈ raws, raw.HasTag := by
  have written : serializeDocuments (raws.map RawDocument.toDocument) =
      snapshotHeader (UInt32.ofNat raws.length) ++
        raws.flatMap fun raw => serializeOne raw.toDocument := by
    simp [serializeDocuments, snapshotHeader, List.flatMap_map]
  have size (raw : RawDocument) : (serializeOne raw.toDocument).length = raw.bytes.length := by
    rw [raw.serializeOne_toDocument, raw.length_bytes]
  rw [laidOut.shape, written, List.append_cancel_left_eq, flatMap_eq_append_iff size]
  refine and_congr_right fun _ => forall₂_congr fun raw _ => ?_
  rw [raw.serializeOne_toDocument, RawDocument.bytes_inj_source, raw.toU8_toDocument]

/-- Accepted data is what the writer writes for the documents exactly when it ends with them
and no other byte stands for a source. -/
theorem deserializeDocuments_canonical_iff {data : Bytes} (inMemory : InMemory 64 data) :
    (∀ docs, deserializeDocuments 64 data = .ok docs → serializeDocuments docs = data) ↔
      ∀ raws rest, LaidOut data raws rest → rest = [] ∧ ∀ raw ∈ raws, raw.HasTag := by
  have wide : 32 ≤ 64 := by decide
  have accepts := fun docs => @deserializeDocuments_eq_ok_iff 64 data docs wide inMemory
  constructor
  · intro canonical raws rest laidOut
    exact laidOut.serializeDocuments_iff.mp
      (canonical _ ((accepts _).mpr ⟨raws, rest, laidOut, rfl⟩))
  · intro exactly docs accepted
    obtain ⟨raws, rest, laidOut, rfl⟩ := (accepts _).mp accepted
    exact laidOut.serializeDocuments_iff.mpr (exactly raws rest laidOut)

theorem deserializeDocuments_trailing :
    ¬ ∀ data docs, deserializeDocuments 64 data = .ok docs → serializeDocuments docs = data := by
  intro canonical
  have accepted : deserializeDocuments 64 (snapshotHeader 0 ++ [255]) = .ok [] := by decide
  exact absurd (canonical _ _ accepted) (by decide)

/-- A snapshot of one document from an onion service is laid out in one way. -/
theorem deserializeDocuments_canonical_onion :
    let saved := serializeDocuments [{ url := ascii "u", source := .onion, depth := 3 }]
    deserializeDocuments 64 saved = .ok [{ url := ascii "u", source := .onion, depth := 3 }] ∧
      ∀ raws rest, LaidOut saved raws rest → rest = [] ∧ ∀ raw ∈ raws, raw.HasTag := by
  have inMemory :
      InMemory 64 (serializeDocuments [{ url := ascii "u", source := .onion, depth := 3 }]) := by
    unfold InMemory
    decide
  have accepted : deserializeDocuments 64
      (serializeDocuments [{ url := ascii "u", source := .onion, depth := 3 }]) =
        .ok [{ url := ascii "u", source := .onion, depth := 3 }] := by
    decide
  refine ⟨accepted, (deserializeDocuments_canonical_iff inMemory).mp fun docs read => ?_⟩
  rw [accepted] at read
  cases read
  rfl

/-- A list that is reported as saved can be loaded, and one beyond the limits of the format
is not reported as saved. -/
def SavesLoadable (disk : Disk) (path : Bytes) (docs : List Document) : Prop :=
  let saved := saveSnapshot disk .written path docs
  (saved.1 = .ok () → ∃ loaded, loadSnapshot 64 saved.2 path = .ok loaded) ∧
    (¬ FitsFormat docs → saved.1 ≠ .ok ())

/-- Every save that keeps all bytes is reported as successful, so it is right to do so
exactly when the list is within the limits of the format. -/
theorem saveSnapshot_loadable_iff (disk : Disk) (path : Bytes) (docs : List Document) :
    SavesLoadable disk path docs ↔ FitsFormat docs := by
  constructor
  · intro loadable
    by_contra beyond
    exact loadable.2 beyond rfl
  · intro fits
    refine ⟨fun _ => ⟨docs.map fun d => { d with id := 0 }, ?_⟩, fun beyond => absurd fits beyond⟩
    simp only [loadSnapshot, saveSnapshot, Table.lookup_insert_ite, ↓reduceIte,
      deserializeDocuments_serialize fits]

/-- A number of documents that the length field holds and the reader finds implausible. -/
theorem deserializeDocuments_implausible {docs : List Document} (many : 10000000 < docs.length)
    (counted : docs.length < 2 ^ 32) (inMemory : InMemory 64 (serializeDocuments docs))
    (loaded : List Document) : deserializeDocuments 64 (serializeDocuments docs) ≠ .ok loaded := by
  intro accepted
  obtain ⟨count, tail, shape, inLimit, -⟩ :=
    (deserializeDocuments_header_iff (by decide) inMemory).mp accepted
  have declared : snapshotHeader (UInt32.ofNat docs.length) = snapshotHeader count := by
    have joined : snapshotHeader (UInt32.ofNat docs.length) ++ docs.flatMap serializeOne =
        snapshotHeader count ++ tail := by
      rw [← shape]
      simp [serializeDocuments, snapshotHeader]
    exact (List.append_inj joined rfl).1
  have same : UInt32.ofNat docs.length = count := by
    simpa [snapshotHeader, Reader.pushU32_inj] using declared
  have value : (UInt32.ofNat docs.length).toNat = docs.length := Nat.mod_eq_of_lt counted
  rw [← same, UInt32.le_iff_toNat_le, value] at inLimit
  exact absurd many (Nat.not_lt.mpr inLimit)

theorem saveSnapshot_not_loadable :
    ¬ ∀ (disk : Disk) (path : Bytes) (docs : List Document),
      (saveSnapshot disk .written path docs).1 = .ok () →
        ∃ loaded, loadSnapshot 64 (saveSnapshot disk .written path docs).2 path = .ok loaded := by
  intro loadable
  have length : (List.replicate 10000001 ({} : Document)).length = 10000001 :=
    List.length_replicate
  have inMemory : InMemory 64 (serializeDocuments (List.replicate 10000001 {})) := by
    have size : (serializeDocuments (List.replicate 10000001 {})).length =
        14 + 10000001 * (serializeOne {}).length := by
      simp only [serializeDocuments, List.length_append, List.length_flatMap, List.map_replicate,
        List.sum_replicate_nat]
      rfl
    unfold InMemory
    rw [size]
    decide
  obtain ⟨loaded, accepted⟩ := loadable ∅ [] (List.replicate 10000001 {}) rfl
  simp only [loadSnapshot, saveSnapshot, Table.lookup_insert_ite, ↓reduceIte] at accepted
  refine deserializeDocuments_implausible ?_ ?_ inMemory loaded accepted
  · rw [length]
    decide
  · rw [length]
    decide

end ShadowSe
