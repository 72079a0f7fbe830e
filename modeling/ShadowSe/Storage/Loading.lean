import ShadowSe.Storage.EncryptedSnapshot

namespace ShadowSe

open Support

/-- The URLs of the documents, each where it stands first. -/
def firstUrls (docs : List Document) : List Bytes :=
  docs.foldl (fun urls doc => if urls.contains doc.url then urls else urls ++ [doc.url]) []

/-- The last document with the URL. -/
def lastWith (docs : List Document) (url : Bytes) : Option Document :=
  docs.reverse.find? fun doc => doc.url = url

theorem firstUrls_concat (docs : List Document) (doc : Document) :
    firstUrls (docs ++ [doc]) =
      if doc.url ∈ firstUrls docs then firstUrls docs else firstUrls docs ++ [doc.url] := by
  have unfolded : firstUrls (docs ++ [doc]) =
      if (firstUrls docs).contains doc.url then firstUrls docs
      else firstUrls docs ++ [doc.url] := by
    rw [firstUrls, List.foldl_append]
    rfl
  rw [unfolded]
  exact if_congr List.contains_iff_mem rfl rfl

theorem lastWith_concat (docs : List Document) (doc : Document) (url : Bytes) :
    lastWith (docs ++ [doc]) url = if doc.url = url then some doc else lastWith docs url := by
  by_cases same : doc.url = url
  · simp [lastWith, same]
  · simp [lastWith, same]

namespace InvertedIndex

private theorem getElem?_concat_iff {urls : List Bytes} {last url : Bytes} {i : Nat} :
    (urls ++ [last])[i]? = some url ↔ urls[i]? = some url ∨ i = urls.length ∧ last = url := by
  grind

/-- The index gives the URLs ids from one on, in the order of their first documents, and
stores the last document of each. -/
structure Holds (ix : InvertedIndex) (docs : List Document) : Prop where
  next : ix.nextId_ = (firstUrls docs).length + 1
  urls : ∀ url id, ix.urlToId_.lookup url = some id ↔
    ∃ i : Nat, (firstUrls docs)[i]? = some url ∧ id = i + 1
  versions : ∀ url id, ix.urlToId_.lookup url = some id →
    ix.docs_.lookup id = (lastWith docs url).map fun doc => { doc with id }

theorem holds_empty : empty.Holds [] := by
  refine ⟨rfl, ?_, ?_⟩
  · simp [empty, firstUrls]
  · simp [empty]

theorem Holds.mem_firstUrls {ix : InvertedIndex} {docs : List Document} (holds : ix.Holds docs)
    {url : Bytes} : url ∈ firstUrls docs ↔ ∃ id, ix.urlToId_.lookup url = some id := by
  rw [List.mem_iff_getElem?]
  constructor
  · rintro ⟨i, found⟩
    exact ⟨i + 1, (holds.urls url _).mpr ⟨i, found, rfl⟩⟩
  · rintro ⟨id, known⟩
    obtain ⟨i, found, _⟩ := (holds.urls url id).mp known
    exact ⟨i, found⟩

/-- The next id and the ids of the URLs after an addition, whether its URL is new or not. -/
private theorem Holds.urls_addDocument {ix : InvertedIndex} {docs : List Document}
    (holds : ix.Holds docs) (layout : Layout) (doc : Document) :
    (ix.addDocument layout doc).nextId_ = (firstUrls (docs ++ [doc])).length + 1 ∧
      ∀ url id, (ix.addDocument layout doc).urlToId_.lookup url = some id ↔
        ∃ i : Nat, (firstUrls (docs ++ [doc]))[i]? = some url ∧ id = i + 1 := by
  have mapped := addDocument_urlToId layout ix doc
  rw [firstUrls_concat]
  cases known : ix.urlToId_.lookup doc.url with
  | some own =>
    obtain ⟨target, next⟩ := addDocument_known layout known
    rw [if_pos (holds.mem_firstUrls.mpr ⟨own, known⟩), next]
    refine ⟨holds.next, fun url id => ?_⟩
    rw [mapped, target, ← holds.urls]
    by_cases same : url = doc.url
    · rw [if_pos same, same, known]
    · rw [if_neg same]
  | none =>
    obtain ⟨target, next⟩ := addDocument_fresh layout known
    have fresh : doc.url ∉ firstUrls docs := by
      rw [holds.mem_firstUrls, known]
      simp
    rw [if_neg fresh, next, holds.next, List.length_append, List.length_singleton]
    refine ⟨rfl, fun url id => ?_⟩
    rw [mapped, target, holds.next]
    simp only [getElem?_concat_iff]
    by_cases same : url = doc.url
    · rw [if_pos same, same]
      constructor
      · rintro ⟨⟩
        exact ⟨_, .inr ⟨rfl, rfl⟩, rfl⟩
      · rintro ⟨i, earlier | ⟨rfl, _⟩, rfl⟩
        · exact absurd (List.mem_of_getElem? earlier) fresh
        · rfl
    · rw [if_neg same, holds.urls]
      refine exists_congr fun i => and_congr_left fun _ => ?_
      simp [Ne.symm same]

theorem Holds.addDocument {ix : InvertedIndex} {docs : List Document} (holds : ix.Holds docs)
    (sound : ix.Represents) (layout : Layout) (doc : Document) :
    (ix.addDocument layout doc).Holds (docs ++ [doc]) := by
  have mapped := addDocument_urlToId layout ix doc
  obtain ⟨next, urls⟩ := holds.urls_addDocument layout doc
  refine ⟨next, urls, ?_⟩
  · intro url id remapped
    rw [mapped] at remapped
    rw [addDocument_docs, Table.lookup_insert_ite, lastWith_concat]
    by_cases same : url = doc.url
    · rw [if_pos same] at remapped
      rw [if_pos (Option.some.inj remapped).symm, if_pos same.symm, Option.some.inj remapped]
      rfl
    · rw [if_neg same] at remapped
      have other : id ≠ ix.targetId doc.url := by
        rintro rfl
        obtain ⟨version, live, own⟩ := (sound.urls url _).mp remapped
        exact same (own.symm.trans (sound.url_of_targetId live))
      rw [if_neg other, if_neg (Ne.symm same)]
      exact holds.versions url id remapped

theorem Holds.addAll {ix : InvertedIndex} {docs : List Document} (holds : ix.Holds docs)
    (sound : ix.Represents) (layout : Layout) (more : List Document) :
    (more.foldl (InvertedIndex.addDocument layout) ix).Holds (docs ++ more) := by
  induction more generalizing ix docs with
  | nil => rwa [List.append_nil]
  | cons doc rest ih =>
    have later := ih (holds.addDocument sound layout doc) (sound.addDocument layout doc)
    rwa [List.append_assoc] at later

/-- Every URL, posting and length of the index comes from one of the documents. -/
structure OnlyFrom (ix : InvertedIndex) (docs : List Document) : Prop where
  urls : ∀ url id, ix.urlToId_.lookup url = some id → ∃ doc ∈ docs, doc.url = url
  postings : ∀ term posting, posting ∈ ix.postingsOf term → ∃ doc ∈ docs, term ∈ doc.tokens
  lengths : ∀ id length, ix.docLengths_.lookup id = some length →
    ∃ doc ∈ docs, length = doc.weightedLength

theorem Holds.onlyFrom {ix : InvertedIndex} {docs : List Document} (holds : ix.Holds docs)
    (sound : ix.Represents) : ix.OnlyFrom docs := by
  have given : ∀ id stored, ix.docs_.lookup id = some stored →
      ∃ doc ∈ docs, stored = { doc with id } := by
    intro id stored live
    have known := (sound.urls stored.url id).mpr ⟨stored, live, rfl⟩
    rw [holds.versions _ _ known] at live
    obtain ⟨doc, last, rfl⟩ := Option.map_eq_some_iff.mp live
    exact ⟨doc, List.mem_reverse.mp (List.mem_of_find?_eq_some last), rfl⟩
  refine ⟨?_, ?_, ?_⟩
  · intro url id known
    obtain ⟨stored, live, own⟩ := (sound.urls url id).mp known
    obtain ⟨doc, member, rfl⟩ := given id stored live
    exact ⟨doc, member, own⟩
  · intro term posting listed
    obtain ⟨stored, live, inside, _⟩ := (sound.indexed.mem_postings term posting).mp listed
    obtain ⟨doc, member, rfl⟩ := given _ stored live
    exact ⟨doc, member, inside⟩
  · intro id length measured
    rw [sound.indexed.lengths] at measured
    obtain ⟨stored, live, rfl⟩ := Option.map_eq_some_iff.mp measured
    obtain ⟨doc, member, rfl⟩ := given id stored live
    exact ⟨doc, member, rfl⟩

end InvertedIndex

/-- `Engine::saveEncrypted`. -/
def Engine.saveEncrypted (sodium : Sodium) (order : VisitOrder) (ix : InvertedIndex) (disk : Disk)
    (outcome : WriteOutcome) (path password : Bytes) : Except Bytes Unit × Disk :=
  saveEncryptedSnapshot sodium disk outcome path password (ix.allDocuments order)

/-- `Engine::loadEncrypted`: the index is replaced only after a successful load. -/
def Engine.loadEncrypted (sodium : Sodium) (w : Nat) (layout : Layout) (ix : InvertedIndex)
    (disk : Disk) (path password : Bytes) : Except Bytes Unit × InvertedIndex :=
  match loadEncryptedSnapshot sodium w disk path password with
  | .error err => (.error err, ix)
  | .ok docs => (.ok (), ix.replaceAll layout docs)

/-- A failed load leaves the index alone. A successful one leaves the index that the decoded
documents make of an empty one, faithful to them and with nothing from before. -/
structure Engine.AllOrNothing (layout : Layout) (before : InvertedIndex)
    (decoded : Except Bytes (List Document)) (after : Except Bytes Unit × InvertedIndex) :
    Prop where
  nothing : ∀ err, after.1 = .error err → after.2 = before
  all : after.1 = .ok () → ∃ docs, decoded = .ok docs ∧
    after.2 = docs.foldl (InvertedIndex.addDocument layout) .empty ∧
    after.2.Represents ∧ after.2.Holds docs ∧ after.2.OnlyFrom docs

private theorem allOrNothing_replace (layout : Layout) (before : InvertedIndex)
    (decoded : Except Bytes (List Document)) :
    Engine.AllOrNothing layout before decoded (match decoded with
      | .error err => (.error err, before)
      | .ok docs => (.ok (), before.replaceAll layout docs)) := by
  cases decoded with
  | error err => exact ⟨fun _ _ => rfl, fun impossible => nomatch impossible⟩
  | ok docs =>
    have sound : (before.replaceAll layout docs).Represents :=
      InvertedIndex.represents_empty.addAll layout docs
    have holds : (before.replaceAll layout docs).Holds docs :=
      InvertedIndex.holds_empty.addAll InvertedIndex.represents_empty layout docs
    exact ⟨fun _ impossible => (nomatch impossible),
      fun _ => ⟨docs, rfl, rfl, sound, holds, holds.onlyFrom sound⟩⟩

/-- Loading a plain or an encrypted file is all or nothing, whatever the index held before and
whatever the file holds. -/
theorem Engine.load_allOrNothing (sodium : Sodium) (w : Nat) (layout : Layout)
    (ix : InvertedIndex) (disk : Disk) (path password : Bytes) :
    AllOrNothing layout ix (loadSnapshot w disk path) (loadState w layout ix disk path) ∧
      AllOrNothing layout ix (loadEncryptedSnapshot sodium w disk path password)
        (loadEncrypted sodium w layout ix disk path password) :=
  ⟨allOrNothing_replace layout ix _, allOrNothing_replace layout ix _⟩

end ShadowSe
