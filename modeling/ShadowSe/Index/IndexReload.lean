import ShadowSe.Index.IndexRun

namespace ShadowSe

open Support

/-- A document as a snapshot stores it. -/
def Document.withoutId (doc : Document) : Document :=
  { doc with id := 0 }

@[simp] theorem Document.tokens_withoutId (doc : Document) : doc.withoutId.tokens = doc.tokens := rfl

@[simp] theorem Document.weightedLength_withoutId (doc : Document) :
    doc.withoutId.weightedLength = doc.weightedLength := rfl

namespace InvertedIndex

theorem Represents.totalTerms_eq {ix : InvertedIndex} (sound : ix.Represents) :
    ix.totalTerms_ = ((Table.values ix.docs_).map Document.weightedLength).sum := by
  have summed := Table.total_eq_sum_over ix.docLengths_ ix.docs_ fun id => by
    simp [sound.indexed.lengths id]
  rw [sound.indexed.total, summed, Table.values, List.map_map]
  refine congrArg List.sum (List.map_congr_left fun entry member => ?_)
  simp [sound.indexed.lengths, Table.mem_entries_iff.mp member]

/-- A term has one posting for each stored document that contains it. -/
theorem Represents.postings_length {ix : InvertedIndex} (sound : ix.Represents) (term : Bytes) :
    (ix.postingsOf term).length =
      ((Table.values ix.docs_).filter fun doc => term ∈ doc.tokens).length := by
  have holders : ((ix.postingsOf term).map (·.docId)).Perm
      ((ix.docs_.entries.filter fun entry => term ∈ entry.2.tokens).map (·.1)) := by
    have distinct : ((ix.docs_.entries.filter fun entry => term ∈ entry.2.tokens).map (·.1)).Nodup :=
      List.Nodup.sublist (List.filter_sublist.map _) ix.docs_.nodupKeys
    refine (List.perm_ext_iff_of_nodup (sound.indexed.nodup term) distinct).mpr fun id => ?_
    simp only [List.mem_map, List.mem_filter, decide_eq_true_eq]
    constructor
    · rintro ⟨posting, member, rfl⟩
      obtain ⟨doc, live, inside, _⟩ := (sound.indexed.mem_postings term posting).mp member
      exact ⟨⟨posting.docId, doc⟩, ⟨Table.mem_entries_iff.mpr live, inside⟩, rfl⟩
    · rintro ⟨⟨id, doc⟩, ⟨member, inside⟩, rfl⟩
      exact ⟨⟨id, doc.termFreq term⟩, (sound.indexed.mem_postings term _).mpr
        ⟨doc, Table.mem_entries_iff.mp member, inside, rfl⟩, rfl⟩
  have counted := holders.length_eq
  rw [List.length_map, List.length_map] at counted
  rw [counted, Table.values, List.filter_map, List.length_map]
  rfl

theorem Represents.statistics_eq {ix other : InvertedIndex} (sound : ix.Represents)
    (soundOther : other.Represents)
    (same : ((Table.values other.docs_).map Document.withoutId).Perm
      ((Table.values ix.docs_).map Document.withoutId)) :
    other.documentCount = ix.documentCount ∧ other.totalTerms_ = ix.totalTerms_ ∧
      ∀ term, (other.postingsOf term).length = (ix.postingsOf term).length := by
  refine ⟨?_, ?_, fun term => ?_⟩
  · have counted := same.length_eq
    simpa [Table.length_values, documentCount] using counted
  · have summed := (same.map Document.weightedLength).sum_eq
    simpa [soundOther.totalTerms_eq, sound.totalTerms_eq, Function.comp_def] using summed
  · have counted := (same.filter fun doc => term ∈ doc.tokens).length_eq
    rw [List.filter_map, List.filter_map, List.length_map, List.length_map] at counted
    rw [soundOther.postings_length, sound.postings_length]
    exact counted

private theorem fresh_after_add (layout : Layout) {ix : InvertedIndex} {doc : Document}
    {rest : List Document} (absent : doc.url ∉ rest.map (·.url))
    (fresh : ∀ other ∈ rest, ix.urlToId_.lookup other.url = none) :
    ∀ other ∈ rest, (ix.addDocument layout doc).urlToId_.lookup other.url = none := by
  intro other member
  have different : other.url ≠ doc.url := by
    intro same
    exact absent (List.mem_map.mpr ⟨other, member, same⟩)
  rw [addDocument_urlToId, if_neg different]
  exact fresh other member

theorem Represents.addAll_docs {ix : InvertedIndex} (sound : ix.Represents) (layout : Layout)
    {docs : List Document} (distinct : (docs.map (·.url)).Nodup)
    (fresh : ∀ doc ∈ docs, ix.urlToId_.lookup doc.url = none) (id : Nat) (version : Document) :
    (docs.foldl (InvertedIndex.addDocument layout) ix).docs_.lookup id = some version ↔
      ix.docs_.lookup id = some version ∨
      ∃ i doc, docs[i]? = some doc ∧ id = ix.nextId_ + i ∧ version = { doc with id := id } := by
  induction docs generalizing ix with
  | nil => simp
  | cons doc rest ih =>
    obtain ⟨absent, distinctRest⟩ := List.nodup_cons.mp distinct
    obtain ⟨target, next⟩ := addDocument_fresh layout (fresh doc (by simp))
    have later := ih (sound.addDocument layout doc) distinctRest ?_
    · rw [List.foldl_cons, later, addDocument_docs, Table.lookup_insert_ite, target, next]
      have unused : ix.docs_.lookup ix.nextId_ = none := sound.lookup_nextId
      constructor
      · rintro (stored | ⟨i, other, found, rfl, rfl⟩)
        · by_cases same : id = ix.nextId_
          · rw [if_pos same] at stored
            cases Option.some.inj stored
            exact .inr ⟨0, doc, rfl, same, by rw [same]⟩
          · rw [if_neg same] at stored
            exact .inl stored
        · exact .inr ⟨i + 1, other, found, by omega, rfl⟩
      · rintro (stored | ⟨i, other, found, rfl, rfl⟩)
        · have different : id ≠ ix.nextId_ := by
            rintro rfl
            rw [unused] at stored
            cases stored
          exact .inl (by rwa [if_neg different])
        · cases i with
          | zero =>
            cases Option.some.inj found
            exact .inl (by simp)
          | succ i => exact .inr ⟨i, other, found, by omega, rfl⟩
    · exact fresh_after_add layout absent fun other member =>
        fresh other (List.mem_cons_of_mem _ member)

theorem Represents.addAll_values {ix : InvertedIndex} (sound : ix.Represents) (layout : Layout)
    {docs : List Document} (distinct : (docs.map (·.url)).Nodup)
    (fresh : ∀ doc ∈ docs, ix.urlToId_.lookup doc.url = none) :
    ((Table.values (docs.foldl (InvertedIndex.addDocument layout) ix).docs_).map
        Document.withoutId).Perm
      (docs.map Document.withoutId ++ (Table.values ix.docs_).map Document.withoutId) := by
  induction docs generalizing ix with
  | nil => exact .refl _
  | cons doc rest ih =>
    obtain ⟨absent, distinctRest⟩ := List.nodup_cons.mp distinct
    obtain ⟨target, _⟩ := addDocument_fresh layout (fresh doc (by simp))
    have later := ih (sound.addDocument layout doc) distinctRest ?_
    · rw [addDocument_docs, target, Table.values_insert_fresh _ _ _ sound.lookup_nextId] at later
      exact later.trans List.perm_middle
    · exact fresh_after_add layout absent fun other member =>
        fresh other (List.mem_cons_of_mem _ member)

end InvertedIndex

end ShadowSe
