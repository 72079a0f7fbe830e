import Mathlib.Logic.Function.Basic
import ShadowSe.Index.TermCount

/-! The redundant maps of the index stay in step. The invariant is first stated
against an abstract table of indexed documents, so that it also covers the moment
between un-indexing a replaced document and indexing its new version. -/

namespace ShadowSe

open Support

namespace InvertedIndex

/-- The postings of a term, none for an unindexed one. -/
def postingsOf (ix : InvertedIndex) (term : Bytes) : List Posting :=
  (ix.postings_.lookup term).getD []

/-- The term contributions remembered for a document. -/
def termsOf (ix : InvertedIndex) (id : Nat) : List (Bytes × Nat) :=
  (ix.docTerms_.lookup id).getD []

/-- The postings, terms, lengths and total describe exactly the documents of `live`. -/
structure Indexed (ix : InvertedIndex) (live : Nat → Option Document) : Prop where
  nonempty : ∀ term, ix.postings_.lookup term ≠ some []
  nodup : ∀ term, ((ix.postingsOf term).map (·.docId)).Nodup
  mem_postings : ∀ term posting, posting ∈ ix.postingsOf term ↔
    ∃ doc, live posting.docId = some doc ∧ term ∈ doc.tokens ∧
      posting.termFreq = doc.termFreq term
  terms : ∀ id, (ix.termsOf id).Perm ((live id).elim [] Document.termFreqs)
  lengths : ∀ id, ix.docLengths_.lookup id = (live id).map Document.weightedLength
  total : ix.totalTerms_ = Table.total ix.docLengths_

/-- One posting list without the entries of a document; an empty list disappears. -/
private def dropDoc (docId : Nat) (list : List Posting) : Option (List Posting) :=
  let list := list.filter fun p => p.docId != docId
  if list.isEmpty then none else some list

private theorem dropDoc_idempotent (docId : Nat) (list : List Posting) :
    (dropDoc docId list).bind (dropDoc docId) = dropDoc docId list := by
  by_cases empty : (list.filter fun p => p.docId != docId) = []
  · simp [dropDoc, empty]
  · simp [dropDoc, empty, List.filter_filter]

private theorem removePosting_lookup (docId : Nat) (postings : Table Bytes (List Posting))
    (term query : Bytes) : (removePosting docId postings term).lookup query =
      if query = term then (postings.lookup query).bind (dropDoc docId)
      else postings.lookup query := by
  unfold removePosting
  by_cases same : query = term
  · subst query
    cases found : postings.lookup term with
    | none => simp [found]
    | some list =>
      simp only [↓reduceIte, Option.bind_some, dropDoc]
      split <;> simp
  · cases postings.lookup term with
    | none => simp [same]
    | some list =>
      simp only [if_neg same]
      split <;> simp [same]

private theorem removePostings_lookup (docId : Nat) (terms : List (Bytes × Nat))
    (postings : Table Bytes (List Posting)) (query : Bytes) :
    (removePostings docId terms postings).lookup query =
      if query ∈ terms.map (·.1) then (postings.lookup query).bind (dropDoc docId)
      else postings.lookup query := by
  induction terms generalizing postings with
  | nil => simp [removePostings]
  | cons entry rest ih =>
    have step : removePostings docId (entry :: rest) postings =
        removePostings docId rest (removePosting docId postings entry.1) := rfl
    rw [step, ih, removePosting_lookup]
    by_cases same : query = entry.1
    · subst query
      have twice : ((postings.lookup entry.1).bind (dropDoc docId)).bind (dropDoc docId) =
          (postings.lookup entry.1).bind (dropDoc docId) := by
        cases postings.lookup entry.1 with
        | none => rfl
        | some list => exact dropDoc_idempotent docId list
      simp [twice]
    · simp only [List.map_cons, List.mem_cons, same, false_or, ↓reduceIte]

/-- Removing the postings of a document through its remembered terms filters it out of
every posting list, since no other term mentions it. -/
private theorem Indexed.unindex_postingsOf {ix : InvertedIndex} {live : Nat → Option Document}
    (exact : ix.Indexed live) (id : Nat) (term : Bytes) :
    (ix.unindex id).postings_.lookup term ≠ some [] ∧
      (ix.unindex id).postingsOf term =
        (ix.postingsOf term).filter fun p => p.docId != id := by
  have lookup : (ix.unindex id).postings_.lookup term =
      if term ∈ (ix.termsOf id).map (·.1) then (ix.postings_.lookup term).bind (dropDoc id)
      else ix.postings_.lookup term := removePostings_lookup id _ _ term
  simp only [postingsOf, lookup]
  split
  · cases found : ix.postings_.lookup term with
    | none => simp
    | some list =>
      simp only [Option.bind_some, dropDoc, Option.getD_some]
      by_cases empty : (list.filter fun p => p.docId != id) = []
      · simp [empty]
      · simp [empty]
  · rename_i unlisted
    refine ⟨exact.nonempty term, (List.filter_eq_self.mpr ?_).symm⟩
    intro posting member
    obtain ⟨doc, alive, contains, _⟩ := (exact.mem_postings term posting).mp member
    rw [bne_iff_ne]
    rintro rfl
    apply unlisted
    have listed := (exact.terms posting.docId).mem_iff (a := (term, doc.termFreq term))
    simp only [alive, Option.elim_some] at listed
    exact List.mem_map.mpr ⟨_, listed.mpr (Document.mem_termFreqs.mpr ⟨contains, rfl⟩), rfl⟩

/-- Un-indexing takes one document out of the described table and nothing else. -/
theorem Indexed.unindex {ix : InvertedIndex} {live : Nat → Option Document}
    (exact : ix.Indexed live) (id : Nat) :
    (ix.unindex id).Indexed (Function.update live id none) := by
  refine ⟨fun term => (exact.unindex_postingsOf id term).1, ?_, ?_, ?_, ?_, ?_⟩
  · intro term
    rw [(exact.unindex_postingsOf id term).2]
    exact (exact.nodup term).sublist ((List.filter_sublist).map _)
  · intro term posting
    rw [(exact.unindex_postingsOf id term).2, List.mem_filter, exact.mem_postings, bne_iff_ne]
    by_cases same : posting.docId = id
    · simp [same]
    · simp [same]
  · intro other
    have lookup : (ix.unindex id).termsOf other =
        if other = id then [] else ix.termsOf other := by
      simp only [termsOf, InvertedIndex.unindex, Table.lookup_erase_ite]
      split <;> rfl
    rw [lookup]
    by_cases same : other = id
    · simp [same]
    · simpa [same] using exact.terms other
  · intro other
    simp only [InvertedIndex.unindex, Table.lookup_erase_ite, exact.lengths]
    by_cases same : other = id
    · simp [same]
    · simp [same]
  · have removed := Table.total_erase ix.docLengths_ id
    simp only [InvertedIndex.unindex, exact.total]
    omega

private theorem pushTerms_spec (id : Nat) (entries : Table.Entries Bytes Nat)
    (ix : InvertedIndex) (distinct : entries.NodupKeys) :
    (∀ term, (entries.foldl (pushTerm id) ix).postings_.lookup term =
      match Table.find entries term with
      | some freq => some (ix.postingsOf term ++ [⟨id, freq⟩])
      | none => ix.postings_.lookup term) ∧
    (∀ other, (entries.foldl (pushTerm id) ix).termsOf other =
      if other = id then ix.termsOf id ++ entries.map (fun e => (e.1, e.2))
      else ix.termsOf other) ∧
    (entries.foldl (pushTerm id) ix).totalTerms_ =
      ix.totalTerms_ + (entries.map (·.2)).sum := by
  induction entries generalizing ix with
  | nil => simp
  | cons entry rest ih =>
    obtain ⟨term, freq⟩ := entry
    obtain ⟨absent, distinctRest⟩ := List.nodupKeys_cons.mp distinct
    have missing : Table.find rest term = none := Table.find_eq_none_iff.mpr absent
    obtain ⟨postings, terms, total⟩ := ih (pushTerm id ix ⟨term, freq⟩) distinctRest
    refine ⟨?_, ?_, ?_⟩
    · intro query
      rw [List.foldl_cons, postings query, Table.find_cons]
      by_cases same : query = term
      · subst query
        simp [missing, pushTerm, postingsOf]
      · simp [same, pushTerm, postingsOf]
    · intro other
      rw [List.foldl_cons, terms other]
      by_cases same : other = id
      · simp [same, pushTerm, termsOf]
      · simp [same, pushTerm, termsOf]
    · rw [List.foldl_cons, total]
      simp [pushTerm, Nat.add_assoc]

/-- The term loop touches only postings, terms and total. -/
theorem pushTerms_frame (id : Nat) (entries : Table.Entries Bytes Nat)
    (ix : InvertedIndex) :
    (entries.foldl (pushTerm id) ix).urlToId_ = ix.urlToId_ ∧
      (entries.foldl (pushTerm id) ix).docs_ = ix.docs_ ∧
      (entries.foldl (pushTerm id) ix).docLengths_ = ix.docLengths_ ∧
      (entries.foldl (pushTerm id) ix).nextId_ = ix.nextId_ := by
  induction entries generalizing ix with
  | nil => simp
  | cons entry rest ih => simpa [pushTerm] using ih (pushTerm id ix entry)

private theorem sumLength_eq (id : Nat) (entries : Table.Entries Bytes Nat)
    (lengths : Table Nat Nat) :
    sumLength id entries lengths = lengths.insert id (entries.map (·.2)).sum := by
  have walk : ∀ (entries : Table.Entries Bytes Nat) (base : Nat),
      entries.foldl (fun lengths entry =>
        lengths.insert id ((lengths.lookup id).getD 0 + entry.2)) (lengths.insert id base) =
        lengths.insert id (base + (entries.map (·.2)).sum) := by
    intro entries
    induction entries with
    | nil => simp
    | cons entry rest ih =>
      intro base
      simp only [List.foldl_cons, AList.lookup_insert, Option.getD_some, AList.insert_insert, ih,
        List.map_cons, List.sum_cons, Nat.add_assoc]
  simpa [sumLength] using walk entries 0

private theorem postingsOf_pushTerms (ix : InvertedIndex) (id : Nat) (doc : Document)
    {entries : Table.Entries Bytes Nat} (distinct : entries.NodupKeys)
    (weights : ∀ term, Table.find entries term =
      if term ∈ doc.tokens then some (doc.termFreq term) else none) (term : Bytes) :
    (entries.foldl (pushTerm id) ix).postingsOf term =
      ix.postingsOf term ++ if term ∈ doc.tokens then [⟨id, doc.termFreq term⟩] else [] := by
  obtain ⟨postings, _⟩ := pushTerms_spec id entries ix distinct
  rw [postingsOf, postings term, weights term]
  by_cases inside : term ∈ doc.tokens
  · simp [inside]
  · simp [inside, postingsOf]

private theorem Indexed.docId_ne {ix : InvertedIndex} {live : Nat → Option Document}
    (exact : ix.Indexed live) {id : Nat} (fresh : live id = none) {term : Bytes}
    {posting : Posting} (member : posting ∈ ix.postingsOf term) : posting.docId ≠ id := by
  rintro rfl
  obtain ⟨_, alive, _⟩ := (exact.mem_postings term posting).mp member
  rw [fresh] at alive
  cases alive

/-- Indexing a document that is not described yet adds it to the described table. -/
theorem Indexed.push {ix : InvertedIndex} {live : Nat → Option Document}
    (exact : ix.Indexed live) {id : Nat} (doc : Document) {entries : Table.Entries Bytes Nat}
    (fresh : live id = none) (distinct : entries.NodupKeys)
    (weights : ∀ term, Table.find entries term =
      if term ∈ doc.tokens then some (doc.termFreq term) else none)
    (listed : (entries.map fun e => (e.1, e.2)).Perm doc.termFreqs) :
    Indexed { entries.foldl (pushTerm id) ix with
      docLengths_ := sumLength id entries (entries.foldl (pushTerm id) ix).docLengths_ }
      (Function.update live id (some doc)) := by
  obtain ⟨postings, terms, total⟩ := pushTerms_spec id entries ix distinct
  obtain ⟨_, _, lengths, _⟩ := pushTerms_frame id entries ix
  have unlisted : ix.termsOf id = [] := by
    have empty := exact.terms id
    rw [fresh] at empty
    exact empty.eq_nil
  have length : (entries.map (·.2)).sum = doc.weightedLength := by
    have values := (listed.map Prod.snd).sum_eq
    simpa [Document.weightedLength, Function.comp_def] using values
  have pushed := postingsOf_pushTerms ix id doc distinct weights
  refine ⟨?_, ?_, ?_, ?_, ?_, ?_⟩
  · intro term
    rw [postings term]
    cases Table.find entries term with
    | none => exact exact.nonempty term
    | some freq => simp
  · intro term
    change (((entries.foldl (pushTerm id) ix).postingsOf term).map (·.docId)).Nodup
    rw [pushed term, List.map_append]
    refine List.nodup_append.mpr ⟨exact.nodup term, by split <;> simp, ?_⟩
    intro other member single present same
    obtain ⟨posting, held, rfl⟩ := List.mem_map.mp member
    subst single
    split at present
    · exact exact.docId_ne fresh held (List.mem_singleton.mp present)
    · cases present
  · intro term posting
    change posting ∈ (entries.foldl (pushTerm id) ix).postingsOf term ↔ _
    rw [pushed term, List.mem_append, exact.mem_postings]
    obtain ⟨docId, termFreq⟩ := posting
    by_cases same : docId = id
    · subst docId
      by_cases inside : term ∈ doc.tokens
      · simp [fresh, inside]
      · simp [fresh, inside]
    · by_cases inside : term ∈ doc.tokens
      · simp [same, inside]
      · simp [same, inside]
  · intro other
    change ((entries.foldl (pushTerm id) ix).termsOf other).Perm _
    rw [terms other]
    by_cases same : other = id
    · simpa [same, unlisted] using listed
    · simpa [same] using exact.terms other
  · intro other
    simp only [sumLength_eq, Table.lookup_insert_ite, lengths, length, exact.lengths]
    by_cases same : other = id
    · simp [same]
    · simp [same]
  · have unmeasured : ix.docLengths_.lookup id = none := by rw [exact.lengths, fresh]; rfl
    simp only [sumLength_eq, lengths, total, Table.total_insert_fresh _ _ _ unmeasured,
      exact.total]
    omega

end InvertedIndex

end ShadowSe
