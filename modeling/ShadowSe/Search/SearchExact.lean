import ShadowSe.Search.Bm25
import ShadowSe.Text.TokenStable

namespace ShadowSe

open Support

variable {D : Type} [Double D]

namespace BM25Ranker

/-- The score of a document under the statistics of an index. An average length that is
not positive, as when all counts wrap to zero, stops the search. -/
def scoreIn (params : Params D) (ix : InvertedIndex) (queryTokens : List Bytes)
    (doc : Document) : Option D :=
  if ix.averageDocLength D ≤ 0.0 then none
  else matchScore params (ix.documentCount : D) (ix.averageDocLength D)
    (fun term => (ix.postingsOf term).length) (uniqueTerms queryTokens) doc

/-- The live documents with a match, each with its score. -/
def scoredMatches (params : Params D) (ix : InvertedIndex) (queryTokens : List Bytes) :
    List (ScoredDocument D) :=
  ix.docs_.entries.filterMap fun entry =>
    (scoreIn params ix queryTokens entry.2).map fun score => ⟨entry.2, score⟩

theorem scoreIn_isSome_iff {params : Params D} {ix : InvertedIndex} {queryTokens : List Bytes}
    {doc : Document} : (scoreIn params ix queryTokens doc).isSome ↔
      ¬ ix.averageDocLength D ≤ 0.0 ∧ ∃ term ∈ queryTokens, term ∈ doc.tokens := by
  unfold scoreIn
  split
  · simp [*]
  · simp [*, matchScore_isSome_iff, mem_uniqueTerms]

theorem mem_scoredMatches {params : Params D} {ix : InvertedIndex} {queryTokens : List Bytes}
    {result : ScoredDocument D} : result ∈ scoredMatches params ix queryTokens ↔
      ∃ id, ix.docs_.lookup id = some result.doc ∧
        scoreIn params ix queryTokens result.doc = some result.score := by
  simp only [scoredMatches, List.mem_filterMap, Option.map_eq_some_iff]
  constructor
  · rintro ⟨⟨id, doc⟩, member, score, scored, rfl⟩
    exact ⟨id, Table.mem_entries_iff.mp member, scored⟩
  · rintro ⟨id, live, scored⟩
    exact ⟨⟨id, result.doc⟩, Table.mem_entries_iff.mpr live, result.score, scored, rfl⟩

theorem scoredMatches_eq_nil {ix : InvertedIndex} (params : Params D) (queryTokens : List Bytes)
    (guarded : queryTokens = [] ∨ (ix.documentCount : D) = 0.0 ∨ ix.averageDocLength D ≤ 0.0) :
    scoredMatches params ix queryTokens = [] := by
  refine List.eq_nil_iff_forall_not_mem.mpr fun result member => ?_
  obtain ⟨id, live, scored⟩ := mem_scoredMatches.mp member
  obtain ⟨long, term, asked, _⟩ := scoreIn_isSome_iff.mp (Option.isSome_of_eq_some scored)
  rcases guarded with none | none | flat
  · simp [none] at asked
  · have counted : 0 < ix.documentCount :=
      List.length_pos_of_mem (Table.mem_entries_iff.mpr live)
    exact absurd none (Double.natCast_pos _ counted).ne'
  · exact long flat

/-- Among documents with different ids the comparator leaves no two unordered. -/
theorem before_separates {results : List (ScoredDocument D)}
    (distinct : (results.map (·.doc.id)).Nodup) :
    ∀ a ∈ results, ∀ b ∈ results, ¬ before a b → ¬ before b a → a = b := by
  intro a inA b inB notBefore notAfter
  unfold before at notBefore notAfter
  have tied : a.score = b.score := by
    by_contra different
    rw [if_pos different] at notBefore
    rw [if_pos (Ne.symm different)] at notAfter
    exact different (le_antisymm (not_lt.mp notBefore) (not_lt.mp notAfter))
  simp only [tied, ne_eq, not_true_eq_false, ↓reduceIte] at notBefore notAfter
  exact List.inj_on_of_nodup_map distinct inA inB (by omega)

variable {ix : InvertedIndex} (sound : ix.Represents)
include sound

theorem nodup_ids_scoredMatches (params : Params D) (queryTokens : List Bytes) :
    ((scoredMatches params ix queryTokens).map (·.doc.id)).Nodup := by
  refine Table.nodup_filterMap_labels ix.docs_.nodupKeys ?_
  intro entry member result computed
  obtain ⟨score, _, rfl⟩ := Option.map_eq_some_iff.mp computed
  exact (sound.ids entry.1 entry.2 (Table.mem_entries_iff.mp member)).1

/-- The collected results are the scored matches, in the order of the traversal. -/
theorem collected_perm (order : VisitOrder) (params : Params D) (queryTokens : List Bytes)
    (long : ¬ ix.averageDocLength D ≤ 0.0) :
    ((order.visit ((uniqueTerms queryTokens).foldl (scoreTerm params (ix.documentCount : D)
        (ix.averageDocLength D) ix) ∅).entries).filterMap fun entry =>
      (ix.document entry.1).map fun doc => (⟨doc, entry.2⟩ : ScoredDocument D)).Perm
      (scoredMatches params ix queryTokens) := by
  refine (List.perm_ext_iff_of_nodup ?_ ?_).mpr fun result => ?_
  · refine .of_map (·.doc.id) (Table.nodup_filterMap_labels (Table.nodupKeys_visit order _) ?_)
    intro entry _ result computed
    obtain ⟨doc, live, rfl⟩ := Option.map_eq_some_iff.mp computed
    exact (sound.ids entry.1 doc live).1
  · exact .of_map _ (nodup_ids_scoredMatches sound params queryTokens)
  · simp only [mem_scoredMatches, List.mem_filterMap, order.mem_visit, Option.map_eq_some_iff,
      InvertedIndex.document]
    constructor
    · rintro ⟨⟨id, score⟩, member, doc, live, rfl⟩
      have accumulated := Table.mem_entries_iff.mp member
      rw [scoreTerms_lookup sound, live] at accumulated
      exact ⟨id, live, by rwa [scoreIn, if_neg long]⟩
    · rintro ⟨id, live, scored⟩
      refine ⟨⟨id, result.score⟩, Table.mem_entries_iff.mpr ?_, result.doc, live, rfl⟩
      rw [scoreTerms_lookup sound, live]
      rwa [scoreIn, if_neg long] at scored

/-- What `rank` returns over a faithful index, whatever the traversal order. -/
theorem rank_eq (order : VisitOrder) (params : Params D) (queryTokens : List Bytes)
    (limit : Nat) : rank order params ix queryTokens limit =
      finish (scoredMatches params ix queryTokens) limit := by
  have skipped (guarded : queryTokens = [] ∨ (ix.documentCount : D) = 0.0 ∨
      ix.averageDocLength D ≤ 0.0) :
      finish (scoredMatches params ix queryTokens) limit = [] := by
    simp [scoredMatches_eq_nil params queryTokens guarded, finish, rankBy]
  unfold rank
  by_cases empty : queryTokens = []
  · rw [if_pos empty, skipped (.inl empty)]
  by_cases guarded : (ix.documentCount : D) = 0.0 ∨ ix.averageDocLength D ≤ 0.0
  · rw [if_neg empty, if_pos guarded, skipped (.inr guarded)]
  rw [if_neg empty, if_neg guarded]
  have collected := collected_perm sound order params queryTokens (not_or.mp guarded).2
  have distinct := (collected.map (·.doc.id)).nodup_iff.mpr
    (nodup_ids_scoredMatches sound params queryTokens)
  exact congrArg (List.take limit) (rankBy_eq_of_pairwise before_strictWeak
    ((rankBy_perm before _).trans collected.symm) (rankBy_pairwise before_strictWeak _)
    (before_separates distinct))

/-- Without wrapping, one token in one document makes the average length positive. -/
theorem averageDocLength_pos (bounded : ix.AllStored Document.NoWrap) {id : Nat} {doc : Document}
    (live : ix.docs_.lookup id = some doc) {term : Bytes} (inside : term ∈ doc.tokens) :
    ¬ ix.averageDocLength D ≤ 0.0 := by
  have counted : 0 < ix.documentCount :=
    List.length_pos_of_mem (Table.mem_entries_iff.mpr live)
  have total : 0 < ix.totalTerms_ := by
    have held : (ix.docLengths_.lookup id).getD 0 = doc.weightedLength := by
      rw [sound.indexed.lengths, live]
      rfl
    have positive := (bounded id doc live).weightedLength_pos inside
    have erased := Table.total_erase ix.docLengths_ id
    rw [sound.indexed.total]
    omega
  rw [InvertedIndex.averageDocLength, if_neg (by omega)]
  exact not_le.mpr (Double.ratio_pos _ _ total counted)

/-- A limit that leaves room for every document cuts nothing off. -/
theorem mem_rank_iff (bounded : ix.AllStored Document.NoWrap) (order : VisitOrder)
    (params : Params D) (queryTokens : List Bytes) {limit : Nat}
    (enough : ix.documentCount ≤ limit) (doc : Document) :
    doc ∈ (rank order params ix queryTokens limit).map (·.doc) ↔
      (∃ id, ix.document id = some doc) ∧ ∃ term ∈ queryTokens, term ∈ doc.tokens := by
  have short : (rankBy before (scoredMatches params ix queryTokens)).length ≤ limit := by
    rw [(rankBy_perm before _).length_eq]
    exact (List.length_filterMap_le _ _).trans enough
  rw [rank_eq sound, finish, List.take_of_length_le short,
    ((rankBy_perm before _).map _).mem_iff, List.mem_map]
  constructor
  · rintro ⟨result, member, rfl⟩
    obtain ⟨id, live, scored⟩ := mem_scoredMatches.mp member
    exact ⟨⟨id, live⟩, (scoreIn_isSome_iff.mp (Option.isSome_of_eq_some scored)).2⟩
  · rintro ⟨⟨id, live⟩, term, asked, inside⟩
    have matched : (scoreIn params ix queryTokens doc).isSome :=
      scoreIn_isSome_iff.mpr ⟨averageDocLength_pos sound bounded live inside, term, asked, inside⟩
    obtain ⟨score, scored⟩ := Option.isSome_iff_exists.mp matched
    exact ⟨⟨doc, score⟩, mem_scoredMatches.mpr ⟨id, live, scored⟩, rfl⟩

theorem nodup_rank (order : VisitOrder) (params : Params D) (queryTokens : List Bytes)
    (limit : Nat) : ((rank order params ix queryTokens limit).map (·.doc.id)).Nodup := by
  rw [rank_eq sound, finish, List.map_take]
  exact (((rankBy_perm before _).map _).nodup_iff.mpr
    (nodup_ids_scoredMatches sound params queryTokens)).sublist (List.take_sublist _ _)

end BM25Ranker

open BM25Ranker

/-- Searching returns the live documents that share a token with the query, each once,
and finds a document by each of its own tokens. -/
structure Engine.SearchesExactly (D : Type) [Double D] (order : VisitOrder)
    (ix : InvertedIndex) (limit : Nat) : Prop where
  once : ∀ query, ((Engine.search D order ix query limit).map (·.doc.id)).Nodup
  hits : ∀ query doc, doc ∈ (Engine.search D order ix query limit).map (·.doc) ↔
    (∃ id, ix.document id = some doc) ∧ ∃ token ∈ tokenize query, token ∈ doc.tokens
  ownTokens : ∀ id doc, ix.document id = some doc → ∀ token ∈ doc.tokens,
    doc ∈ (Engine.search D order ix token limit).map (·.doc)

/-- Search is exact over every index that calls can reach, when the limit has room for
every document. -/
theorem Engine.search_exact (D : Type) [Double D] (layout : Layout) (order : VisitOrder)
    (ops : List IndexOp) (bounded : ∀ op ∈ ops, ∀ doc ∈ op.documents, doc.NoWrap)
    (limit : Nat) (enough : (IndexOp.runAll layout ops).documentCount ≤ limit) :
    Engine.SearchesExactly D order (IndexOp.runAll layout ops) limit := by
  have sound := IndexOp.represents_runAll layout ops
  have stored := IndexOp.allStored_runAll (P := Document.NoWrap) (fun _ _ held => held) layout bounded
  have hits (query : Bytes) (doc : Document) := mem_rank_iff (D := D) sound stored order .standard
    (tokenize query) enough doc
  refine ⟨fun query => nodup_rank sound order _ _ _, hits, ?_⟩
  intro id doc live token inside
  refine (hits token doc).mpr ⟨⟨id, live⟩, token, ?_, inside⟩
  have valid : IsToken token := by
    simp only [Document.tokens, List.mem_append] at inside
    rcases inside with title | snippet | content
    · exact isToken_of_mem_tokenize title
    · exact isToken_of_mem_tokenize snippet
    · exact isToken_of_mem_tokenize content
  rw [valid.tokenize_eq]
  exact List.mem_singleton.mpr rfl

/-- The first page is replaced and the second removed, and two pages are left. -/
theorem Engine.search_exact_history : Engine.SearchesExactly ℝ .reversed
    (IndexOp.runAll (fun _ => .stored) [.addDocument { url := ascii "a", title := ascii "Old" },
      .addDocument { url := ascii "b", content := ascii "two words" },
      .addDocument { url := ascii "c", content := ascii "three words" },
      .addDocument { url := ascii "a", title := ascii "New" }, .removeDocument 2]) 2 :=
  Engine.search_exact ℝ _ _ _ (by
    intro op member doc present
    apply Document.noWrap_of_length
    revert op doc
    decide) 2 (by decide)

end ShadowSe
