import Mathlib.Algebra.BigOperators.Group.Finset.Basic
import ShadowSe.Search.Bm25

/-! The ranker against the BM25 formula, in exact real arithmetic. The specification
speaks of postings, lengths and counts only; that the terms are visited in some order,
the postings in another and the accumulator in a third leaves no trace in it. -/

namespace ShadowSe

open Support

namespace BM25Ranker

/-- The posting of a document in the list of a term. -/
def postingFor (ix : InvertedIndex) (id : Nat) (term : Bytes) : Option Posting :=
  (ix.postingsOf term).find? fun p => p.docId = id

/-- The BM25 formula for one term: `n` of `N` documents have it, this one `f` times. -/
noncomputable def bm25Term (params : Params ℝ) (N n f dl avgdl : ℝ) : ℝ :=
  Real.log (1 + (N - n + 0.5) / (n + 0.5)) * (f * (params.k1 + 1) /
    (f + params.k1 * (1 - params.b + params.b * dl / avgdl)))

/-- What one term adds to the score of a document. -/
noncomputable def contribution (params : Params ℝ) (ix : InvertedIndex) (id : Nat)
    (term : Bytes) : ℝ :=
  match postingFor ix id term with
  | none => 0
  | some p => bm25Term params ix.documentCount (ix.postingsOf term).length p.termFreq
      (ix.docLength id) (ix.averageDocLength ℝ)

/-- The score of a document: the sum over the distinct query tokens. -/
noncomputable def bm25Score (params : Params ℝ) (ix : InvertedIndex)
    (queryTokens : List Bytes) (id : Nat) : ℝ :=
  ∑ term ∈ queryTokens.toFinset, contribution params ix id term

/-- A document has a posting for one of the query tokens. -/
def Matches (ix : InvertedIndex) (queryTokens : List Bytes) (id : Nat) : Prop :=
  ∃ term ∈ queryTokens, ∃ p ∈ ix.postingsOf term, p.docId = id

instance (ix : InvertedIndex) (queryTokens : List Bytes) (id : Nat) :
    Decidable (Matches ix queryTokens id) :=
  inferInstanceAs (Decidable (∃ term ∈ queryTokens, ∃ p ∈ ix.postingsOf term, p.docId = id))

/-- The full ranking of a query: every matching document once, with its score, by
descending score and then ascending id. -/
structure IsRanking (params : Params ℝ) (ix : InvertedIndex) (queryTokens : List Bytes)
    (ranking : List (ScoredDocument ℝ)) : Prop where
  members : ∀ result, result ∈ ranking ↔ ix.document result.doc.id = some result.doc ∧
    Matches ix queryTokens result.doc.id ∧
    result.score = bm25Score params ix queryTokens result.doc.id
  once : (ranking.map (·.doc.id)).Nodup
  sorted : ranking.Pairwise fun a b =>
    b.score < a.score ∨ a.score = b.score ∧ a.doc.id < b.doc.id

/-- The specification depends on the set of query tokens only. -/
theorem IsRanking.congr {params : Params ℝ} {ix : InvertedIndex} {queryTokens other : List Bytes}
    {ranking : List (ScoredDocument ℝ)} (ranked : IsRanking params ix queryTokens ranking)
    (same : ∀ term, term ∈ other ↔ term ∈ queryTokens) : IsRanking params ix other ranking := by
  have sets : other.toFinset = queryTokens.toFinset := by
    ext term
    simp [same]
  have matched (id : Nat) : Matches ix other id ↔ Matches ix queryTokens id := by
    simp only [Matches, same]
  refine ⟨fun result => ?_, ranked.once, ranked.sorted⟩
  rw [ranked.members, matched, bm25Score, bm25Score, sets]

/-- No two lists are rankings of one query. -/
theorem IsRanking.unique {params : Params ℝ} {ix : InvertedIndex} {queryTokens : List Bytes}
    {first second : List (ScoredDocument ℝ)} (ranked : IsRanking params ix queryTokens first)
    (other : IsRanking params ix queryTokens second) : first = second := by
  have perm : first.Perm second :=
    (List.perm_ext_iff_of_nodup (.of_map _ ranked.once) (.of_map _ other.once)).mpr
      fun result => (ranked.members result).trans (other.members result).symm
  refine List.Perm.eq_of_pairwise ?_ ranked.sorted other.sorted perm
  intro a b _ _ ahead behind
  rcases ahead with higher | ⟨tied, earlier⟩
  · rcases behind with lower | ⟨same, _⟩
    · exact absurd higher lower.asymm
    · exact absurd same higher.ne
  · rcases behind with lower | ⟨_, later⟩
    · exact absurd tied lower.ne
    · exact absurd earlier later.asymm

theorem termScore_real (params : Params ℝ) (N avgdl : ℝ) (postingCount termFreq docLength : Nat) :
    termScore params N avgdl postingCount termFreq docLength =
      bm25Term params N postingCount termFreq docLength avgdl := by
  have one : (1.0 : ℝ) = 1 := by norm_num
  change Real.log ((1.0 : ℝ) + (N - postingCount + (0.5 : ℝ)) / (postingCount + (0.5 : ℝ))) *
    ((termFreq : ℝ) * (params.k1 + (1.0 : ℝ)) / (termFreq + params.k1 *
      ((1.0 : ℝ) - params.b + params.b * docLength / avgdl))) = _
  rw [bm25Term, one]

theorem matches_iff {ix : InvertedIndex} {queryTokens : List Bytes} {id : Nat} :
    Matches ix queryTokens id ↔ ∃ term ∈ queryTokens, (postingFor ix id term).isSome := by
  simp [Matches, postingFor]

variable {ix : InvertedIndex} (consistent : ix.Consistent)
include consistent

theorem nodup_postingsOf (term : Bytes) : ((ix.postingsOf term).map (·.docId)).Nodup := by
  cases found : ix.postings_.lookup term with
  | none => simp [InvertedIndex.postingsOf, found]
  | some list =>
    simpa [InvertedIndex.postingsOf, found] using (consistent.postings term list found).1

/-- A posting belongs to a live document that contains the term. -/
theorem live_of_mem_postingsOf {term : Bytes} {p : Posting} (member : p ∈ ix.postingsOf term) :
    ∃ doc, ix.docs_.lookup p.docId = some doc ∧ term ∈ doc.tokens ∧
      p.termFreq = doc.termWeight term := by
  cases found : ix.postings_.lookup term with
  | none => simp [InvertedIndex.postingsOf, found] at member
  | some list =>
    rw [InvertedIndex.postingsOf, found] at member
    exact ((consistent.postings term list found).2 p.docId p.termFreq).mp member

private theorem scoreTerm_posting (params : Params ℝ) (accum : Table Nat ℝ) (term : Bytes)
    (id : Nat) : (scoreTerm params (ix.documentCount : ℝ) (ix.averageDocLength ℝ) ix accum
      term).lookup id = if (postingFor ix id term).isSome then
        some ((accum.lookup id).getD 0 + contribution params ix id term)
      else accum.lookup id := by
  have zero : (0.0 : ℝ) = 0 := by norm_num
  have distinct := nodup_postingsOf consistent term
  unfold scoreTerm InvertedIndex.postings
  cases found : ix.postings_.lookup term with
  | none => simp [postingFor, InvertedIndex.postingsOf, found]
  | some list =>
    have same : ix.postingsOf term = list := by simp [InvertedIndex.postingsOf, found]
    rw [same] at distinct
    refine (addPostings_lookup _ list distinct accum id).trans ?_
    simp only [contribution, postingFor, same]
    cases hit : list.find? fun p => p.docId = id with
    | none => rfl
    | some p =>
      have own : p.docId = id := by simpa using List.find?_some hit
      simp only [termScore_real, own, Option.isSome_some, ↓reduceIte]
      exact congrArg some (congrArg (· + _) (congrArg _ zero))

omit consistent in
private theorem contribution_silent {params : Params ℝ} {id : Nat} {term : Bytes}
    (absent : ¬ (postingFor ix id term).isSome) : contribution params ix id term = 0 := by
  simp only [contribution, Option.not_isSome_iff_eq_none.mp absent]

private theorem scoreTerms_sum (params : Params ℝ) (terms : List Bytes) (accum : Table Nat ℝ)
    (id : Nat) : (terms.foldl (scoreTerm params (ix.documentCount : ℝ) (ix.averageDocLength ℝ) ix)
      accum).lookup id = if Matches ix terms id then
        some ((accum.lookup id).getD 0 + (terms.map (contribution params ix id)).sum)
      else accum.lookup id := by
  induction terms generalizing accum with
  | nil => simp [Matches]
  | cons term rest ih =>
    have matched : Matches ix (term :: rest) id ↔
        (postingFor ix id term).isSome ∨ Matches ix rest id := by
      simp [matches_iff]
    rw [List.foldl_cons, ih, scoreTerm_posting consistent, List.map_cons, List.sum_cons]
    by_cases later : Matches ix rest id
    · rw [if_pos later, if_pos (matched.mpr (.inr later))]
      by_cases now : (postingFor ix id term).isSome
      · simp [now, add_assoc]
      · simp [now, contribution_silent now]
    · have silent : (rest.map (contribution params ix id)).sum = 0 := by
        apply List.sum_eq_zero
        intro amount member
        obtain ⟨other, present, rfl⟩ := List.mem_map.mp member
        exact contribution_silent fun found => later (matches_iff.mpr ⟨other, present, found⟩)
      rw [if_neg later]
      by_cases now : (postingFor ix id term).isSome
      · simp [now, matched, silent]
      · simp [now, matched, later]

omit consistent in
theorem uniqueTerms_toFinset (queryTokens : List Bytes) :
    (uniqueTerms queryTokens).Nodup ∧
      (uniqueTerms queryTokens).toFinset = queryTokens.toFinset := by
  refine ⟨nodup_destutter_ne (List.pairwise_insertionSort (· ≤ ·) queryTokens), ?_⟩
  ext term
  simp [mem_uniqueTerms]

/-- After all terms the accumulator maps the matching documents to their scores. -/
theorem accumulated_lookup (params : Params ℝ) (queryTokens : List Bytes) (id : Nat) :
    ((uniqueTerms queryTokens).foldl (scoreTerm params (ix.documentCount : ℝ)
      (ix.averageDocLength ℝ) ix) ∅).lookup id =
        if Matches ix queryTokens id then some (bm25Score params ix queryTokens id)
        else none := by
  obtain ⟨distinct, sets⟩ := uniqueTerms_toFinset queryTokens
  have matched : Matches ix (uniqueTerms queryTokens) id ↔ Matches ix queryTokens id := by
    simp only [Matches, mem_uniqueTerms]
  have total : bm25Score params ix queryTokens id =
      ((uniqueTerms queryTokens).map (contribution params ix id)).sum := by
    rw [bm25Score, ← sets, List.sum_toFinset _ distinct]
  rw [scoreTerms_sum consistent, total]
  simp [matched]

theorem termFreq_pos {term : Bytes} {p : Posting} (member : p ∈ ix.postingsOf term) :
    0 < p.termFreq := by
  obtain ⟨doc, _, inside, freq⟩ := live_of_mem_postingsOf consistent member
  rw [freq]
  exact Nat.pos_of_ne_zero (mt Document.termWeight_eq_zero_iff.mp (not_not_intro inside))

/-- A posting anywhere means the collection is not empty and its average length is
positive, so the guards let the search through. -/
theorem averageDocLength_pos_of_posting {term : Bytes} {p : Posting}
    (member : p ∈ ix.postingsOf term) :
    0 < ix.documentCount ∧ 0 < ix.averageDocLength ℝ := by
  have positive := termFreq_pos consistent member
  obtain ⟨doc, live, inside, freq⟩ := live_of_mem_postingsOf consistent member
  have entry : (⟨p.docId, doc⟩ : Sigma fun _ : Nat => Document) ∈ ix.docs_.entries :=
    Table.mem_entries_iff.mpr live
  have counted : 0 < ix.documentCount := List.length_pos_of_mem entry
  have weighed : doc.termWeight term ≤ (ix.docLengths_.lookup p.docId).getD 0 := by
    rw [consistent.docLengths p.docId doc live, Option.getD_some]
    exact List.le_sum_of_mem (List.mem_map_of_mem (List.mem_dedup.mpr inside))
  have summed : (ix.docLengths_.lookup p.docId).getD 0 ≤ ix.totalTerms_ := by
    rw [consistent.totalTerms]
    exact List.le_sum_of_mem (List.mem_map.mpr ⟨_, entry, rfl⟩)
  have quotient : (0 : ℝ) < (ix.totalTerms_ : ℝ) / ix.documentCount :=
    div_pos (Nat.cast_pos.mpr (by omega)) (Nat.cast_pos.mpr counted)
  refine ⟨counted, ?_⟩
  rw [InvertedIndex.averageDocLength, if_neg counted.ne']
  exact quotient

theorem length_postingsOf_le (term : Bytes) :
    (ix.postingsOf term).length ≤ ix.documentCount := by
  have known : (ix.postingsOf term).map (·.docId) ⊆ ix.docs_.keys := by
    intro id member
    obtain ⟨p, present, rfl⟩ := List.mem_map.mp member
    obtain ⟨doc, live, _⟩ := live_of_mem_postingsOf consistent present
    exact AList.lookup_isSome.mp (Option.isSome_of_eq_some live)
  have bounded := ((nodup_postingsOf consistent term).subperm known).length_le
  rwa [List.length_map, AList.keys, List.keys, List.length_map] at bounded

/-- The collected results before sorting; the guards leave none. -/
noncomputable def collected (order : VisitOrder) (params : Params ℝ) (ix : InvertedIndex)
    (queryTokens : List Bytes) : List (ScoredDocument ℝ) :=
  if queryTokens = [] then []
  else if (ix.documentCount : ℝ) = 0.0 ∨ ix.averageDocLength ℝ ≤ 0.0 then []
  else (order.visit ((uniqueTerms queryTokens).foldl (scoreTerm params (ix.documentCount : ℝ)
    (ix.averageDocLength ℝ) ix) ∅).entries).filterMap fun entry =>
      (ix.document entry.1).map fun doc => ⟨doc, entry.2⟩

omit consistent in
theorem rank_eq_collected (order : VisitOrder) (params : Params ℝ) (queryTokens : List Bytes)
    (limit : Nat) : rank order params ix queryTokens limit =
      finish (collected order params ix queryTokens) limit := by
  have nothing : finish ([] : List (ScoredDocument ℝ)) limit = [] := by simp [finish, rankBy]
  by_cases empty : queryTokens = []
  · simp only [rank, collected, if_pos empty, nothing]
  by_cases guarded : (ix.documentCount : ℝ) = 0.0 ∨ ix.averageDocLength ℝ ≤ 0.0
  · simp only [rank, collected, if_neg empty, if_pos guarded, nothing]
  · simp only [rank, collected, if_neg empty, if_neg guarded]

theorem mem_collected (order : VisitOrder) (params : Params ℝ) (queryTokens : List Bytes)
    (result : ScoredDocument ℝ) : result ∈ collected order params ix queryTokens ↔
      ix.document result.doc.id = some result.doc ∧ Matches ix queryTokens result.doc.id ∧
        result.score = bm25Score params ix queryTokens result.doc.id := by
  have zero : (0.0 : ℝ) = 0 := by norm_num
  unfold collected
  split
  · rename_i nothing
    simp [Matches, nothing]
  split
  · rename_i guarded
    simp only [List.not_mem_nil, false_iff, not_and]
    intro _ matched
    obtain ⟨term, _, p, member, _⟩ := matched
    obtain ⟨counted, long⟩ := averageDocLength_pos_of_posting consistent member
    rcases guarded with empty | flat
    · exact absurd (empty.trans zero) (Nat.cast_pos.mpr counted).ne'
    · exact absurd (flat.trans_eq zero) (not_le.mpr long)
  · simp only [List.mem_filterMap, order.mem_visit, Option.map_eq_some_iff,
      InvertedIndex.document]
    constructor
    · rintro ⟨⟨id, score⟩, member, doc, live, rfl⟩
      have own := (consistent.ids id doc live).1
      have accumulated := Table.mem_entries_iff.mp member
      rw [accumulated_lookup consistent] at accumulated
      split at accumulated
      · rename_i matched
        subst own
        exact ⟨live, matched, (Option.some.inj accumulated).symm⟩
      · cases accumulated
    · rintro ⟨live, matched, scored⟩
      refine ⟨⟨result.doc.id, result.score⟩, Table.mem_entries_iff.mpr ?_, result.doc, live, rfl⟩
      rw [accumulated_lookup consistent, if_pos matched, scored]

theorem nodup_collected (order : VisitOrder) (params : Params ℝ) (queryTokens : List Bytes) :
    ((collected order params ix queryTokens).map (·.doc.id)).Nodup := by
  unfold collected
  split
  · exact List.nodup_nil
  split
  · exact List.nodup_nil
  · refine Table.nodup_filterMap_labels (Table.nodupKeys_visit order _) ?_
    intro entry _ result computed
    obtain ⟨doc, live, rfl⟩ := Option.map_eq_some_iff.mp computed
    exact (consistent.ids entry.1 doc live).1

theorem isRanking_collected (order : VisitOrder) (params : Params ℝ) (queryTokens : List Bytes) :
    IsRanking params ix queryTokens (rankBy before (collected order params ix queryTokens)) := by
  have perm := rankBy_perm before (collected order params ix queryTokens)
  have once := (perm.map (·.doc.id)).nodup_iff.mpr (nodup_collected consistent order params
    queryTokens)
  refine ⟨fun result => ?_, once, ?_⟩
  · rw [perm.mem_iff, mem_collected consistent]
  · have distinct := List.pairwise_map.mp once
    refine ((rankBy_pairwise before_strictWeak _).and distinct).imp ?_
    rintro a b ⟨notAfter, different⟩
    rw [before_iff, not_or, not_and] at notAfter
    rcases lt_trichotomy a.score b.score with lower | tied | higher
    · exact absurd lower notAfter.1
    · have order := notAfter.2 tied.symm
      exact .inr ⟨tied, by omega⟩
    · exact .inl higher

/-- What every call of `rank` for a query returns: the first `limit` entries of its full
ranking, whatever the order of traversal and however the same tokens are listed, so that
a smaller limit gives a prefix of a larger one. -/
structure RanksBy (params : Params ℝ) (ix : InvertedIndex) (queryTokens : List Bytes)
    (ranking : List (ScoredDocument ℝ)) : Prop where
  full : IsRanking params ix queryTokens ranking
  returned : ∀ order limit, rank order params ix queryTokens limit = ranking.take limit
  sameTokens : ∀ order other limit, (∀ term, term ∈ other ↔ term ∈ queryTokens) →
    rank order params ix other limit = rank order params ix queryTokens limit
  shorter : ∀ order small large, small ≤ large →
    rank order params ix queryTokens small <+: rank order params ix queryTokens large

/-- The ranker implements the BM25 specification over every index that satisfies its
invariant, for all parameters. -/
theorem rank_spec (params : Params ℝ) (queryTokens : List Bytes) :
    ∃ ranking, RanksBy params ix queryTokens ranking := by
  have full := isRanking_collected consistent .stored params queryTokens
  have every (order : VisitOrder) (other : List Bytes) (limit : Nat)
      (same : ∀ term, term ∈ other ↔ term ∈ queryTokens) :
      rank order params ix other limit =
        (rankBy before (collected .stored params ix queryTokens)).take limit := by
    rw [rank_eq_collected, finish,
      (isRanking_collected consistent order params other).unique (full.congr same)]
  have own (order : VisitOrder) (limit : Nat) := every order queryTokens limit fun _ => Iff.rfl
  refine ⟨_, full, own, fun order other limit same => ?_, fun order small large smaller => ?_⟩
  · rw [every order other limit same, own]
  · rw [own, own]
    exact List.take_prefix_take_left smaller

/-- An index of two documents that share a word. -/
def sharedWord : InvertedIndex :=
  IndexOp.runAll (fun _ => .stored) [.addDocument { url := ascii "a", title := ascii "Alpha" },
    .addDocument { url := ascii "b", content := ascii "alpha beta" }]

omit consistent in
theorem consistent_sharedWord : sharedWord.Consistent :=
  (IndexOp.represents_runAll _ _).consistent
    (IndexOp.allStored_runAll (fun _ _ held => held) _ (by
      intro op member doc present
      apply Document.noWrap_of_length
      revert op doc
      decide))

omit consistent in
/-- Two documents share a word; the query repeats a token and asks for an absent one. -/
theorem rank_spec_shared : ∃ ranking, RanksBy .standard sharedWord
    [ascii "alpha", ascii "none", ascii "alpha"] ranking :=
  rank_spec consistent_sharedWord .standard [ascii "alpha", ascii "none", ascii "alpha"]

/-- Every step of the arithmetic for one posting: the counts that the logarithm and the
quotients need, and no division by zero. -/
structure Defined (params : Params ℝ) (ix : InvertedIndex) (term : Bytes) (p : Posting) :
    Prop where
  counted : (ix.postingsOf term).length ≤ ix.documentCount
  logArgument : 1 < 1 + ((ix.documentCount : ℝ) - (ix.postingsOf term).length + 0.5) /
    ((ix.postingsOf term).length + 0.5)
  idfDenominator : 0 < ((ix.postingsOf term).length : ℝ) + 0.5
  tfDenominator : 0 < (p.termFreq : ℝ) + params.k1 *
    (1 - params.b + params.b * ix.docLength p.docId / ix.averageDocLength ℝ)
  average : ix.averageDocLength ℝ ≠ 0

variable {params : Params ℝ} (k1 : 0 ≤ params.k1) (b : 0 ≤ params.b ∧ params.b ≤ 1)
include k1 b

theorem defined_of_mem_postingsOf {term : Bytes} {p : Posting} (member : p ∈ ix.postingsOf term) :
    Defined params ix term p := by
  obtain ⟨_, long⟩ := averageDocLength_pos_of_posting consistent member
  have within := length_postingsOf_le consistent term
  have fewer : ((ix.postingsOf term).length : ℝ) ≤ ix.documentCount := Nat.cast_le.mpr within
  have denominator : 0 < ((ix.postingsOf term).length : ℝ) + 0.5 := by positivity
  have frequency : (0 : ℝ) < p.termFreq := Nat.cast_pos.mpr (termFreq_pos consistent member)
  refine ⟨within, ?_, denominator, ?_, long.ne'⟩
  · have numerator : 0 < (ix.documentCount : ℝ) - (ix.postingsOf term).length + 0.5 := by
      linarith
    linarith [div_pos numerator denominator]
  · have relative : 0 ≤ params.b * ix.docLength p.docId / ix.averageDocLength ℝ :=
      div_nonneg (mul_nonneg b.1 (Nat.cast_nonneg _)) long.le
    have scaled := mul_nonneg k1 (show 0 ≤ 1 - params.b +
      params.b * ix.docLength p.docId / ix.averageDocLength ℝ by linarith [b.2])
    linarith

theorem contribution_pos {id : Nat} {term : Bytes} (found : (postingFor ix id term).isSome) :
    0 < contribution params ix id term := by
  obtain ⟨p, hit⟩ := Option.isSome_iff_exists.mp found
  have member : p ∈ ix.postingsOf term := List.mem_of_find?_eq_some hit
  have own : p.docId = id := by simpa using List.find?_some hit
  have frequency : (0 : ℝ) < p.termFreq := Nat.cast_pos.mpr (termFreq_pos consistent member)
  obtain ⟨_, logArgument, _, denominator, _⟩ := defined_of_mem_postingsOf consistent k1 b member
  subst own
  have raised : 0 < params.k1 + 1 := by linarith
  simp only [contribution, hit, bm25Term]
  exact mul_pos (Real.log_pos logArgument)
    (div_pos (mul_pos frequency raised) denominator)

theorem bm25Score_pos {queryTokens : List Bytes} {id : Nat}
    (matched : Matches ix queryTokens id) : 0 < bm25Score params ix queryTokens id := by
  obtain ⟨term, asked, found⟩ := matches_iff.mp matched
  refine Finset.sum_pos' ?_ ⟨term, List.mem_toFinset.mpr asked,
    contribution_pos consistent k1 b found⟩
  intro other _
  by_cases scored : (postingFor ix id other).isSome
  · exact (contribution_pos consistent k1 b scored).le
  · exact (contribution_silent scored).ge

omit consistent

/-- In every index state that calls can reach, the arithmetic of ranking is defined for
every posting visited, and every returned score is positive. -/
theorem rank_defined (layout : Layout) (ops : List IndexOp)
    (bounded : ∀ op ∈ ops, ∀ doc ∈ op.documents, doc.NoWrap) (order : VisitOrder)
    (queryTokens : List Bytes) (limit : Nat) :
    (∀ term ∈ queryTokens, ∀ p ∈ (IndexOp.runAll layout ops).postingsOf term,
      Defined params (IndexOp.runAll layout ops) term p) ∧
    ∀ result ∈ rank order params (IndexOp.runAll layout ops) queryTokens limit,
      0 < result.score := by
  have consistent := (IndexOp.represents_runAll layout ops).consistent
    (IndexOp.allStored_runAll (fun _ _ held => held) layout bounded)
  refine ⟨fun term _ p member => defined_of_mem_postingsOf consistent k1 b member, ?_⟩
  intro result returned
  rw [rank_eq_collected, finish] at returned
  have member := (rankBy_perm before _).mem_iff.mp (List.mem_of_mem_take returned)
  obtain ⟨_, matched, scored⟩ :=
    (mem_collected consistent order params queryTokens result).mp member
  rw [scored]
  exact bm25Score_pos consistent k1 b matched

omit k1 b in
theorem rank_defined_ubiquitous :
    (∀ term ∈ [ascii "alpha"], ∀ p ∈ (IndexOp.runAll (fun _ => .stored)
      [.addDocument { url := ascii "a", title := ascii "Alpha" }]).postingsOf term,
      Defined (⟨0, 0⟩ : Params ℝ) (IndexOp.runAll (fun _ => .stored)
        [.addDocument { url := ascii "a", title := ascii "Alpha" }]) term p) ∧
    ∀ result ∈ rank .stored (⟨0, 0⟩ : Params ℝ) (IndexOp.runAll (fun _ => .stored)
      [.addDocument { url := ascii "a", title := ascii "Alpha" }]) [ascii "alpha"] 1,
      0 < result.score :=
  rank_defined (le_refl 0) ⟨le_refl 0, zero_le_one⟩ (fun _ => .stored)
    [.addDocument { url := ascii "a", title := ascii "Alpha" }] (by
      intro op member doc present
      apply Document.noWrap_of_length
      revert op doc
      decide) .stored [ascii "alpha"] 1

end BM25Ranker

end ShadowSe
