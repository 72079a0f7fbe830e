import Mathlib.Analysis.SpecialFunctions.Log.Basic
import ShadowSe.Index.IndexRun
import ShadowSe.Support.Ranking

namespace ShadowSe

open Support

/-- The arithmetic of `double` as ranking uses it. Scores are sums of finite terms,
never NaN, so comparison is a linear order; nothing is assumed about rounding. The
laws are those of converting counts that are not zero. -/
class Double (D : Type) extends LinearOrder D, Add D, Sub D, Mul D, Div D, NatCast D,
    OfScientific D where
  log : D → D
  natCast_zero : ((0 : Nat) : D) = 0.0
  natCast_pos : ∀ n : Nat, 0 < n → (0.0 : D) < (n : D)
  ratio_pos : ∀ m n : Nat, 0 < m → 0 < n → (0.0 : D) < (m : D) / (n : D)

/-- Exact real arithmetic, which `double` approximates. -/
noncomputable instance : Double ℝ where
  log := Real.log
  natCast_zero := by norm_num
  natCast_pos n positive := by
    have cast : (0 : ℝ) < n := Nat.cast_pos.mpr positive
    norm_num
    exact positive
  ratio_pos m n first second := by
    have ratio : (0 : ℝ) < (m : ℝ) / n :=
      div_pos (Nat.cast_pos.mpr first) (Nat.cast_pos.mpr second)
    norm_num
    exact ratio

variable {D : Type} [Double D]

structure ScoredDocument (D : Type) where
  doc : Document
  score : D

/-- `averageDocLength`: the mean weighted document length. -/
def InvertedIndex.averageDocLength (D : Type) [Double D] (ix : InvertedIndex) : D :=
  if ix.documentCount = 0 then 0.0
  else (ix.totalTerms_ : D) / (ix.documentCount : D)

namespace BM25Ranker

/-- The parameters of a ranker. -/
structure Params (D : Type) where
  k1 : D
  b : D

/-- The defaults of the constructor. -/
def Params.standard : Params D := ⟨1.2, 0.75⟩

/-- The query terms sorted, with repetitions removed by `std::unique`. -/
def uniqueTerms (queryTokens : List Bytes) : List Bytes :=
  (queryTokens.insertionSort (· ≤ ·)).destutter (· ≠ ·)

/-- The score of one posting: `idf * tf`. -/
def termScore (params : Params D) (N avgdl : D) (postingCount termFreq docLength : Nat) : D :=
  let n : D := (postingCount : D)
  let idf : D := Double.log (1.0 + (N - n + 0.5) / (n + 0.5))
  let dl : D := (docLength : D)
  let denom : D := (termFreq : D) + params.k1 * (1.0 - params.b + params.b * dl / avgdl)
  let tf : D := (termFreq : D) * (params.k1 + 1.0) / denom
  idf * tf

/-- `accum[docId] += amount`; an absent entry starts from zero. -/
def accumulate (accum : Table Nat D) (docId : Nat) (amount : D) : Table Nat D :=
  accum.insert docId ((accum.lookup docId).getD 0.0 + amount)

/-- The loop body for one query term. -/
def scoreTerm (params : Params D) (N avgdl : D) (ix : InvertedIndex) (accum : Table Nat D)
    (term : Bytes) : Table Nat D :=
  match ix.postings term with
  | none => accum
  | some list => list.foldl (fun accum p => accumulate accum p.docId
      (termScore params N avgdl list.length p.termFreq (ix.docLength p.docId))) accum

/-- The sort comparator: descending score, then ascending id. -/
def before (a b : ScoredDocument D) : Prop :=
  if a.score ≠ b.score then a.score > b.score else a.doc.id < b.doc.id

instance : DecidableRel (before (D := D)) := fun a b => by
  unfold before
  infer_instance

/-- Sort and cut to the limit. -/
def finish (results : List (ScoredDocument D)) (limit : Nat) : List (ScoredDocument D) :=
  (rankBy before results).take limit

def rank (order : VisitOrder) (params : Params D) (ix : InvertedIndex)
    (queryTokens : List Bytes) (limit : Nat) : List (ScoredDocument D) :=
  if queryTokens = [] then []
  else
    let N : D := (ix.documentCount : D)
    let avgdl : D := ix.averageDocLength D
    if N = 0.0 ∨ avgdl ≤ 0.0 then []
    else
      let accum := (uniqueTerms queryTokens).foldl (scoreTerm params N avgdl ix) ∅
      let results := (order.visit accum.entries).filterMap fun entry =>
        (ix.document entry.1).map fun doc => ⟨doc, entry.2⟩
      finish results limit

end BM25Ranker

/-- `Engine::search`. -/
def Engine.search (D : Type) [Double D] (order : VisitOrder) (ix : InvertedIndex)
    (query : Bytes) (limit : Nat) : List (ScoredDocument D) :=
  BM25Ranker.rank order .standard ix (tokenize query) limit

namespace BM25Ranker

theorem mem_uniqueTerms {queryTokens : List Bytes} {term : Bytes} :
    term ∈ uniqueTerms queryTokens ↔ term ∈ queryTokens := by
  rw [uniqueTerms, mem_destutter_ne]
  exact (List.perm_insertionSort _ _).mem_iff

theorem before_iff {a b : ScoredDocument D} :
    before a b ↔ b.score < a.score ∨ a.score = b.score ∧ a.doc.id < b.doc.id := by
  unfold before
  by_cases tied : a.score = b.score
  · simp [tied]
  · simp [tied]

theorem before_strictWeak : StrictWeak (before (D := D)) := by
  refine ⟨?_, ?_⟩
  · intro a b first second
    unfold before at first second
    by_cases tied : a.score = b.score
    · simp only [tied, ne_eq, not_true_eq_false, ↓reduceIte] at first second
      omega
    · rw [if_pos tied] at first
      rw [if_pos (Ne.symm tied)] at second
      exact lt_asymm first second
  · intro a b c first
    unfold before at *
    by_cases ab : a.score = b.score
    · by_cases bc : b.score = c.score
      · simp only [ab, bc, ne_eq, not_true_eq_false, ↓reduceIte] at first ⊢
        omega
      · right
        simpa [ab, bc] using first
    · by_cases bc : b.score = c.score
      · simp only [← bc, ne_eq, ab, not_false_eq_true, ↓reduceIte, not_true_eq_false] at first ⊢
        exact .inl first
      · by_cases higher : a.score > b.score
        · exact .inl (by simpa [ab] using higher)
        · have lower : a.score < b.score := lt_of_le_of_ne (not_lt.mp higher) ab
          right
          by_cases ac : a.score = c.score
          · rw [← ac]
            rw [if_pos (Ne.symm ab)]
            exact lower
          · simp only [ne_eq, ac, not_false_eq_true, ↓reduceIte] at first
            simpa [bc] using lt_trans first lower

/-- What one term does to the score a document has so far. -/
def matchTerm (params : Params D) (N avgdl : D) (postingCount : Bytes → Nat) (doc : Document)
    (score : Option D) (term : Bytes) : Option D :=
  if term ∈ doc.tokens then
    some (score.getD 0.0 +
      termScore params N avgdl (postingCount term) (doc.termFreq term) doc.weightedLength)
  else score

/-- The score a document accumulates over the terms it contains, given the number of
postings of each term; `none` when it contains none of them. -/
def matchScore (params : Params D) (N avgdl : D) (postingCount : Bytes → Nat)
    (terms : List Bytes) (doc : Document) : Option D :=
  terms.foldl (matchTerm params N avgdl postingCount doc) none

/-- One posting list adds one amount to each document it mentions. -/
theorem addPostings_lookup (amount : Posting → D) (list : List Posting)
    (distinct : (list.map (·.docId)).Nodup) (accum : Table Nat D) (id : Nat) :
    (list.foldl (fun accum p => accumulate accum p.docId (amount p)) accum).lookup id =
      match list.find? fun p => p.docId = id with
      | some p => some ((accum.lookup id).getD 0.0 + amount p)
      | none => accum.lookup id := by
  induction list generalizing accum with
  | nil => rfl
  | cons posting rest ih =>
    obtain ⟨absent, distinctRest⟩ := List.nodup_cons.mp distinct
    rw [List.foldl_cons, ih distinctRest, List.find?_cons]
    by_cases same : posting.docId = id
    · subst id
      have missing : rest.find? (fun p => p.docId = posting.docId) = none := by
        apply List.find?_eq_none.mpr
        intro other member sameDoc
        exact absent (List.mem_map.mpr ⟨other, member, by simpa using sameDoc⟩)
      simp [missing, accumulate]
    · simp [same, accumulate, Ne.symm same]

private theorem scoreTerm_lookup {ix : InvertedIndex} (sound : ix.Represents)
    (params : Params D) (N avgdl : D) (accum : Table Nat D) (term : Bytes) (id : Nat) :
    (scoreTerm params N avgdl ix accum term).lookup id =
      match ix.docs_.lookup id with
      | some doc => matchTerm params N avgdl (fun term => (ix.postingsOf term).length) doc
          (accum.lookup id) term
      | none => accum.lookup id := by
  have walked : (scoreTerm params N avgdl ix accum term).lookup id =
      match (ix.postingsOf term).find? fun p => p.docId = id with
      | some p => some ((accum.lookup id).getD 0.0 + termScore params N avgdl
          (ix.postingsOf term).length p.termFreq (ix.docLength p.docId))
      | none => accum.lookup id := by
    have distinct := sound.indexed.nodup term
    unfold scoreTerm InvertedIndex.postings
    cases found : ix.postings_.lookup term with
    | none => simp [InvertedIndex.postingsOf, found]
    | some list =>
      have same : ix.postingsOf term = list := by simp [InvertedIndex.postingsOf, found]
      rw [same] at distinct ⊢
      exact addPostings_lookup _ list distinct accum id
  rw [walked]
  cases hit : (ix.postingsOf term).find? fun p => p.docId = id with
  | some posting =>
    have member := List.mem_of_find?_eq_some hit
    have own : posting.docId = id := by simpa using List.find?_some hit
    obtain ⟨doc, live, inside, freq⟩ := (sound.indexed.mem_postings term posting).mp member
    rw [own] at live
    have length : ix.docLength id = doc.weightedLength := by
      simp [InvertedIndex.docLength, sound.indexed.lengths, live]
    simp [live, inside, own, freq, length, matchTerm]
  | none =>
    cases live : ix.docs_.lookup id with
    | none => rfl
    | some doc =>
      have outside : term ∉ doc.tokens := by
        intro inside
        have member := (sound.indexed.mem_postings term ⟨id, doc.termFreq term⟩).mpr
          ⟨doc, live, inside, rfl⟩
        simpa using List.find?_eq_none.mp hit _ member
      simp [outside, matchTerm]

/-- The accumulator holds the match score of every live document with a match. -/
theorem scoreTerms_lookup {ix : InvertedIndex} (sound : ix.Represents)
    (params : Params D) (N avgdl : D) (terms : List Bytes) (id : Nat) :
    (terms.foldl (scoreTerm params N avgdl ix) ∅).lookup id =
      (ix.docs_.lookup id).bind
        (matchScore params N avgdl (fun term => (ix.postingsOf term).length) terms) := by
  have walk : ∀ (accum : Table Nat D) (start : Option D),
      (accum.lookup id = (ix.docs_.lookup id).bind fun _ => start) →
      (terms.foldl (scoreTerm params N avgdl ix) accum).lookup id =
        (ix.docs_.lookup id).bind fun doc => terms.foldl
          (matchTerm params N avgdl (fun term => (ix.postingsOf term).length) doc) start := by
    induction terms with
    | nil => intro accum start begun; simpa using begun
    | cons term rest ih =>
      intro accum start begun
      have stepped := scoreTerm_lookup sound params N avgdl accum term id
      cases live : ix.docs_.lookup id with
      | none =>
        rw [live] at stepped begun
        have later := ih (scoreTerm params N avgdl ix accum term) none
          (by simp [live, stepped, begun])
        simpa [live] using later
      | some doc =>
        rw [live] at stepped begun
        have later := ih (scoreTerm params N avgdl ix accum term)
          (matchTerm params N avgdl (fun term => (ix.postingsOf term).length) doc start term)
          (by simp [live, stepped, begun])
        simpa [live] using later
  exact walk ∅ none (by simp)

/-- A document has a match score exactly when it contains one of the terms. -/
theorem matchScore_isSome_iff {params : Params D} {N avgdl : D} {postingCount : Bytes → Nat}
    {terms : List Bytes} {doc : Document} :
    (matchScore params N avgdl postingCount terms doc).isSome ↔
      ∃ term ∈ terms, term ∈ doc.tokens := by
  have walk : ∀ start : Option D,
      (terms.foldl (matchTerm params N avgdl postingCount doc) start).isSome ↔
        start.isSome ∨ ∃ term ∈ terms, term ∈ doc.tokens := by
    induction terms with
    | nil => intro start; simp
    | cons term rest ih =>
      intro start
      rw [List.foldl_cons, ih]
      by_cases inside : term ∈ doc.tokens
      · simp [matchTerm, inside]
      · simp [matchTerm, inside]
  simpa [matchScore] using walk none

end BM25Ranker

end ShadowSe
