import ShadowSe.Json.RoundTrip
import ShadowSe.Search.SearchExact

/-! The gateway's search response. The results are pushed onto a null value, which
becomes an array with the first of them. -/

namespace ShadowSe

open Support Json BM25Ranker

/-- `double` scores with the bits that are written; no score is infinite or NaN. -/
class Double64 (D : Type) extends Double D where
  toBinary64 : D → Binary64
  toBinary64_isFinite : ∀ x, (toBinary64 x).isFinite = true

/-- Real numbers cut to the finest binary64 grid and rounded; what is out of range is zero. -/
noncomputable instance : Double64 ℝ where
  toBinary64 x :=
    let rounded := Binary64.ofRatio (x < 0) ⌊|x| * 2 ^ 1074⌋₊ (2 ^ 1074)
    if rounded.isFinite then rounded else .zero false
  toBinary64_isFinite x := by
    dsimp only
    split
    · assumption
    · rfl

def Document.isOnion (doc : Document) : Bool :=
  doc.source = .onion

namespace JsonGateway

structure Options where
  host : Bytes := ascii "127.0.0.1"
  port : UInt16 := 8090
  maxQueryLength : Nat := 256

section Response

variable {D : Type} [Double64 D]

/-- The item for one result. -/
def item (r : ScoredDocument D) : Value :=
  let item : Value := .null
  let item := item.assign (ascii "title") (.string r.doc.title)
  let item := item.assign (ascii "url") (.string r.doc.url)
  let item := item.assign (ascii "snippet") (.string r.doc.snippet)
  let item := item.assign (ascii "score") (.number (Double64.toBinary64 r.score))
  item.assign (ascii "source")
    (.string (ascii (if r.doc.isOnion then "onion" else "clearweb")))

/-- The loop over the results, from a null value. -/
def pushItems (results : List (ScoredDocument D)) : Value :=
  results.foldl (fun (arr : Value) r => arr.push (item r)) .null

/-- The response for a query and its results. -/
def response (q : Bytes) (results : List (ScoredDocument D)) : Value :=
  let obj : Value := .null
  let obj := obj.assign (ascii "query") (.string q)
  let obj := obj.assign (ascii "count") (.number (.ofInt results.length))
  obj.assign (ascii "results") (pushItems results)

end Response

def searchJson (D : Type) [Double64 D] (order : VisitOrder) (opts : Options)
    (ix : InvertedIndex) (query : Bytes) : Bytes :=
  let q := query.take opts.maxQueryLength
  let results := Engine.search D order ix q 20
  (response q results).dump false

/-- An object whose results are an array with as many elements as its count says. -/
def IsSearchResponse (v : Value) : Prop :=
  ∃ members results count, v = .object members ∧
    v.find (ascii "results") = some (.array results) ∧
    v.find (ascii "count") = some (.number count) ∧ count.eq (.ofInt results.length) = true

section Response

variable {D : Type} [Double64 D]

/-- Pushing onto null makes an array, unless nothing is pushed. -/
theorem pushItems_eq (results : List (ScoredDocument D)) (nonempty : results ≠ []) :
    pushItems results = .array (results.map item) := by
  have onto : ∀ (rest : List (ScoredDocument D)) (pushed : List Value),
      rest.foldl (fun (arr : Value) r => arr.push (item r)) (.array pushed) =
        .array (pushed ++ rest.map item) := by
    intro rest
    induction rest with
    | nil => simp
    | cons r rest ih =>
      intro pushed
      rw [List.foldl_cons, Value.push, ih]
      simp
  cases results with
  | nil => exact absurd rfl nonempty
  | cons r rest => exact onto rest [item r]

theorem response_eq (q : Bytes) (results : List (ScoredDocument D)) :
    response q results = .object [(ascii "query", .string q),
      (ascii "count", .number (.ofInt results.length)),
      (ascii "results", pushItems results)] :=
  rfl

theorem numbers_item (r : ScoredDocument D) :
    (item r).numbers = [Double64.toBinary64 r.score] :=
  rfl

theorem response_isFinite {q : Bytes} {results : List (ScoredDocument D)}
    (short : results.length ≤ 20) : ∀ n ∈ (response q results).numbers, n.isFinite = true := by
  have count : (Binary64.ofInt results.length).isFinite = true :=
    Binary64.ofInt_isFinite (by omega)
  have items : ∀ rest : List (ScoredDocument D),
      ∀ n ∈ numbersOfElements (rest.map item), n.isFinite = true := by
    intro rest
    induction rest with
    | nil => simp [numbersOfElements]
    | cons r rest ih =>
      intro n member
      rw [List.map_cons, numbersOfElements, numbers_item] at member
      rcases List.mem_append.mp member with score | later
      · rw [List.mem_singleton.mp score]
        exact Double64.toBinary64_isFinite r.score
      · exact ih n later
  intro n member
  rw [response_eq] at member
  by_cases none : results = []
  · subst none
    have only : n = .ofInt 0 := by
      simpa [pushItems, Value.numbers, numbersOfMembers] using member
    exact only ▸ count
  · rw [pushItems_eq results none] at member
    have shape : n = .ofInt results.length ∨ n ∈ numbersOfElements (results.map item) := by
      simpa [Value.numbers, numbersOfMembers] using member
    rcases shape with rfl | score
    · exact count
    · exact items results n score

/-- The text of a response parses to an object with the count and the results. -/
theorem parse_response (q : Bytes) {results : List (ScoredDocument D)}
    (short : results.length ≤ 20) :
    parse ((response q results).dump false) = .ok (.object [(ascii "query", .string q),
      (ascii "count", .number (.ofInt results.length)),
      (ascii "results", (pushItems results).reread)]) := by
  have small : (results.length : Int).natAbs < 2 ^ 53 := by omega
  have count : strtod (numberText (.ofInt results.length)) = .ofInt results.length := by
    rw [numberText_small small (Binary64.eq_self (Binary64.ofInt_isFinite small)),
      strtod_toString64]
  rw [parse_dump false (response_isFinite short), response_eq]
  simp [Value.reread, rereadMembers, count]

theorem length_rereadElements (a : List Value) : (rereadElements a).length = a.length := by
  induction a with
  | nil => rfl
  | cons v rest ih => rw [rereadElements, List.length_cons, List.length_cons, ih]

theorem isSearchResponse_iff (q : Bytes) {results : List (ScoredDocument D)}
    (short : results.length ≤ 20) :
    (∃ v, parse ((response q results).dump false) = .ok v ∧ IsSearchResponse v) ↔
      results ≠ [] := by
  rw [parse_response q short]
  constructor
  · rintro ⟨v, parsed, members, array, count, _, shape, _⟩ none
    cases Except.ok.inj parsed
    rw [none] at shape
    cases shape
  · intro nonempty
    refine ⟨_, rfl, ?_⟩
    rw [pushItems_eq results nonempty]
    refine ⟨_, rereadElements (results.map item), .ofInt results.length, rfl, rfl, rfl, ?_⟩
    rw [length_rereadElements, List.length_map]
    exact Binary64.eq_self (Binary64.ofInt_isFinite (by omega))

end Response

end JsonGateway

open JsonGateway

theorem Engine.length_search_le (D : Type) [Double D] (order : VisitOrder) (ix : InvertedIndex)
    (query : Bytes) (limit : Nat) : (Engine.search D order ix query limit).length ≤ limit := by
  unfold Engine.search rank
  split
  · exact Nat.zero_le _
  dsimp only
  split
  · exact Nat.zero_le _
  · exact List.length_take_le _ _

/-- Something is found exactly when a live document shares a token with the query. -/
theorem Engine.search_ne_nil_iff {D : Type} [Double D] {ix : InvertedIndex}
    (sound : ix.Represents) (order : VisitOrder) (query : Bytes) {limit : Nat}
    (room : 0 < limit) : Engine.search D order ix query limit ≠ [] ↔
      ¬ ix.averageDocLength D ≤ 0.0 ∧
        ∃ id doc, ix.document id = some doc ∧ ∃ token ∈ tokenize query, token ∈ doc.tokens := by
  have kept : Engine.search D order ix query limit ≠ [] ↔
      scoredMatches (D := D) .standard ix (tokenize query) ≠ [] := by
    rw [Engine.search, rank_eq sound, finish, ne_eq, List.take_eq_nil_iff,
      or_iff_right room.ne', ← List.length_eq_zero_iff, (rankBy_perm before _).length_eq,
      List.length_eq_zero_iff]
  rw [kept]
  constructor
  · intro nonempty
    obtain ⟨result, member⟩ := List.exists_mem_of_ne_nil _ nonempty
    obtain ⟨id, live, scored⟩ := mem_scoredMatches.mp member
    obtain ⟨long, shared⟩ := scoreIn_isSome_iff.mp (Option.isSome_of_eq_some scored)
    exact ⟨long, id, result.doc, live, shared⟩
  · rintro ⟨long, id, doc, live, shared⟩
    have matched : (scoreIn (D := D) .standard ix (tokenize query) doc).isSome :=
      scoreIn_isSome_iff.mpr ⟨long, shared⟩
    obtain ⟨score, scored⟩ := Option.isSome_iff_exists.mp matched
    have member : ⟨doc, score⟩ ∈ scoredMatches .standard ix (tokenize query) :=
      mem_scoredMatches.mpr ⟨id, live, scored⟩
    exact List.ne_nil_of_mem member

/-- Parsing the text of `searchJson` gives an object with an array and its length. -/
def JsonGateway.RespondsWithArray (D : Type) [Double64 D] (order : VisitOrder) (opts : Options)
    (ix : InvertedIndex) (query : Bytes) : Prop :=
  ∃ v, parse (searchJson D order opts ix query) = .ok v ∧ IsSearchResponse v

section Search

variable (D : Type) [Double64 D] (order : VisitOrder) (opts : Options)

/-- A response has an array of results exactly when something was found. -/
theorem JsonGateway.respondsWithArray_iff_found (ix : InvertedIndex) (query : Bytes) :
    RespondsWithArray D order opts ix query ↔
      Engine.search D order ix (query.take opts.maxQueryLength) 20 ≠ [] := by
  exact isSearchResponse_iff _ (Engine.length_search_le D order ix _ 20)

/-- Over every index that calls can reach, the response to a query has an array of results
exactly when a live document shares a token with what is kept of the query. -/
theorem JsonGateway.searchJson_array_iff (layout : Layout) (ops : List IndexOp) (query : Bytes) :
    RespondsWithArray D order opts (IndexOp.runAll layout ops) query ↔
      ¬ (IndexOp.runAll layout ops).averageDocLength D ≤ 0.0 ∧
        ∃ id doc, (IndexOp.runAll layout ops).document id = some doc ∧
          ∃ token ∈ tokenize (query.take opts.maxQueryLength), token ∈ doc.tokens :=
  (respondsWithArray_iff_found D order opts _ query).trans
    (Engine.search_ne_nil_iff (IndexOp.represents_runAll layout ops) order _ (by decide))

end Search

/-- A search of an empty index finds nothing, and its results are null. -/
theorem JsonGateway.searchJson_null :
    ¬ RespondsWithArray ℝ .stored {} (IndexOp.runAll (fun _ => .stored) []) (ascii "tor") := by
  intro responds
  apply (respondsWithArray_iff_found ℝ _ _ _ _).mp responds
  simp [Engine.search, rank, InvertedIndex.averageDocLength, InvertedIndex.documentCount,
    IndexOp.runAll, InvertedIndex.empty]

end ShadowSe
