import ShadowSe.Gateway.SearchJson
import ShadowSe.Json.Utf8Strings

namespace ShadowSe

open Support Json BM25Ranker JsonGateway

/-- The fields that a response shows are valid UTF-8. -/
structure Document.ShownUtf8 (doc : Document) : Prop where
  title : IsUtf8 doc.title
  url : IsUtf8 doc.url
  snippet : IsUtf8 doc.snippet

theorem Engine.mem_search {D : Type} [Double D] {order : VisitOrder} {ix : InvertedIndex}
    {query : Bytes} {limit : Nat} {r : ScoredDocument D}
    (found : r ∈ Engine.search D order ix query limit) : ∃ id, ix.document id = some r.doc := by
  unfold Engine.search rank at found
  split at found
  · cases found
  dsimp only at found
  split at found
  · cases found
  · have matched := (rankBy_perm before _).mem_iff.mp (List.mem_of_mem_take found)
    obtain ⟨entry, _, live⟩ := List.mem_filterMap.mp matched
    obtain ⟨doc, present, rfl⟩ := Option.map_eq_some_iff.mp live
    exact ⟨entry.1, present⟩

namespace JsonGateway

variable {D : Type} [Double64 D]

theorem strings_item (r : ScoredDocument D) : (item r).strings =
    [ascii "title", r.doc.title, ascii "url", r.doc.url, ascii "snippet", r.doc.snippet,
      ascii "score", ascii "source", ascii (if r.doc.isOnion then "onion" else "clearweb")] :=
  rfl

theorem item_isUtf8 {r : ScoredDocument D} (shown : r.doc.ShownUtf8) :
    ∀ s ∈ (item r).strings, IsUtf8 s := by
  have kind : IsUtf8 (ascii (if r.doc.isOnion then "onion" else "clearweb")) := by
    split <;> decide
  have keys : ∀ key ∈ ["title", "url", "snippet", "score", "source"], IsUtf8 (ascii key) := by
    decide
  simp only [List.forall_mem_cons, List.not_mem_nil, false_implies, implies_true] at keys
  obtain ⟨title, url, snippet, score, source, -⟩ := keys
  rw [strings_item]
  simp only [List.forall_mem_cons, List.not_mem_nil, false_implies, implies_true, and_true]
  exact ⟨title, shown.title, url, shown.url, snippet, shown.snippet, score, source, kind⟩

theorem pushItems_isUtf8 {results : List (ScoredDocument D)}
    (shown : ∀ r ∈ results, r.doc.ShownUtf8) : ∀ s ∈ (pushItems results).strings, IsUtf8 s := by
  by_cases none : results = []
  · subst none
    exact List.forall_mem_nil _
  · rw [pushItems_eq results none, Value.strings]
    clear none
    induction results with
    | nil => exact List.forall_mem_nil _
    | cons r rest ih =>
      rw [List.map_cons, stringsOfElements, List.forall_mem_append]
      exact ⟨item_isUtf8 (shown r List.mem_cons_self), ih fun later member =>
        shown later (List.mem_cons_of_mem _ member)⟩

theorem response_isUtf8_iff (q : Bytes) {results : List (ScoredDocument D)}
    (short : results.length ≤ 20) (shown : ∀ r ∈ results, r.doc.ShownUtf8) :
    IsUtf8 ((response q results).dump false) ↔ IsUtf8 q := by
  have items := pushItems_isUtf8 shown
  have keys : IsUtf8 (ascii "query") ∧ IsUtf8 (ascii "count") ∧ IsUtf8 (ascii "results") := by
    decide
  rw [dump_isUtf8_iff false (response_isFinite short), response_eq]
  simp only [Value.strings, stringsOfMembers, List.forall_mem_cons, List.forall_mem_append,
    List.nil_append, List.append_nil, List.not_mem_nil, false_implies, implies_true, and_true]
  constructor
  · intro all
    exact all.2.1
  · intro valid
    exact ⟨keys.1, valid, keys.2.1, keys.2.2, items⟩

variable (D) (order : VisitOrder) (opts : Options) {ix : InvertedIndex}

theorem searchJson_isUtf8_iff_cut
    (shown : ∀ id doc, ix.document id = some doc → doc.ShownUtf8) (query : Bytes) :
    IsUtf8 (searchJson D order opts ix query) ↔ IsUtf8 (query.take opts.maxQueryLength) := by
  apply response_isUtf8_iff
  · exact Engine.length_search_le D order ix _ 20
  · intro r found
    obtain ⟨id, live⟩ := Engine.mem_search found
    exact shown id r.doc live

/-- The response to a query in valid UTF-8 is valid UTF-8 exactly when the byte limit does
not cut a character of the query in two. -/
theorem searchJson_isUtf8_iff {query : Bytes} (encoded : IsUtf8 query)
    (shown : ∀ id doc, ix.document id = some doc → doc.ShownUtf8) :
    IsUtf8 (searchJson D order opts ix query) ↔
      ∀ c, query[opts.maxQueryLength]? = some c → c.IsUTF8FirstByte := by
  rw [searchJson_isUtf8_iff_cut D order opts shown, encoded.take_iff]

/-- The page about `café` is shown, and a query that reaches the limit right behind the last
letter of that word is not cut inside it. -/
theorem searchJson_isUtf8_boundary :
    IsUtf8 (searchJson ℝ .stored {}
      (InvertedIndex.empty.addDocument (fun _ => .stored)
        { url := ascii "http://c/", title := ascii "caf" ++ [0xC3, 0xA9] })
      (List.replicate 251 0x20 ++ (ascii "caf" ++ [0xC3, 0xA9] ++ ascii "s"))) := by
  have blanks : IsAscii (List.replicate 251 0x20) := fun c member =>
    List.eq_of_mem_replicate member ▸ (by decide)
  apply (searchJson_isUtf8_iff ℝ .stored {}
    ((isUtf8_ascii_append blanks _).mpr (by decide)) ?_).mpr
  · intro c next
    rw [List.getElem?_append_right (List.length_replicate.trans_le (by decide)),
      List.length_replicate] at next
    cases next
    decide
  · intro id doc live
    change (InvertedIndex.addDocument _ _ _).docs_.lookup id = some doc at live
    rw [InvertedIndex.addDocument_docs, Table.lookup_insert_ite] at live
    split at live
    · cases live
      exact ⟨by decide, by decide, by decide⟩
    · cases live

theorem searchJson_not_isUtf8 :
    ¬ ∀ (ix : InvertedIndex) (query : Bytes), IsUtf8 query →
      (∀ id doc, ix.document id = some doc → doc.ShownUtf8) →
      IsUtf8 (searchJson ℝ .stored {} ix query) := by
  intro valid
  have letters : IsAscii (List.replicate 255 97) := fun c member =>
    List.eq_of_mem_replicate member ▸ (by decide)
  have none : ∀ id doc, InvertedIndex.empty.document id = some doc → doc.ShownUtf8 := by
    intro id doc live
    cases live
  have shown := valid .empty (List.replicate 255 97 ++ [0xC3, 0xA9])
    ((isUtf8_ascii_append letters _).mpr (by decide)) none
  rw [searchJson_isUtf8_iff_cut ℝ .stored {} none] at shown
  have cut : (List.replicate 255 (97 : UInt8) ++ [0xC3, 0xA9]).take 256 =
      List.replicate 255 97 ++ [0xC3] := by
    have size : (List.replicate 255 (97 : UInt8)).length ≤ 256 :=
      List.length_replicate.trans_le (by decide)
    rw [List.take_append, List.take_of_length_le size, List.length_replicate]
    rfl
  rw [cut, isUtf8_ascii_append letters] at shown
  exact absurd shown (by decide)

end JsonGateway

end ShadowSe
