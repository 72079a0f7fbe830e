import ShadowSe.Index.IndexReload
import ShadowSe.Search.SearchExact
import ShadowSe.Storage.Snapshot

/-! Search before saving and after loading. The scores survive, but ids are given out
again in the order in which the documents were enumerated, and ids break ties. -/

namespace ShadowSe

open Support BM25Ranker

variable {D : Type} [Double D]

/-- The URL and score of a result. -/
def ScoredDocument.shown (result : ScoredDocument D) : Bytes × D :=
  (result.doc.url, result.score)

/-- Both documents match the query, with equal scores. -/
def Ties (D : Type) [Double D] (ix : InvertedIndex) (query : Bytes) (a b : Document) : Prop :=
  (scoreIn (D := D) .standard ix (tokenize query) a).isSome ∧
    scoreIn (D := D) .standard ix (tokenize query) a = scoreIn .standard ix (tokenize query) b

/-- Among documents that tie, the enumeration lists lower ids first. -/
def KeepsTies (D : Type) [Double D] (ix : InvertedIndex) (query : Bytes)
    (enumerated : List Document) : Prop :=
  enumerated.Pairwise fun a b => Ties D ix query a b → a.id < b.id

/-- The index that loading an enumeration of the documents builds. -/
def reloaded (layout : Layout) (enumerated : List Document) : InvertedIndex :=
  InvertedIndex.replaceAll layout .empty (enumerated.map Document.withoutId)

theorem represents_reloaded (layout : Layout) (enumerated : List Document) :
    (reloaded layout enumerated).Represents :=
  InvertedIndex.represents_empty.addAll layout _

namespace InvertedIndex

theorem mem_allDocuments {order : VisitOrder} {ix : InvertedIndex} {doc : Document} :
    doc ∈ ix.allDocuments order ↔ ∃ id, ix.docs_.lookup id = some doc :=
  order.mem_visit.trans Table.mem_values_iff

variable {ix : InvertedIndex} (sound : ix.Represents) (order : VisitOrder)
include sound

theorem nodup_urls_allDocuments : ((ix.allDocuments order).map (·.url)).Nodup := by
  refine ((order.perm _).map _).nodup_iff.mpr ?_
  have distinct : (ix.docs_.entries.map fun entry => entry.2.url).Nodup := by
    refine (List.nodup_map_iff_inj_on ix.docs_.nodupKeys.nodup).mpr ?_
    rintro ⟨id, doc⟩ live ⟨other, version⟩ liveOther sameUrl
    have same := sound.oneId (Table.mem_entries_iff.mp live)
      (Table.mem_entries_iff.mp liveOther) sameUrl
    subst other
    cases Option.some.inj
      ((Table.mem_entries_iff.mp live).symm.trans (Table.mem_entries_iff.mp liveOther))
    rfl
  simpa [Table.values, Function.comp_def] using distinct

private theorem nodup_urls_saved :
    (((ix.allDocuments order).map Document.withoutId).map (·.url)).Nodup := by
  rw [List.map_map]
  exact nodup_urls_allDocuments sound order

variable (layout : Layout)

theorem reloaded_docs (id : Nat) (version : Document) :
    (reloaded layout (ix.allDocuments order)).docs_.lookup id = some version ↔
      ∃ doc ∈ ix.allDocuments order,
        id = (ix.allDocuments order).idxOf doc + 1 ∧ version = { doc with id } := by
  have distinct := nodup_urls_saved sound order
  have stored := represents_empty.addAll_docs layout distinct (by simp [empty]) id version
  have nodup := List.Nodup.of_map _ (nodup_urls_allDocuments sound order)
  refine stored.trans ?_
  simp only [empty, Table.lookup_empty, reduceCtorEq, false_or, List.getElem?_map,
    Option.map_eq_some_iff]
  constructor
  · rintro ⟨i, _, ⟨doc, found, rfl⟩, rfl, rfl⟩
    obtain ⟨inside, rfl⟩ := List.getElem?_eq_some_iff.mp found
    refine ⟨_, List.getElem_mem inside, ?_, rfl⟩
    rw [nodup.idxOf_getElem]
    omega
  · rintro ⟨doc, listed, rfl, rfl⟩
    refine ⟨(ix.allDocuments order).idxOf doc, _, ⟨doc, ?_, rfl⟩, by omega, rfl⟩
    exact List.getElem?_eq_some_iff.mpr ⟨List.idxOf_lt_length_of_mem listed, List.getElem_idxOf _⟩

theorem scoreIn_reloaded (queryTokens : List Bytes) (doc : Document) (id : Nat) :
    scoreIn (D := D) .standard (reloaded layout (ix.allDocuments order)) queryTokens
      { doc with id } = scoreIn .standard ix queryTokens doc := by
  have distinct := nodup_urls_saved sound order
  have stored := represents_empty.addAll_values layout distinct (by simp [empty])
  have same : ((Table.values (reloaded layout (ix.allDocuments order)).docs_).map
      Document.withoutId).Perm ((Table.values ix.docs_).map Document.withoutId) := by
    refine stored.trans ?_
    have idempotent : Document.withoutId ∘ Document.withoutId = Document.withoutId := rfl
    have none : (Table.values empty.docs_).map Document.withoutId = [] := rfl
    rw [List.map_map, idempotent, none, List.append_nil]
    exact (order.perm _).map _
  obtain ⟨count, total, postings⟩ := sound.statistics_eq
    (represents_reloaded layout _) same
  simp only [scoreIn, count, InvertedIndex.averageDocLength, total, postings]
  rfl

end InvertedIndex

/-- The result for the same document after loading. -/
def ScoredDocument.renumber (enumerated : List Document) (result : ScoredDocument D) :
    ScoredDocument D :=
  { result with doc := { result.doc with id := enumerated.idxOf result.doc + 1 } }

omit [Double D] in
@[simp] theorem ScoredDocument.shown_renumber (enumerated : List Document)
    (result : ScoredDocument D) : (result.renumber enumerated).shown = result.shown := rfl

section Reload

variable {ix : InvertedIndex} (sound : ix.Represents) (order : VisitOrder) (layout : Layout)

include sound

theorem scoredMatches_eq_of_url {queryTokens : List Bytes} :
    ∀ a ∈ scoredMatches (D := D) .standard ix queryTokens,
      ∀ b ∈ scoredMatches .standard ix queryTokens, a.doc.url = b.doc.url → a = b := by
  intro a inA b inB sameUrl
  obtain ⟨id, live, _⟩ := mem_scoredMatches.mp inA
  obtain ⟨other, liveOther, _⟩ := mem_scoredMatches.mp inB
  have same := sound.oneId live liveOther sameUrl
  subst other
  have ids := nodup_ids_scoredMatches (D := D) sound .standard queryTokens
  exact List.inj_on_of_nodup_map ids inA inB
    (congrArg Document.id (Option.some.inj (live.symm.trans liveOther)))

/-- Renumbering keeps the ranking exactly when the enumeration keeps the order of ties. -/
theorem ranked_renumber_iff (query : Bytes) :
    ((rankBy before (scoredMatches (D := D) .standard ix (tokenize query))).map
        (·.renumber (ix.allDocuments order))).Pairwise (fun a b => ¬ before b a) ↔
      KeepsTies D ix query (ix.allDocuments order) := by
  have ranked := rankBy_pairwise before_strictWeak
    (scoredMatches (D := D) .standard ix (tokenize query))
  have listed {result : ScoredDocument D}
      (member : result ∈ rankBy before (scoredMatches .standard ix (tokenize query))) :
      result.doc ∈ ix.allDocuments order ∧
        scoreIn .standard ix (tokenize query) result.doc = some result.score := by
    obtain ⟨id, live, scored⟩ := mem_scoredMatches.mp ((rankBy_perm before _).mem_iff.mp member)
    exact ⟨InvertedIndex.mem_allDocuments.mpr ⟨id, live⟩, scored⟩
  rw [List.pairwise_map]
  constructor
  · intro kept
    refine List.pairwise_iff_getElem.mpr fun i j insideI insideJ earlier ⟨matched, tied⟩ => ?_
    have nodup := List.Nodup.of_map _ (InvertedIndex.nodup_urls_allDocuments sound order)
    have score (k : Nat) (inside : k < (ix.allDocuments order).length) (s : D)
        (scored : scoreIn .standard ix (tokenize query) (ix.allDocuments order)[k] = some s) :
        ⟨(ix.allDocuments order)[k], s⟩ ∈
          rankBy before (scoredMatches .standard ix (tokenize query)) := by
      obtain ⟨id, live⟩ := InvertedIndex.mem_allDocuments.mp (List.getElem_mem inside)
      exact (rankBy_perm before _).mem_iff.mpr (mem_scoredMatches.mpr ⟨id, live, scored⟩)
    obtain ⟨s, scored⟩ := Option.isSome_iff_exists.mp matched
    have inX := score i insideI s scored
    have inY := score j insideJ s (tied.symm.trans scored)
    have different : (ix.allDocuments order)[i] ≠ (ix.allDocuments order)[j] := by
      intro same
      exact Nat.ne_of_lt earlier ((nodup.getElem_inj_iff).mp same)
    rcases pairwise_or (ranked.and kept) inX inY (fun same => different
      (congrArg ScoredDocument.doc same)) with ⟨notAfter, _⟩ | ⟨_, notAfter⟩
    · have ids := nodup_ids_scoredMatches (D := D) sound .standard (tokenize query)
      have distinctIds : (ix.allDocuments order)[i].id ≠ (ix.allDocuments order)[j].id := by
        intro same
        exact different (congrArg ScoredDocument.doc (List.inj_on_of_nodup_map ids
          ((rankBy_perm before _).mem_iff.mp inX) ((rankBy_perm before _).mem_iff.mp inY) same))
      have notLower : ¬ (ix.allDocuments order)[j].id < (ix.allDocuments order)[i].id := by
        intro lower
        exact notAfter (before_iff.mpr (.inr ⟨rfl, lower⟩))
      omega
    · -- The earlier position has the lower number, so it cannot come second after loading.
      exfalso
      refine notAfter (before_iff.mpr (.inr ⟨rfl, ?_⟩))
      simpa [ScoredDocument.renumber, nodup.idxOf_getElem] using earlier
  · intro kept
    refine ranked.imp_of_mem fun {x y} inX inY notAfter => ?_
    obtain ⟨listedX, scoredX⟩ := listed inX
    obtain ⟨listedY, scoredY⟩ := listed inY
    rw [before_iff]
    rintro (higher | ⟨tied, number⟩)
    · exact notAfter (before_iff.mpr (.inl higher))
    · have numbers : (ix.allDocuments order).idxOf y.doc < (ix.allDocuments order).idxOf x.doc := by
        simpa [ScoredDocument.renumber] using number
      have tie : Ties D ix query y.doc x.doc := by
        refine ⟨by simp [scoredY], ?_⟩
        rw [scoredY, scoredX]
        exact congrArg some tied
      have lower := List.pairwise_iff_getElem.mp kept _ _ (List.idxOf_lt_length_of_mem listedY)
        (List.idxOf_lt_length_of_mem listedX) numbers
      rw [List.getElem_idxOf, List.getElem_idxOf] at lower
      exact notAfter (before_iff.mpr (.inr ⟨tied, lower tie⟩))

theorem scoredMatches_reloaded (queryTokens : List Bytes) :
    (scoredMatches (D := D) .standard (reloaded layout (ix.allDocuments order)) queryTokens).Perm
      ((scoredMatches .standard ix queryTokens).map (·.renumber (ix.allDocuments order))) := by
  have soundLoaded := represents_reloaded layout (ix.allDocuments order)
  have distinct : ((scoredMatches (D := D) .standard ix queryTokens).map
      (·.renumber (ix.allDocuments order))).Nodup := by
    have matched := List.Nodup.of_map _ (nodup_ids_scoredMatches (D := D) sound .standard queryTokens)
    refine matched.map_on fun a inA b inB same => ?_
    have sameUrl : a.shown.1 = b.shown.1 := by
      simpa using congrArg (fun result : ScoredDocument D => result.shown.1) same
    exact scoredMatches_eq_of_url sound a inA b inB sameUrl
  refine (List.perm_ext_iff_of_nodup
    (.of_map _ (nodup_ids_scoredMatches soundLoaded .standard queryTokens)) distinct).mpr
    fun result => ?_
  rw [List.mem_map, mem_scoredMatches]
  simp only [InvertedIndex.reloaded_docs sound order layout]
  constructor
  · rintro ⟨id, ⟨doc, listed, number, same⟩, scored⟩
    refine ⟨⟨doc, result.score⟩, mem_scoredMatches.mpr ?_, ?_⟩
    · obtain ⟨own, live⟩ := InvertedIndex.mem_allDocuments.mp listed
      rw [same, InvertedIndex.scoreIn_reloaded sound order layout] at scored
      exact ⟨own, live, scored⟩
    · simp [ScoredDocument.renumber, ← number, ← same]
  · rintro ⟨before, member, rfl⟩
    obtain ⟨id, live, scored⟩ := mem_scoredMatches.mp member
    refine ⟨_, ⟨before.doc, InvertedIndex.mem_allDocuments.mpr ⟨id, live⟩, rfl, rfl⟩, ?_⟩
    exact (InvertedIndex.scoreIn_reloaded sound order layout _ _ _).trans scored

/-- Searches before and after agree on a query exactly when the enumeration keeps the
order of the documents that tie on it. -/
theorem search_reloaded_iff (accumOrder loadedOrder : VisitOrder) (query : Bytes) :
    (∀ limit, (Engine.search D loadedOrder (reloaded layout (ix.allDocuments order)) query
        limit).map (·.shown) = (Engine.search D accumOrder ix query limit).map (·.shown)) ↔
      KeepsTies D ix query (ix.allDocuments order) := by
  have soundLoaded := represents_reloaded layout (ix.allDocuments order)
  have loaded := scoredMatches_reloaded (D := D) sound order layout (tokenize query)
  let ranked := rankBy before (scoredMatches (D := D) .standard ix (tokenize query))
  let rankedLoaded := rankBy before
    (scoredMatches (D := D) .standard (reloaded layout (ix.allDocuments order)) (tokenize query))
  have perm : (ranked.map (·.renumber (ix.allDocuments order))).Perm
      (scoredMatches .standard (reloaded layout (ix.allDocuments order)) (tokenize query)) :=
    ((rankBy_perm before _).map _).trans loaded.symm
  simp only [Engine.search, rank_eq sound, rank_eq soundLoaded, finish, List.map_take]
  refine Iff.trans ?_ (ranked_renumber_iff sound order query)
  constructor
  · intro same
    have whole : rankedLoaded.map (·.shown) =
        (ranked.map (·.renumber (ix.allDocuments order))).map (·.shown) := by
      have enough := same (rankedLoaded.length + ranked.length)
      rw [List.take_of_length_le, List.take_of_length_le] at enough
      · simpa [Function.comp_def] using enough
      all_goals simp [ranked, rankedLoaded]
    have equal : rankedLoaded = ranked.map (·.renumber (ix.allDocuments order)) := by
      refine eq_of_map_eq ?_ whole
      intro a inA b inB shown
      exact scoredMatches_eq_of_url soundLoaded a ((rankBy_perm before _).mem_iff.mp inA) b
        (perm.mem_iff.mp inB) (congrArg Prod.fst shown)
    rw [← equal]
    exact rankBy_pairwise before_strictWeak _
  · intro sorted limit
    have equal : rankedLoaded = ranked.map (·.renumber (ix.allDocuments order)) :=
      rankBy_eq_of_pairwise before_strictWeak perm sorted
        (before_separates (nodup_ids_scoredMatches soundLoaded .standard _))
    have shown : rankedLoaded.map (·.shown) = ranked.map (·.shown) := by
      rw [equal]
      simp [Function.comp_def]
    exact congrArg (List.take limit) shown

end Reload

/-- Save the documents, then load the file into a fresh engine. -/
def Engine.restart (layout : Layout) (order : VisitOrder) (ix : InvertedIndex) (disk : Disk)
    (path : Bytes) : Except Bytes Unit × InvertedIndex :=
  Engine.loadState 64 layout .empty (Engine.saveState order ix disk .written path).2 path

/-- Every query with every limit shows the same results over both indexes. -/
def Engine.SearchesAlike (D : Type) [Double D] (order otherOrder : VisitOrder)
    (ix other : InvertedIndex) : Prop :=
  ∀ query limit, (Engine.search D otherOrder other query limit).map (·.shown) =
    (Engine.search D order ix query limit).map (·.shown)

/-- A restart within the limits of the format loads the documents that were saved. -/
theorem Engine.restart_eq (layout : Layout) (order : VisitOrder) {ix : InvertedIndex}
    (fits : FitsFormat (ix.allDocuments order)) (disk : Disk) (path : Bytes) :
    Engine.restart layout order ix disk path =
      (.ok (), reloaded layout (ix.allDocuments order)) := by
  simp only [Engine.restart, Engine.loadState, Engine.saveState, loadSnapshot, saveSnapshot,
    AList.lookup_insert, deserializeDocuments_serialize fits]
  rfl

/-- A restart keeps every search exactly when the enumeration that was saved lists
documents that tie on a query in the order of their ids. -/
theorem Engine.restart_searches_alike_iff (D : Type) [Double D] (layout loadLayout : Layout)
    (order accumOrder loadedOrder : VisitOrder) (ops : List IndexOp) (disk : Disk) (path : Bytes)
    (fits : FitsFormat ((IndexOp.runAll layout ops).allDocuments order)) :
    (Engine.saveState order (IndexOp.runAll layout ops) disk .written path).1 = .ok () ∧
    (Engine.restart loadLayout order (IndexOp.runAll layout ops) disk path).1 = .ok () ∧
    (Engine.SearchesAlike D accumOrder loadedOrder (IndexOp.runAll layout ops)
        (Engine.restart loadLayout order (IndexOp.runAll layout ops) disk path).2 ↔
      ∀ query, KeepsTies D (IndexOp.runAll layout ops) query
        ((IndexOp.runAll layout ops).allDocuments order)) := by
  have sound := IndexOp.represents_runAll layout ops
  rw [Engine.restart_eq loadLayout order fits]
  refine ⟨rfl, rfl, forall_congr' fun query => ?_⟩
  exact search_reloaded_iff sound order loadLayout accumOrder loadedOrder query

/-- One text under two URLs. -/
def twins : List IndexOp :=
  [.addDocument { url := ascii "a", title := ascii "x" },
    .addDocument { url := ascii "b", title := ascii "x" }]

theorem twins_noWrap : ∀ op ∈ twins, ∀ doc ∈ op.documents, doc.NoWrap := by
  intro op member doc present
  apply Document.noWrap_of_length
  revert op doc
  decide

theorem Engine.restart_searches_alike_twins :
    (Engine.saveState .reversed (IndexOp.runAll (fun _ => .stored) twins) ∅ .written
      (ascii "f")).1 = .ok () ∧
    (Engine.restart (fun _ => .stored) .reversed (IndexOp.runAll (fun _ => .stored) twins) ∅
      (ascii "f")).1 = .ok () ∧
    (Engine.SearchesAlike ℝ .stored .stored (IndexOp.runAll (fun _ => .stored) twins)
        (Engine.restart (fun _ => .stored) .reversed (IndexOp.runAll (fun _ => .stored) twins) ∅
          (ascii "f")).2 ↔
      ∀ query, KeepsTies ℝ (IndexOp.runAll (fun _ => .stored) twins) query
        ((IndexOp.runAll (fun _ => .stored) twins).allDocuments .reversed)) := by
  exact Engine.restart_searches_alike_iff ℝ _ _ _ _ _ _ _ _ ⟨by decide,
    fun doc member => ⟨by revert doc; decide, by revert doc; decide, by revert doc; decide,
      by revert doc; decide⟩⟩

/-- The table enumerates the later document first, so the tie is listed the other way
round after a restart. -/
theorem Engine.restart_swaps_twins :
    ¬ Engine.SearchesAlike ℝ .stored .stored (IndexOp.runAll (fun _ => .stored) twins)
      (Engine.restart (fun _ => .stored) .stored (IndexOp.runAll (fun _ => .stored) twins) ∅
        (ascii "f")).2 := by
  let ix := IndexOp.runAll (fun _ => .stored) twins
  have sound : ix.Represents := IndexOp.represents_runAll _ twins
  have stored : ix.AllStored Document.NoWrap :=
    IndexOp.allStored_runAll (fun _ _ held => held) _ twins_noWrap
  have fits : FitsFormat (ix.allDocuments .stored) :=
    ⟨by decide, fun doc member => ⟨by revert doc; decide, by revert doc; decide,
      by revert doc; decide, by revert doc; decide⟩⟩
  rw [Engine.restart_eq _ _ fits]
  intro alike
  have kept := (search_reloaded_iff sound .stored _ .stored .stored (ascii "x")).mp
    (alike (ascii "x"))
  have listed : ix.allDocuments .stored =
      [{ id := 2, url := ascii "b", title := ascii "x" },
        { id := 1, url := ascii "a", title := ascii "x" }] := by decide
  have live : ix.docs_.lookup 2 = some { id := 2, url := ascii "b", title := ascii "x" } := by
    decide
  have inside : ascii "x" ∈ Document.tokens { id := 2, url := ascii "b", title := ascii "x" } := by
    decide
  have matched : (scoreIn (D := ℝ) .standard ix (tokenize (ascii "x"))
      { id := 2, url := ascii "b", title := ascii "x" }).isSome :=
    scoreIn_isSome_iff.mpr ⟨averageDocLength_pos sound stored live inside, ascii "x", by decide,
      inside⟩
  rw [listed] at kept
  have lower := (List.pairwise_pair.mp kept) ⟨matched, rfl⟩
  exact absurd lower (by decide)

end ShadowSe
