import ShadowSe.Crawl.Reporting
import ShadowSe.Search.SearchExact

/-! From the links of a site to the answers of the engine: the index that a crawl builds holds
the pages filed so far and nothing else, and searching it is exact on them. A page is filed
before it is reported, and workers may report in another order. -/

namespace ShadowSe

open Support

/-- The document that a worker has filed and is about to pass to `onDoc`. -/
def ProcessPhase.Files : ProcessPhase → Document → Prop
  | .reporting item html id, doc => doc = { pageDocument item html with id }
  | _, _ => False

namespace Crawler

variable {opts : CrawlerOptions} {layout : Layout} {site : Bytes → FetchResult}
  {s next : Crawler} {worker : Nat}

def Unreported (s : Crawler) (doc : Document) : Prop :=
  ∃ worker phase, s.phases.lookup worker = some phase ∧ phase.Files doc

/-- The filed documents as `process` built them, without their ids. -/
def pages (s : Crawler) : List Document :=
  s.filed.map fun doc => { doc with id := 0 }

/-- No page is filed twice, and what is filed is reported or about to be. -/
structure Filed (s : Crawler) : Prop where
  distinct : (s.filed.map (·.url)).Nodup
  mem_iff : ∀ doc, doc ∈ s.filed ↔ doc ∈ s.onDoc ∨ s.Unreported doc

/-- The index is built from the filed pages, numbered in the order in which they were filed. -/
structure Indexed (layout : Layout) (s : Crawler) : Prop where
  built : s.index = IndexOp.runAll layout (s.pages.map .addDocument)
  stored : ∀ id doc, s.index.document id = some doc ↔ doc ∈ s.filed ∧ doc.id = id
  ids : s.filed.map (·.id) = List.range' 1 s.filed.length
  next : s.index.nextId_ = s.filed.length + 1
  count : s.index.documentCount = s.filed.length

private theorem unreported_go {before after : ProcessPhase}
    (found : s.phases.lookup worker = some before)
    (entered : next.phases = s.phases.insert worker after)
    (same : ∀ doc, after.Files doc ↔ before.Files doc) (doc : Document) :
    next.Unreported doc ↔ s.Unreported doc := by
  unfold Unreported
  rw [entered, exists_phase_go found after (p := (·.Files doc)) (same doc)]

/-- Only the steps that index and report a page touch the index, what is filed and `onDoc`. -/
theorem step_files (action : CrawlerStep) (unindexed : ∀ worker, action ≠ .index worker)
    (silent : ∀ worker, action ≠ .report worker)
    (taken : step opts layout s action = some next) :
    next.index = s.index ∧ next.filed = s.filed ∧ next.onDoc = s.onDoc ∧
      ∀ doc, next.Unreported doc ↔ s.Unreported doc := by
  have waited {mover : Nat} {item : Item} {before after : ProcessPhase}
      (found : s.phases.lookup mover = some before)
      (begun : s.beginWait opts mover item after = some next)
      (same : ∀ doc, after.Files doc ↔ before.Files doc) :
      next.index = s.index ∧ next.filed = s.filed ∧ next.onDoc = s.onDoc ∧
        ∀ doc, next.Unreported doc ↔ s.Unreported doc := by
    obtain ⟨_, _, rfl⟩ := beginWait_some begun
    exact ⟨rfl, rfl, rfl, unreported_go found rfl same⟩
  cases action with
  | enqueue url depth priority =>
    cases Option.some.inj taken
    exact ⟨rfl, rfl, rfl, fun _ => Iff.rfl⟩
  | stop => cases Option.some.inj taken; exact ⟨rfl, rfl, rfl, fun _ => Iff.rfl⟩
  | join =>
    obtain ⟨_, _, rfl⟩ := Option.map_eq_some_iff.mp taken
    exact ⟨rfl, rfl, rfl, fun _ => Iff.rfl⟩
  | leave worker =>
    obtain ⟨_, _, rfl⟩ := Option.map_eq_some_iff.mp taken
    exact ⟨rfl, rfl, rfl, fun _ => Iff.rfl⟩
  | tick elapsed => cases Option.some.inj taken; exact ⟨rfl, rfl, rfl, fun _ => Iff.rfl⟩
  | readLast worker =>
    obtain ⟨_, _, rfl⟩ := Option.map_eq_some_iff.mp taken
    exact ⟨rfl, rfl, rfl, fun _ => Iff.rfl⟩
  | checkWait worker =>
    obtain ⟨_, _, rfl⟩ := Option.map_eq_some_iff.mp taken
    exact ⟨rfl, rfl, rfl, fun _ => Iff.rfl⟩
  | fetchRobots worker res =>
    obtain ⟨_, _, rfl⟩ := step_fetchRobots taken
    exact ⟨rfl, rfl, rfl, fun _ => Iff.rfl⟩
  | pop worker =>
    obtain ⟨_, item, outside, _, _, rfl⟩ := step_pop taken
    refine ⟨rfl, rfl, rfl, fun doc => ?_⟩
    simp only [Unreported, setPhase, Table.exists_value_insert]
    rw [Table.exists_value_iff s.phases worker, outside]
    simp [ProcessPhase.Files]
  | start worker =>
    obtain ⟨_, started, ⟨_, begun⟩ | ⟨_, _, rfl⟩ | ⟨_, begun⟩⟩ := step_start taken
    · exact waited started begun fun _ => Iff.rfl
    · exact ⟨rfl, rfl, rfl, unreported_go started rfl fun _ => Iff.rfl⟩
    · exact waited started begun fun _ => Iff.rfl
  | grant worker =>
    obtain ⟨_, _, _, ⟨waiting, rfl⟩ | ⟨waiting, rfl⟩⟩ := step_grant taken
    · exact ⟨rfl, rfl, rfl, unreported_go waiting rfl fun _ => Iff.rfl⟩
    · exact ⟨rfl, rfl, rfl, unreported_go waiting rfl fun _ => Iff.rfl⟩
  | load worker =>
    obtain ⟨_, _, entered, _, rfl⟩ := step_load taken
    refine ⟨rfl, rfl, rfl, unreported_go entered rfl fun doc => ?_⟩
    split
    · exact Iff.rfl
    · exact Iff.rfl
  | storeRobots worker =>
    obtain ⟨_, _, loading, _, rfl⟩ := step_storeRobots taken
    exact ⟨rfl, rfl, rfl, unreported_go loading rfl fun _ => Iff.rfl⟩
  | decide worker =>
    obtain ⟨_, deciding, ⟨_, rfl⟩ | ⟨_, begun⟩⟩ := step_decide taken
    · exact ⟨rfl, rfl, rfl, unreported_go deciding rfl fun _ => Iff.rfl⟩
    · exact waited deciding begun fun _ => Iff.rfl
  | fetch worker res =>
    obtain ⟨_, fetching, ⟨_, rfl⟩ | ⟨_, rfl⟩⟩ := step_fetch taken
    · exact ⟨rfl, rfl, rfl, unreported_go fetching rfl fun _ => Iff.rfl⟩
    · exact ⟨rfl, rfl, rfl, unreported_go fetching rfl fun _ => Iff.rfl⟩
  | index worker => exact absurd rfl (unindexed worker)
  | report worker => exact absurd rfl (silent worker)
  | follow worker =>
    obtain ⟨_, ⟨following, rfl⟩ | ⟨_, _, following, rfl⟩⟩ := step_follow taken
    · exact ⟨rfl, rfl, rfl, unreported_go following rfl fun _ => Iff.rfl⟩
    · refine ⟨rfl, rfl, rfl, unreported_go following rfl fun doc => ?_⟩
      split
      · exact Iff.rfl
      · exact Iff.rfl
  | finish worker =>
    obtain ⟨_, finished, _, rfl⟩ := step_finish taken
    refine ⟨rfl, rfl, rfl, fun doc => ?_⟩
    simp only [Unreported, Table.exists_value_erase]
    rw [Table.exists_value_iff s.phases worker, finished]
    simp [ProcessPhase.Files]

/-- A step indexes a page, or reports one, or touches none of this. -/
theorem filing_cases (action : CrawlerStep) (taken : step opts layout s action = some next) :
    (∃ worker, action = .index worker) ∨ (∃ worker, action = .report worker) ∨
      (next.index = s.index ∧ next.filed = s.filed ∧ next.onDoc = s.onDoc ∧
        ∀ doc, next.Unreported doc ↔ s.Unreported doc) := by
  by_cases indexes : ∃ worker, action = .index worker
  · exact .inl indexes
  by_cases reports : ∃ worker, action = .report worker
  · exact .inr (.inl reports)
  · exact .inr (.inr (step_files action (fun worker same => indexes ⟨worker, same⟩)
      (fun worker same => reports ⟨worker, same⟩) taken))

/-- A page that a worker is about to index has not been filed. -/
theorem Filed.fresh (filed : s.Filed) (held : s.Reporting opts site)
    (books : s.crawl.Accounted opts) {item : Item} {html : Bytes}
    (indexing : s.phases.lookup worker = some (.indexing item html)) :
    item.url ∉ s.filed.map (·.url) := by
  intro member
  obtain ⟨doc, inside, same⟩ := List.mem_map.mp member
  obtain ⟨page, busy, rfl, fresh, _⟩ := held.phases worker _ indexing
  rcases (filed.mem_iff doc).mp inside with reported | ⟨other, phase, found, files⟩
  · exact fresh (List.mem_append_left _ (same ▸ List.mem_map_of_mem reported))
  · cases phase with
    | reporting target text id =>
      obtain ⟨page, holding, rfl, _⟩ := held.phases other _ found
      rw [files] at same
      cases books.processing_unique holding busy same
      cases Option.some.inj (found.symm.trans indexing)
    | _ => exact files

theorem Filed.step (filed : s.Filed) (held : s.Reporting opts site)
    (books : s.crawl.Accounted opts) (action : CrawlerStep)
    (taken : Crawler.step opts layout s action = some next) : next.Filed := by
  rcases filing_cases action taken with
    ⟨worker, rfl⟩ | ⟨worker, rfl⟩ | ⟨_, same, onDoc, unreported⟩
  · obtain ⟨item, html, indexing, same⟩ := step_index taken
    have fresh := filed.fresh held books indexing
    rw [same]
    refine ⟨?_, fun doc => ?_⟩
    · rw [List.map_append, List.nodup_append]
      refine ⟨filed.distinct, List.nodup_singleton _, ?_⟩
      rintro url old _ new rfl
      cases List.mem_singleton.mp new
      exact fresh old
    · simp only [Unreported, setPhase, Table.exists_value_insert, List.mem_append,
        List.mem_singleton, filed.mem_iff doc]
      rw [Table.exists_value_iff s.phases worker, indexing]
      simp only [Option.some.injEq, exists_eq_left', ProcessPhase.Files, false_or]
      exact or_right_comm.trans or_assoc
  · rcases step_report taken with ⟨item, ⟨error, rejecting, same⟩ | ⟨html, id, reporting, same⟩⟩
    · have entered : next.phases = s.phases.insert worker .finished := by
        rw [same]
        rfl
      have unreported := unreported_go rejecting entered fun _ => Iff.rfl
      refine ⟨same ▸ filed.distinct, fun doc => ?_⟩
      rw [unreported, same]
      exact filed.mem_iff doc
    · rw [same]
      refine ⟨filed.distinct, fun doc => (filed.mem_iff doc).trans ?_⟩
      simp only [Unreported, setPhase, Table.exists_value_insert, List.mem_append,
        List.mem_singleton]
      rw [Table.exists_value_iff s.phases worker, reporting]
      simp [ProcessPhase.Files, or_assoc]
  · refine ⟨same ▸ filed.distinct, fun doc => ?_⟩
    rw [same, onDoc, unreported]
    exact filed.mem_iff doc

theorem filed_create (opts : CrawlerOptions) (bloom : BloomFilter) (clock : Int) :
    (create opts bloom clock).Filed := by
  constructor <;> simp [create, Unreported]

theorem filed_of_reaches {bloom : BloomFilter} {clock : Int}
    (reached : (machine opts layout).Reaches (FromSite site) (create opts bloom clock) s) :
    s.Filed := by
  induction reached with
  | refl => exact filed_create opts bloom clock
  | step action earlier _ taken filed =>
    exact filed.step (reporting earlier) (accounted earlier.reachable) action taken

theorem Filed.perm_onDoc (filed : s.Filed) (held : s.Reporting opts site)
    (returned : ∀ worker ∈ s.crawl.workers, worker = .returned) : s.onDoc.Perm s.filed := by
  have told : (s.onDoc.map (·.url)).Nodup := (List.nodup_append.mp held.once).1
  refine (List.perm_ext_iff_of_nodup told.of_map filed.distinct.of_map).mpr fun doc => ?_
  rw [filed.mem_iff doc, or_iff_left]
  rintro ⟨worker, phase, found, _⟩
  obtain ⟨item, busy, _⟩ := held.phases worker phase found
  cases returned _ (List.mem_of_getElem? busy)

/-- A filed page is a page of an accepted URL as the site serves it. -/
theorem Filed.page (filed : s.Filed) (held : s.Reporting opts site)
    (books : s.crawl.Accounted opts) {doc : Document} (member : doc ∈ s.filed) :
    ∃ item : Item, item.url ∈ s.crawl.accepted ∧ (site item.url).ok = true ∧
      doc = { pageDocument item (site item.url).html with id := doc.id } := by
  have accepted {url : Bytes} (handed : url ∈ s.crawl.handed) : url ∈ s.crawl.accepted :=
    books.queued.mem_iff.mpr (List.mem_append_right _ handed)
  rcases (filed.mem_iff doc).mp member with reported | ⟨worker, phase, found, files⟩
  · obtain ⟨item, succeeded, built⟩ := held.documents doc reported
    have listed : item.url ∈ s.reported := by
      refine List.mem_append_left _ (List.mem_map.mpr ⟨doc, reported, ?_⟩)
      rw [built]
      rfl
    exact ⟨item, accepted (held.handed _ listed), succeeded, built⟩
  · cases phase with
    | reporting item html id =>
      obtain ⟨page, busy, rfl, _, succeeded, rfl⟩ := held.phases worker _ found
      refine ⟨item, accepted (books.processed.mem_iff.mpr (List.mem_append_left _ ?_)), succeeded,
        ?_⟩
      · exact List.mem_map_of_mem (CrawlState.mem_inFlight busy)
      · rw [files]
    | _ => exact files.elim

theorem indexed_create (opts : CrawlerOptions) (layout : Layout) (bloom : BloomFilter)
    (clock : Int) : (create opts bloom clock).Indexed layout := by
  constructor <;> simp [create, pages, IndexOp.runAll, InvertedIndex.empty,
    InvertedIndex.document, InvertedIndex.documentCount]

private theorem Indexed.index (indexed : s.Indexed layout) {item : Item} {html : Bytes}
    (fresh : item.url ∉ s.filed.map (·.url)) (phases : Table Nat ProcessPhase) :
    Indexed layout { s with
      phases
      index := (s.index.addDocumentLocked layout (pageDocument item html)).1
      filed := s.filed ++ [{ pageDocument item html with
        id := (s.index.addDocumentLocked layout (pageDocument item html)).2 }] } := by
  have sound : s.index.Represents := indexed.built ▸ IndexOp.represents_runAll layout _
  have unknown : s.index.urlToId_.lookup (pageDocument item html).url = none := by
    refine Option.eq_none_iff_forall_not_mem.mpr fun id known => fresh ?_
    obtain ⟨doc, live, same⟩ := (sound.urls _ id).mp known
    exact List.mem_map.mpr ⟨doc, ((indexed.stored id doc).mp live).1, same⟩
  obtain ⟨target, following⟩ := InvertedIndex.addDocument_fresh layout unknown
  have number : (s.index.addDocumentLocked layout (pageDocument item html)).2 =
      s.filed.length + 1 := by
    have claimed := InvertedIndex.claimId_id s.index (pageDocument item html).url
    rw [← indexed.next, ← target, ← claimed]
    rfl
  have docs := InvertedIndex.addDocument_docs layout s.index (pageDocument item html)
  rw [target, indexed.next] at docs
  have free : s.index.docs_.lookup (s.filed.length + 1) = none := by
    rw [← indexed.next]
    exact sound.lookup_nextId
  rw [number]
  constructor
  · have built := indexed.built
    simp only [IndexOp.runAll, pages, List.map_append, List.map_cons, List.map_nil,
      List.foldl_append, List.foldl_cons, List.foldl_nil] at built ⊢
    rw [← built]
    rfl
  · intro id doc
    change (s.index.addDocument layout (pageDocument item html)).docs_.lookup id = some doc ↔ _
    rw [docs, Table.lookup_insert_ite, List.mem_append, List.mem_singleton]
    split
    · rename_i same
      subst id
      constructor
      · intro found
        cases Option.some.inj found
        exact ⟨.inr rfl, rfl⟩
      · rintro ⟨old | rfl, same⟩
        · have live := (indexed.stored _ doc).mpr ⟨old, same⟩
          rw [InvertedIndex.document, free] at live
          cases live
        · rfl
    · rename_i differs
      refine (indexed.stored id doc).trans (and_congr_left fun same => ?_)
      refine ⟨.inl, fun member => member.resolve_right ?_⟩
      rintro rfl
      exact differs same.symm
  · rw [List.map_append, indexed.ids, List.length_append, List.length_singleton,
      List.range'_1_concat]
    simp [Nat.add_comm]
  · change (s.index.addDocument layout (pageDocument item html)).nextId_ = _
    rw [following, indexed.next, List.length_append, List.length_singleton]
  · have counted := indexed.count
    simp only [InvertedIndex.documentCount, ← Table.length_values] at counted ⊢
    change (Table.values (s.index.addDocument layout (pageDocument item html)).docs_).length = _
    rw [docs, Table.values_insert_fresh _ _ _ free, List.length_cons, counted,
      List.length_append, List.length_singleton]

private theorem Indexed.congr (indexed : s.Indexed layout) (index : next.index = s.index)
    (filed : next.filed = s.filed) : next.Indexed layout := by
  obtain ⟨built, stored, ids, following, count⟩ := indexed
  constructor
  · rw [index, built, pages, pages, filed]
  · rw [index, filed]
    exact stored
  · rw [filed, ids]
  · rw [index, filed, following]
  · rw [index, filed, count]

theorem Indexed.step (indexed : s.Indexed layout) (filed : s.Filed)
    (held : s.Reporting opts site) (books : s.crawl.Accounted opts) (action : CrawlerStep)
    (taken : Crawler.step opts layout s action = some next) : next.Indexed layout := by
  rcases filing_cases action taken with ⟨worker, rfl⟩ | ⟨worker, rfl⟩ | ⟨index, same, _⟩
  · obtain ⟨item, html, indexing, rfl⟩ := step_index taken
    exact indexed.index (filed.fresh held books indexing) _
  · rcases step_report taken with ⟨_, ⟨_, _, rfl⟩ | ⟨_, _, _, rfl⟩⟩
    · exact indexed.congr rfl rfl
    · exact indexed.congr rfl rfl
  · exact indexed.congr index same

theorem indexed_of_reaches {bloom : BloomFilter} {clock : Int}
    (reached : (machine opts layout).Reaches (FromSite site) (create opts bloom clock) s) :
    s.Indexed layout := by
  induction reached with
  | refl => exact indexed_create opts layout bloom clock
  | step action earlier _ taken indexed =>
    exact indexed.step (filed_of_reaches earlier) (reporting earlier)
      (accounted earlier.reachable) action taken

/-- At every point of a crawl, whatever the interleaving, the index holds the pages filed so
far, numbered in that order: pages of accepted URLs as the site serves them, each reported or
about to be, and all of them reported once the workers have gone. A search during which nothing
is filed, with room for all of them, finds exactly those that share a token with the query. -/
theorem crawl_searchable (D : Type) [Double D] (opts : CrawlerOptions) (layout : Layout)
    (site : Bytes → FetchResult) (bloom : BloomFilter) (clock : Int)
    (reached : (machine opts layout).Reaches (FromSite site) (create opts bloom clock) s)
    (bounded : ∀ doc ∈ s.filed, doc.NoWrap) (order : VisitOrder) (limit : Nat)
    (enough : s.filed.length ≤ limit) :
    s.filed.map (·.id) = List.range' 1 s.filed.length ∧
    (∀ id doc, s.index.document id = some doc ↔ doc ∈ s.filed ∧ doc.id = id) ∧
    (∀ doc, doc ∈ s.filed ↔ doc ∈ s.onDoc ∨ s.Unreported doc) ∧
    ((∀ worker ∈ s.crawl.workers, worker = .returned) → s.onDoc.Perm s.filed) ∧
    (∀ doc ∈ s.filed, ∃ item : Item, item.url ∈ s.crawl.accepted ∧ (site item.url).ok = true ∧
      doc = { pageDocument item (site item.url).html with id := doc.id }) ∧
    ∀ query doc, doc ∈ (Engine.search D order s.index query limit).map (·.doc) ↔
      doc ∈ s.filed ∧ ∃ token ∈ tokenize query, token ∈ doc.tokens := by
  have indexed := indexed_of_reaches reached
  have filed := filed_of_reaches reached
  have held := reporting reached
  have sound : s.index.Represents := indexed.built ▸ IndexOp.represents_runAll layout _
  refine ⟨indexed.ids, indexed.stored, filed.mem_iff, filed.perm_onDoc held,
    fun doc member => filed.page held (accounted reached.reachable) member, fun query doc => ?_⟩
  have room : s.index.documentCount ≤ limit := indexed.count ▸ enough
  have stored : s.index.AllStored Document.NoWrap := fun id doc live =>
    bounded doc ((indexed.stored id doc).mp live).1
  refine (BM25Ranker.mem_rank_iff (D := D) sound stored order .standard (tokenize query) room
    doc).trans (and_congr_left fun _ => ⟨?_, fun member => ⟨doc.id, ?_⟩⟩)
  · rintro ⟨id, live⟩
    exact ((indexed.stored id doc).mp live).1
  · exact (indexed.stored doc.id doc).mpr ⟨member, rfl⟩

/-- What the page of `halfSite` is indexed as. -/
def halfDocument : Document where
  id := 1
  url := ascii "http://a"
  title := ascii "http://a"
  content := ascii "alpha"

/-- A word of the page, in another case and with punctuation, finds it. -/
theorem crawl_searchable_halfSite :
    ∃ s, (machine openOptions fun _ => .stored).Reaches (FromSite halfSite)
        (create openOptions (.create (fun _ => 0) 64 1) 0) s ∧
      halfDocument ∈ (Engine.search ℝ .reversed s.index (ascii "Alpha?") 1).map (·.doc) := by
  obtain ⟨s, reached, docs⟩ : ∃ s, (machine openOptions fun _ => .stored).Reaches
      (FromSite halfSite) (create openOptions (.create (fun _ => 0) 64 1) 0) s ∧
      s.filed = [halfDocument] :=
    Machine.exists_reaches_of_run halfSteps (by decide +kernel)
  have found := crawl_searchable ℝ openOptions (fun _ => .stored) halfSite
    (.create (fun _ => 0) 64 1) 0 reached (by
      rw [docs]
      intro doc member
      cases List.mem_singleton.mp member
      exact Document.noWrap_of_length (by decide)) .reversed 1 (by simp [docs])
  refine ⟨s, reached, (found.2.2.2.2.2 (ascii "Alpha?") _).mpr ⟨?_, ascii "alpha", ?_⟩⟩
  · rw [docs]
    exact List.mem_singleton_self _
  · exact ⟨by decide, by decide⟩

end Crawler

end ShadowSe
