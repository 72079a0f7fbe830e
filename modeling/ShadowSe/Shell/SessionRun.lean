import ShadowSe.Shell.Session

namespace ShadowSe

open Support

theorem mem_firstUrls {docs : List Document} {url : Bytes} :
    url ∈ firstUrls docs ↔ url ∈ docs.map (·.url) := by
  induction docs using List.reverseRecOn with
  | nil => simp [firstUrls]
  | append_singleton docs doc ih =>
    rw [firstUrls_concat, List.map_append, List.mem_append, ← ih]
    split
    · rename_i known
      simp only [List.map_cons, List.map_nil, List.mem_singleton]
      exact ⟨.inl, fun either => either.elim id fun same => same ▸ known⟩
    · simp

theorem lastWith_append {docs more : List Document} (distinct : (more.map (·.url)).Nodup)
    {doc : Document} (member : doc ∈ more) : lastWith (docs ++ more) doc.url = some doc := by
  induction more using List.reverseRecOn with
  | nil => cases member
  | append_singleton more last ih =>
    rw [List.map_append, List.map_cons, List.map_nil] at distinct
    rw [← List.append_assoc, lastWith_concat]
    rcases List.mem_append.mp member with earlier | equal
    · have differs : last.url ≠ doc.url := fun same =>
        (List.nodup_append.mp distinct).2.2 _ (List.mem_map_of_mem earlier) _
          (List.mem_singleton_self _) same.symm
      rw [if_neg differs]
      exact ih (List.nodup_append.mp distinct).1 earlier
    · rw [List.mem_singleton.mp equal, if_pos rfl]

namespace Crawler

variable {opts : CrawlerOptions} {layout : Layout} {s next : Crawler}

theorem step_reports (action : CrawlerStep) (taken : step opts layout s action = some next) :
    s.onDoc <+: next.onDoc ∧ s.onErr <+: next.onErr := by
  have same (onDoc : next.onDoc = s.onDoc) (onErr : next.onErr = s.onErr) :
      s.onDoc <+: next.onDoc ∧ s.onErr <+: next.onErr := by
    rw [onDoc, onErr]
    exact ⟨List.prefix_refl _, List.prefix_refl _⟩
  have waited {mover : Nat} {item : Item} {phase : ProcessPhase}
      (begun : s.beginWait opts mover item phase = some next) :
      s.onDoc <+: next.onDoc ∧ s.onErr <+: next.onErr := by
    obtain ⟨_, _, rfl⟩ := beginWait_some begun
    exact same rfl rfl
  cases action with
  | enqueue url depth priority => cases Option.some.inj taken; exact same rfl rfl
  | stop => cases Option.some.inj taken; exact same rfl rfl
  | join => obtain ⟨_, _, rfl⟩ := Option.map_eq_some_iff.mp taken; exact same rfl rfl
  | leave worker => obtain ⟨_, _, rfl⟩ := Option.map_eq_some_iff.mp taken; exact same rfl rfl
  | tick elapsed => cases Option.some.inj taken; exact same rfl rfl
  | readLast worker => obtain ⟨_, _, rfl⟩ := Option.map_eq_some_iff.mp taken; exact same rfl rfl
  | checkWait worker => obtain ⟨_, _, rfl⟩ := Option.map_eq_some_iff.mp taken; exact same rfl rfl
  | fetchRobots worker res => obtain ⟨_, _, rfl⟩ := step_fetchRobots taken; exact same rfl rfl
  | pop worker => obtain ⟨_, _, _, _, _, rfl⟩ := step_pop taken; exact same rfl rfl
  | start worker =>
    obtain ⟨_, _, ⟨_, begun⟩ | ⟨_, _, rfl⟩ | ⟨_, begun⟩⟩ := step_start taken
    · exact waited begun
    · exact same rfl rfl
    · exact waited begun
  | grant worker =>
    obtain ⟨_, _, _, ⟨_, rfl⟩ | ⟨_, rfl⟩⟩ := step_grant taken
    · exact same rfl rfl
    · exact same rfl rfl
  | load worker => obtain ⟨_, _, _, _, rfl⟩ := step_load taken; exact same rfl rfl
  | storeRobots worker => obtain ⟨_, _, _, _, rfl⟩ := step_storeRobots taken; exact same rfl rfl
  | decide worker =>
    obtain ⟨_, _, ⟨_, rfl⟩ | ⟨_, begun⟩⟩ := step_decide taken
    · exact same rfl rfl
    · exact waited begun
  | fetch worker res =>
    obtain ⟨_, _, ⟨_, rfl⟩ | ⟨_, rfl⟩⟩ := step_fetch taken
    · exact same rfl rfl
    · exact same rfl rfl
  | index worker => obtain ⟨_, _, _, rfl⟩ := step_index taken; exact same rfl rfl
  | report worker =>
    obtain ⟨_, ⟨_, _, rfl⟩ | ⟨_, _, _, rfl⟩⟩ := step_report taken
    · exact ⟨List.prefix_refl _, List.prefix_append _ _⟩
    · exact ⟨List.prefix_append _ _, List.prefix_refl _⟩
  | follow worker =>
    obtain ⟨_, ⟨_, rfl⟩ | ⟨_, _, _, rfl⟩⟩ := step_follow taken
    · exact same rfl rfl
    · exact same rfl rfl
  | finish worker => obtain ⟨_, _, _, rfl⟩ := step_finish taken; exact same rfl rfl

/-- The index takes the pages as they are filed. -/
theorem step_files_pages (action : CrawlerStep)
    (taken : step opts layout s action = some next) :
    ∃ more, next.pages = s.pages ++ more ∧
      next.index = more.foldl (InvertedIndex.addDocument layout) s.index := by
  have same (index : next.index = s.index) (filed : next.filed = s.filed) :
      ∃ more, next.pages = s.pages ++ more ∧
        next.index = more.foldl (InvertedIndex.addDocument layout) s.index :=
    ⟨[], by rw [pages, filed, List.append_nil, pages], index⟩
  rcases filing_cases action taken with ⟨worker, rfl⟩ | ⟨worker, rfl⟩ | ⟨index, filed, _⟩
  · obtain ⟨item, html, _, rfl⟩ := step_index taken
    refine ⟨[pageDocument item html], ?_, rfl⟩
    rw [pages, List.map_append]
    rfl
  · rcases step_report taken with ⟨_, ⟨_, _, rfl⟩ | ⟨_, _, _, rfl⟩⟩
    · exact same rfl rfl
    · exact same rfl rfl
  · exact same index filed

end Crawler

namespace Session

variable {order : VisitOrder} {sodium : Sodium} {opts : CrawlerOptions} {layout : Layout}
  {site : Bytes → FetchResult} {s next : Session}

/-- The fetcher serves a fixed site. -/
def FromSite (site : Bytes → FetchResult) (s : Session) : SessionStep → Prop
  | .line .. | .endOfInput => True
  | .crawler action => Crawler.FromSite site s.crawler action

instance (site : Bytes → FetchResult) (s : Session) (action : SessionStep) :
    Decidable (FromSite site s action) :=
  match action with
  | .line .. | .endOfInput => inferInstanceAs (Decidable True)
  | .crawler action => inferInstanceAs (Decidable (Crawler.FromSite site s.crawler action))

/-- The pages filed since the last load. -/
def fresh (s : Session) : List Document :=
  s.crawler.pages.drop s.since

/-- What holds of a session at every point. -/
structure Consistent (opts : CrawlerOptions) (layout : Layout) (site : Bytes → FetchResult)
    (s : Session) : Prop where
  books : s.crawler.crawl.Accounted opts
  reports : s.crawler.Reporting opts site
  filed : s.crawler.Filed
  built : s.crawler.index =
    (s.base ++ s.fresh).foldl (InvertedIndex.addDocument layout) .empty
  since : s.since ≤ s.crawler.pages.length
  room : s.activity.cap_ = 200
  shows : s.activity.Shows s.events
  indexed : s.events.filter (fun ev => ev.kind = ascii "indexed") =
    s.crawler.onDoc.map indexedEvent
  failed : s.events.filter (fun ev => ev.kind = ascii "error") = s.crawler.onErr.map errorEvent

theorem Consistent.answer (held : s.Consistent opts layout site) (reply : Reply) :
    (s.answer reply).Consistent opts layout site :=
  ⟨held.books, held.reports, held.filed, held.built, held.since, held.room, held.shows,
    held.indexed, held.failed⟩

/-- A step of the crawler that files and reports nothing, taken by the shell itself. -/
private theorem Consistent.call (held : s.Consistent opts layout site) (action : CrawlerStep)
    (fair : Crawler.FromSite site s.crawler action) {crawler : Crawler}
    (taken : s.crawler.step opts layout action = some crawler)
    (index : crawler.index = s.crawler.index) (filed : crawler.filed = s.crawler.filed)
    (onDoc : crawler.onDoc = s.crawler.onDoc) (onErr : crawler.onErr = s.crawler.onErr) :
    { s with crawler }.Consistent opts layout site := by
  have same : crawler.pages = s.crawler.pages := by rw [Crawler.pages, filed, Crawler.pages]
  refine ⟨?_, held.reports.step held.books action fair taken,
    held.filed.step held.reports held.books action taken, ?_, same ▸ held.since, held.room,
    held.shows, onDoc ▸ held.indexed, onErr ▸ held.failed⟩
  · rcases (Crawler.step_matches action taken).crawl with same | ⟨step, done⟩
    · exact same ▸ held.books
    · exact held.books.step step done
  · simp only [fresh, same, index]
    exact held.built

private theorem Consistent.disk (held : s.Consistent opts layout site) (disk : Disk) :
    { s with disk }.Consistent opts layout site :=
  ⟨held.books, held.reports, held.filed, held.built, held.since, held.room, held.shows,
    held.indexed, held.failed⟩

theorem Consistent.shutdown (held : s.Consistent opts layout site) :
    s.shutdown.Consistent opts layout site := by
  have called := held.call .stop trivial rfl rfl rfl rfl rfl
  exact ⟨called.books, called.reports, called.filed, called.built, called.since, called.room,
    called.shows, called.indexed, called.failed⟩

theorem Consistent.crawl (held : s.Consistent opts layout site) (url : Bytes) :
    { s with crawler := (Engine.crawl opts s.crawler url).2 }.Consistent opts layout site :=
  held.call (.enqueue url 0 (-1)) trivial rfl rfl rfl rfl rfl

private theorem Consistent.afterLoad (held : s.Consistent opts layout site)
    {after : Except Bytes Unit × InvertedIndex} {decoded : Except Bytes (List Document)}
    (loads : Engine.AllOrNothing layout s.crawler.index decoded after)
    (same : ∀ docs, decoded = .ok docs ↔ after.1 = .ok () ∧ decoded = .ok docs) :
    (s.afterLoad after decoded).Consistent opts layout site := by
  have reports : { s.crawler with index := after.2 }.Reporting opts site :=
    ⟨held.reports.phases, held.reports.busy, held.reports.once, held.reports.handed,
      held.reports.completed, held.reports.documents, held.reports.errors⟩
  have filed : { s.crawler with index := after.2 }.Filed :=
    ⟨held.filed.distinct, held.filed.mem_iff⟩
  cases decoded with
  | ok docs =>
    obtain ⟨loaded, decoded, index, _⟩ := loads.all ((same docs).mp rfl).1
    cases Except.ok.inj decoded
    refine ⟨held.books, reports, filed, ?_, ?_, held.room, held.shows, held.indexed,
      held.failed⟩
    case refine_2 => simp [Session.afterLoad, Crawler.pages]
    have none : (s.afterLoad after (.ok docs)).fresh = [] := by
      simp [Session.afterLoad, fresh, Crawler.pages]
    rw [none, List.append_nil]
    exact index
  | error err =>
    have kept : after.2 = s.crawler.index := by
      cases result : after.1 with
      | error other => exact loads.nothing other result
      | ok loaded =>
        obtain ⟨_, decoded, _⟩ := loads.all result
        cases decoded
    exact ⟨held.books, reports, filed, kept.trans held.built, held.since, held.room,
      held.shows, held.indexed, held.failed⟩

private theorem filter_kind {α : Type} {event : α → ActivityEvent} {kind wanted : Bytes}
    (reports : List α) (same : ∀ report, (event report).kind = kind) :
    (reports.map event).filter (fun ev => ev.kind = wanted) =
      if kind = wanted then reports.map event else [] := by
  split
  · rename_i equal
    refine List.filter_eq_self.mpr fun ev member => ?_
    obtain ⟨report, _, rfl⟩ := List.mem_map.mp member
    simp [same, equal]
  · rename_i differs
    refine List.filter_eq_nil_iff.mpr fun ev member => ?_
    obtain ⟨report, _, rfl⟩ := List.mem_map.mp member
    simp [same, differs]

private theorem Consistent.follow (held : s.Consistent opts layout site) (action : CrawlerStep)
    (fair : Crawler.FromSite site s.crawler action) {crawler : Crawler}
    (taken : s.crawler.step opts layout action = some crawler) :
    (s.follow crawler).Consistent opts layout site := by
  obtain ⟨⟨docs, moreDocs⟩, ⟨errs, moreErrs⟩⟩ := Crawler.step_reports action taken
  have newDocs : crawler.onDoc.drop s.crawler.onDoc.length = docs := by
    rw [← moreDocs, List.drop_left]
  have newErrs : crawler.onErr.drop s.crawler.onErr.length = errs := by
    rw [← moreErrs, List.drop_left]
  have told : (s.follow crawler).events =
      s.events ++ (docs.map indexedEvent ++ errs.map errorEvent) := by
    rw [Session.follow, newDocs, newErrs]
  have kinds : ascii "error" ≠ ascii "indexed" := by decide
  have docKind (doc : Document) : (indexedEvent doc).kind = ascii "indexed" := rfl
  have errKind (entry : Bytes × Bytes) : (errorEvent entry).kind = ascii "error" := rfl
  constructor
  · rcases (Crawler.step_matches action taken).crawl with same | ⟨step, done⟩
    · exact same ▸ held.books
    · exact held.books.step step done
  · exact held.reports.step held.books action fair taken
  · exact held.filed.step held.reports held.books action taken
  · obtain ⟨more, paged, index⟩ := Crawler.step_files_pages action taken
    calc crawler.index
        = more.foldl (InvertedIndex.addDocument layout) s.crawler.index := index
      _ = (s.base ++ s.fresh ++ more).foldl (InvertedIndex.addDocument layout) .empty := by
          rw [@List.foldl_append _ _ _ _ (s.base ++ s.fresh), ← held.built]
      _ = (s.base ++ crawler.pages.drop s.since).foldl (InvertedIndex.addDocument layout)
            .empty := by
          rw [List.append_assoc, fresh, ← List.drop_append_of_le_length held.since, ← paged]
  · obtain ⟨more, paged, _⟩ := Crawler.step_files_pages action taken
    calc s.since ≤ s.crawler.pages.length := held.since
      _ ≤ crawler.pages.length := by
        rw [paged, List.length_append]
        exact Nat.le_add_right _ _
  · exact (ActivityLog.cap_addAll _ _).trans held.room
  · exact held.shows.addAll _
  · rw [told, List.filter_append, List.filter_append, held.indexed,
      filter_kind docs docKind, filter_kind errs errKind,
      if_pos rfl, if_neg kinds, List.append_nil, ← List.map_append, moreDocs]
    rfl
  · rw [told, List.filter_append, List.filter_append, held.failed,
      filter_kind docs docKind, filter_kind errs errKind,
      if_neg kinds.symm, if_pos rfl, List.nil_append, ← List.map_append, moreErrs]
    rfl

private theorem Consistent.execute (held : s.Consistent opts layout site) (password : Bytes)
    (outcome : WriteOutcome) (command : Command) :
    (s.execute order sodium opts layout password outcome command).Consistent opts layout site := by
  cases command with
  | exit => exact held.shutdown
  | help => exact held
  | status => exact held
  | admin => exact held
  | search query => exact held
  | nothing => exact held
  | usage text => exact held.answer _
  | crawl target =>
    simp only [Session.execute]
    split
    · exact held.answer _
    · exact (held.crawl _).answer _
  | save path =>
    simp only [Session.execute]
    split
    · exact held.answer _
    · exact (held.disk _).answer _
  | saveState path => exact (held.disk _).answer _
  | load path =>
    have loads := (Engine.load_allOrNothing sodium 64 layout s.crawler.index s.disk path
      password).2
    refine (held.afterLoad loads fun docs => ?_).answer _
    rw [Engine.loadEncrypted]
    cases loadEncryptedSnapshot sodium 64 s.disk path password with
    | ok found => simp
    | error err => simp
  | loadState path =>
    have loads := (Engine.load_allOrNothing sodium 64 layout s.crawler.index s.disk path
      password).1
    refine (held.afterLoad loads fun docs => ?_).answer _
    rw [Engine.loadState]
    cases loadSnapshot 64 s.disk path with
    | ok found => simp
    | error err => simp

/-- A crawler step of a session is a step of the crawler. -/
theorem step_crawler {action : CrawlerStep}
    (taken : s.step order sodium opts layout (.crawler action) = some next) :
    ∃ crawler, s.crawler.step opts layout action = some crawler ∧ next = s.follow crawler := by
  have moved : (s.crawler.step opts layout action).map s.follow = some next := by
    cases action with
    | enqueue url depth priority => cases taken
    | stop => cases taken
    | _ => exact taken
  obtain ⟨crawler, done, rfl⟩ := Option.map_eq_some_iff.mp moved
  exact ⟨crawler, done, rfl⟩

/-- A line is executed while the shell runs. -/
theorem step_line {input password : Bytes} {outcome : WriteOutcome}
    {random : (n : Nat) → { bytes : Bytes // bytes.length = n }}
    (taken : s.step order sodium opts layout (.line input password outcome random) =
      some next) : next = s.execute order { sodium with randombytes := random } opts layout
        password outcome (Command.parse input) := by
  simp only [Session.step] at taken
  split at taken
  · exact (Option.some.inj taken).symm
  · cases taken

theorem step_endOfInput (taken : s.step order sodium opts layout .endOfInput = some next) :
    next = s.shutdown := by
  simp only [Session.step] at taken
  split at taken
  · exact (Option.some.inj taken).symm
  · cases taken

theorem Consistent.step (held : s.Consistent opts layout site) (action : SessionStep)
    (fair : FromSite site s action)
    (taken : s.step order sodium opts layout action = some next) :
    next.Consistent opts layout site := by
  cases action with
  | line input password outcome random =>
    rw [step_line taken]
    exact held.execute _ _ _
  | endOfInput =>
    rw [step_endOfInput taken]
    exact held.shutdown
  | crawler action =>
    obtain ⟨crawler, done, rfl⟩ := step_crawler taken
    exact held.follow action fair done

theorem consistent_start (opts : CrawlerOptions) (layout : Layout)
    (site : Bytes → FetchResult) (bloom : BloomFilter) (clock : Int) (disk : Disk) :
    (start opts layout bloom clock disk).Consistent opts layout site := by
  obtain ⟨phases, busy, once, handed, completed, documents, errors⟩ :=
    Crawler.reporting_create opts site bloom clock
  have filed := Crawler.filed_create opts bloom clock
  refine ⟨CrawlState.accounted_create opts bloom,
    ⟨phases, busy, once, handed, completed, documents, errors⟩, ⟨filed.distinct, filed.mem_iff⟩,
    ?_, Nat.zero_le _, rfl, ActivityLog.shows_create 200, rfl, rfl⟩
  simp [start, fresh, Crawler.pages, Crawler.create, Engine.seedDemoData]

theorem consistent {bloom : BloomFilter} {clock : Int} {disk : Disk}
    (reached : (machine order sodium opts layout).Reaches (FromSite site)
      (start opts layout bloom clock disk) s) : s.Consistent opts layout site := by
  induction reached with
  | refl => exact consistent_start opts layout site bloom clock disk
  | step action _ fair taken held => exact held.step action fair taken

private theorem Consistent.nodup_pages (held : s.Consistent opts layout site) :
    (s.crawler.pages.map (·.url)).Nodup := by
  have urls : s.crawler.pages.map (·.url) = s.crawler.filed.map (·.url) := by
    rw [Crawler.pages, List.map_map]
    rfl
  exact urls ▸ held.filed.distinct

/-- In every session, whatever the user types and however the crawler's threads interleave
with it, the index is the one that the documents loaded last and the pages filed since make of
an empty one. No page is filed twice, so a page filed since the load is stored as it was
crawled, and one from before is in the index only if the file has its URL, also where it is
reported after the load. A filed page is reported or about to be. The activity log shows the
last 200 reports in their own order. -/
theorem session_index (order : VisitOrder) (sodium : Sodium) (opts : CrawlerOptions)
    (layout : Layout) (site : Bytes → FetchResult) (bloom : BloomFilter) (clock : Int)
    (disk : Disk)
    (reached : (machine order sodium opts layout).Reaches (FromSite site)
      (start opts layout bloom clock disk) s) :
    s.crawler.index = (s.base ++ s.fresh).foldl (InvertedIndex.addDocument layout) .empty ∧
    s.crawler.index.Represents ∧ s.crawler.index.Holds (s.base ++ s.fresh) ∧
    s.crawler.index.OnlyFrom (s.base ++ s.fresh) ∧
    (s.crawler.filed.map (·.url)).Nodup ∧ s.crawler.reported.Nodup ∧
    (∀ doc, doc ∈ s.crawler.filed ↔ doc ∈ s.crawler.onDoc ∨ s.crawler.Unreported doc) ∧
    (∀ doc ∈ s.fresh, ∃ id, s.crawler.index.document id = some { doc with id }) ∧
    (∀ doc ∈ s.crawler.pages.take s.since,
      (∃ id, s.crawler.index.urlToId_.lookup doc.url = some id) ↔
        doc.url ∈ s.base.map (·.url)) ∧
    s.activity.events_ = s.events.drop (s.events.length - 200) ∧
    s.events.filter (fun ev => ev.kind = ascii "indexed") =
      s.crawler.onDoc.map indexedEvent ∧
    s.events.filter (fun ev => ev.kind = ascii "error") = s.crawler.onErr.map errorEvent := by
  have held := consistent reached
  have sound : s.crawler.index.Represents :=
    held.built ▸ InvertedIndex.represents_empty.addAll layout _
  have holds : s.crawler.index.Holds (s.base ++ s.fresh) :=
    held.built ▸ InvertedIndex.holds_empty.addAll InvertedIndex.represents_empty layout _
  have distinct : (s.fresh.map (·.url)).Nodup := by
    rw [fresh, List.map_drop]
    exact held.nodup_pages.sublist (List.drop_sublist _ _)
  refine ⟨held.built, sound, holds, holds.onlyFrom sound, held.filed.distinct,
    held.reports.once, held.filed.mem_iff, ?_, ?_, ?_, held.indexed, held.failed⟩
  · intro doc member
    have listed : doc.url ∈ firstUrls (s.base ++ s.fresh) := by
      rw [mem_firstUrls, List.map_append]
      exact List.mem_append_right _ (List.mem_map_of_mem member)
    obtain ⟨id, known⟩ := holds.mem_firstUrls.mp listed
    refine ⟨id, (holds.versions _ _ known).trans ?_⟩
    rw [lastWith_append distinct member, Option.map_some]
  · intro doc earlier
    have apart : doc.url ∉ s.fresh.map (·.url) := by
      intro again
      refine List.disjoint_take_drop held.nodup_pages (Nat.le_refl s.since)
        (a := doc.url) ?_ ?_
      · rw [← List.map_take]
        exact List.mem_map_of_mem earlier
      · rw [← List.map_drop]
        exact again
    rw [← holds.mem_firstUrls, mem_firstUrls, List.map_append, List.mem_append]
    exact or_iff_left apart
  · have shown := held.shows
    rwa [ActivityLog.Shows, held.room] at shown

/-- A line, where neither a password nor random bytes matter. -/
def plainLine (input : Bytes) : SessionStep :=
  .line input [] .written fun n => ⟨List.replicate n 0, List.length_replicate⟩

/-- A disk with one small file. -/
def oneFile : Disk :=
  AList.insert (ascii "f") (serializeDocuments [{ url := ascii "http://b" }]) ∅

/-- The file is loaded, a page with a broken link is crawled, the file is loaded again. -/
def overwritten : List SessionStep :=
  plainLine (ascii "load-state f") :: plainLine (ascii "crawl a") ::
    ((Crawler.halfSteps.drop 1).take 19).map .crawler ++ [plainLine (ascii " load-state f ")]

theorem session_index_overwritten :
    ∃ s, (machine .stored (.lockbox [] []) Crawler.openOptions fun _ => .stored).Reaches
        (FromSite Crawler.halfSite) (start Crawler.openOptions (fun _ => .stored)
          (.create (fun _ => 0) 64 1) 0 oneFile) s ∧
      s.crawler.pages.map (·.url) = [ascii "http://a"] ∧
      s.crawler.index.urlToId_.lookup (ascii "http://a") = none := by
  obtain ⟨s, reached, crawled, since, other⟩ :
      ∃ s, (machine .stored (.lockbox [] []) Crawler.openOptions fun _ => .stored).Reaches
          (FromSite Crawler.halfSite) (start Crawler.openOptions (fun _ => .stored)
            (.create (fun _ => 0) 64 1) 0 oneFile) s ∧
        s.crawler.pages.map (·.url) = [ascii "http://a"] ∧ s.since = 1 ∧
          ascii "http://a" ∉ s.base.map (·.url) :=
    Machine.exists_reaches_of_run overwritten (by decide +kernel)
  have told := session_index .stored (.lockbox [] []) Crawler.openOptions (fun _ => .stored)
    Crawler.halfSite (.create (fun _ => 0) 64 1) 0 oneFile reached
  obtain ⟨doc, one, url⟩ := List.map_eq_singleton_iff.mp crawled
  have gone := told.2.2.2.2.2.2.2.2.1 doc (by rw [one, since]; exact List.mem_singleton_self doc)
  rw [url] at gone
  refine ⟨s, reached, crawled, Option.eq_none_iff_forall_ne_some.mpr fun id known => ?_⟩
  exact other (gone.mp ⟨id, known⟩)

end Session

end ShadowSe
