import ShadowSe.Gateway.SearchJson

namespace ShadowSe.WebServer

open Support

/-- The switch of `escapeHtml` on one byte. -/
def escapeByte (c : UInt8) : Bytes :=
  if c = 38 then ascii "&amp;"
  else if c = 60 then ascii "&lt;"
  else if c = 62 then ascii "&gt;"
  else if c = 34 then ascii "&quot;"
  else if c = 39 then ascii "&#39;"
  else [c]

def escapeHtml (s : Bytes) : Bytes :=
  s.flatMap escapeByte

/-- The page up to its form. -/
def pageStart (title : Bytes) : Bytes :=
  ascii "<!DOCTYPE html>\n<html lang=\"en\"><head><meta charset=\"utf-8\">\n" ++
  ascii "<title>" ++ escapeHtml title ++ ascii "</title>\n" ++
  ascii "<meta name=\"robots\" content=\"noindex, nofollow, noarchive\">\n" ++
  ascii "<style>" ++
  ascii "body\x7bfont-family:ui-monospace,Menlo,Consolas,monospace;background:#0d1117;" ++
  ascii "color:#c9d1d9;" ++
  ascii "max-width:760px;margin:2rem auto;padding:0 1rem;line-height:1.5\x7d" ++
  ascii "h1\x7bcolor:#58a6ff;font-size:1.3rem\x7da\x7bcolor:#58a6ff;word-break:break-all\x7d" ++
  ascii "input\x7bwidth:100%;padding:.55rem;background:#161b22;border:1px solid #30363d;" ++
  ascii "color:#c9d1d9;border-radius:6px;font:inherit\x7d" ++
  ascii ".meta\x7bcolor:#8b949e;font-size:.85rem\x7d.d\x7bcolor:#bc8cff\x7d" ++
  ascii ".c\x7bcolor:#3fb950\x7d.s\x7bcolor:#e3b341\x7d" ++
  ascii "li\x7bmargin:.9rem 0\x7d.hint\x7bcolor:#484f58;font-size:.8rem\x7d" ++
  ascii "</style></head><body>\n" ++
  ascii "<h1>Shadow SE</h1>\n"

def searchForm (query : Bytes) : Bytes :=
  ascii "<form method=\"get\" action=\"/\">\n" ++
  ascii "<input type=\"text\" name=\"q\" maxlength=\"256\" autofocus " ++
  ascii "placeholder=\"search the index&hellip;\" value=\"" ++
  escapeHtml query ++ ascii "\">\n" ++
  ascii "</form>\n"

/-- The line above the results. -/
def resultCount (query : Bytes) (count : Nat) : Bytes :=
  ascii "<p class=\"meta\">" ++ decimal count ++ ascii " result(s) for " ++
  ascii "<span class=\"s\">" ++ escapeHtml query ++ ascii "</span> &mdash; " ++
  ascii "no cookies, no logs, no trackers.</p>\n"

def badge (onion : Bool) : Bytes :=
  if onion then ascii "<span class=\"d\">[DARKWEB]</span>"
  else ascii "<span class=\"c\">[CLEARWEB]</span>"

def pageEnd : Bytes :=
  ascii "<p class=\"hint\">Use <code>search</code>/<code>crawl</code> in the terminal, " ++
  ascii "or crawl then <code>save</code> an encrypted snapshot and start " ++
  ascii "<code>shadow-se-web --load &lt;snapshot&gt;</code>.</p>\n" ++
  ascii "</body></html>\n"

section Page

variable {D : Type} [Double64 D]

/-- The loop body for one result. -/
def resultItem (r : ScoredDocument D) : Bytes :=
  ascii "<li>" ++ badge r.doc.isOnion ++ ascii " <strong>" ++
  escapeHtml r.doc.title ++ ascii "</strong><br>\n" ++
  ascii "<a href=\"" ++ escapeHtml r.doc.url ++ ascii "\">" ++
  escapeHtml r.doc.url ++ ascii "</a><br>\n" ++
  ascii "<span class=\"meta\">" ++ escapeHtml r.doc.snippet ++
  ascii "</span> <span class=\"s\">score " ++
  fixedText (Double64.toBinary64 r.score) ++ ascii "</span></li>\n"

def renderPage (title query : Bytes) (results : List (ScoredDocument D)) : Bytes :=
  pageStart title ++ searchForm query ++
  (if query.isEmpty then [] else resultCount query results.length) ++
  (if results.isEmpty && !query.isEmpty then ascii "<p class=\"meta\">No matches.</p>\n" else []) ++
  (if results.isEmpty then []
    else ascii "<ol>\n" ++ results.flatMap resultItem ++ ascii "</ol>\n") ++
  pageEnd

end Page

/-- The entities that are written, each with the byte it stands for. -/
def entities : List (UInt8 × Bytes) :=
  [(38, ascii "&amp;"), (60, ascii "&lt;"), (62, ascii "&gt;"), (34, ascii "&quot;"),
    (39, ascii "&#39;")]

/-- Replace the entities, from left to right, by the bytes they stand for. -/
def unescapeHtml : Bytes → Bytes
  | [] => []
  | c :: rest =>
    match entities.find? fun entity => entity.2.isPrefixOf (c :: rest) with
    | some (byte, entity) => byte :: unescapeHtml (rest.drop (entity.length - 1))
    | none => c :: unescapeHtml rest
termination_by s => s.length
decreasing_by
  · simp only [List.length_drop, List.length_cons]
    omega
  · simp

/-- A byte is written as its entity, which has no other ampersand than its first, or as
itself, when it is none of the five. -/
theorem escapeByte_cases (c : UInt8) :
    (∃ tail, (c, 38 :: tail) ∈ entities ∧ escapeByte c = 38 :: tail ∧ 38 ∉ tail) ∨
      escapeByte c = [c] ∧ c ≠ 38 ∧ c ≠ 60 ∧ c ≠ 62 ∧ c ≠ 34 ∧ c ≠ 39 := by
  unfold escapeByte
  split_ifs with amp lt gt quot apos
  · exact .inl ⟨ascii "amp;", by simp [amp, entities, ascii], rfl, by decide⟩
  · exact .inl ⟨ascii "lt;", by simp [lt, entities, ascii], rfl, by decide⟩
  · exact .inl ⟨ascii "gt;", by simp [gt, entities, ascii], rfl, by decide⟩
  · exact .inl ⟨ascii "quot;", by simp [quot, entities, ascii], rfl, by decide⟩
  · exact .inl ⟨ascii "#39;", by simp [apos, entities, ascii], rfl, by decide⟩
  · exact .inr ⟨rfl, amp, lt, gt, quot, apos⟩

/-- Nothing that is written can open or close a tag or an attribute value. -/
theorem not_mem_escapeHtml (s : Bytes) :
    60 ∉ escapeHtml s ∧ 62 ∉ escapeHtml s ∧ 34 ∉ escapeHtml s ∧ 39 ∉ escapeHtml s := by
  have clean : ∀ entity ∈ entities,
      60 ∉ entity.2 ∧ 62 ∉ entity.2 ∧ 34 ∉ entity.2 ∧ 39 ∉ entity.2 := by decide
  induction s with
  | nil => simp [escapeHtml]
  | cons c rest ih =>
    have split : escapeHtml (c :: rest) = escapeByte c ++ escapeHtml rest := rfl
    simp only [split, List.mem_append, not_or]
    rcases escapeByte_cases c with ⟨tail, listed, written, _⟩ | ⟨written, _, lt, gt, quot, apos⟩
    · obtain ⟨lt, gt, quot, apos⟩ := clean _ listed
      rw [written]
      exact ⟨⟨lt, ih.1⟩, ⟨gt, ih.2.1⟩, ⟨quot, ih.2.2.1⟩, ⟨apos, ih.2.2.2⟩⟩
    · simp only [written, List.mem_singleton]
      exact ⟨⟨lt.symm, ih.1⟩, ⟨gt.symm, ih.2.1⟩, ⟨quot.symm, ih.2.2.1⟩, ⟨apos.symm, ih.2.2.2⟩⟩

theorem entity_of_ampersand {s before rest : Bytes} (shape : escapeHtml s = before ++ 38 :: rest) :
    ∃ entity ∈ entities, entity.2 <+: 38 :: rest := by
  induction s generalizing before with
  | nil => simp [escapeHtml] at shape
  | cons c s ih =>
    have split : escapeByte c ++ escapeHtml s = before ++ 38 :: rest := shape
    rcases List.append_eq_append_iff.mp split with ⟨between, _, later⟩ | ⟨between, own, rest'⟩
    · exact ih later
    · cases between with
      | nil =>
        have later : escapeHtml s = [] ++ 38 :: rest := by simpa using rest'.symm
        exact ih later
      | cons first between =>
        obtain ⟨rfl, rest'⟩ := List.cons.inj rest'
        rcases escapeByte_cases c with ⟨tail, listed, written, single⟩ | ⟨written, other, _⟩
        · rw [written] at own
          cases before with
          | nil =>
            refine ⟨_, listed, ?_⟩
            rw [rest']
            exact own ▸ List.prefix_append _ _
          | cons _ before =>
            exact absurd ((List.cons.inj own).2 ▸ by simp) single
        · rw [written] at own
          have member : (38 : UInt8) ∈ [c] := own ▸ by simp
          exact absurd (List.mem_singleton.mp member).symm other

private theorem unescapeHtml_entity {c : UInt8} {tail : Bytes} (listed : (c, 38 :: tail) ∈ entities)
    (rest : Bytes) : unescapeHtml (38 :: tail ++ rest) = c :: unescapeHtml rest := by
  simp only [entities, ascii, List.mem_cons, Prod.mk.injEq, List.not_mem_nil, or_false] at listed
  rcases listed with ⟨rfl, same⟩ | ⟨rfl, same⟩ | ⟨rfl, same⟩ | ⟨rfl, same⟩ | ⟨rfl, same⟩
  all_goals
    obtain ⟨_, rfl⟩ := List.cons.inj same
    rw [List.cons_append, unescapeHtml]
    rfl

private theorem unescapeHtml_other {c : UInt8} (other : c ≠ 38) (rest : Bytes) :
    unescapeHtml (c :: rest) = c :: unescapeHtml rest := by
  have none : entities.find? (fun entity => entity.2.isPrefixOf (c :: rest)) = none := by
    simp [entities, ascii, Ne.symm other]
  rw [unescapeHtml, none]

theorem unescapeHtml_escapeHtml (s : Bytes) : unescapeHtml (escapeHtml s) = s := by
  induction s with
  | nil => simp [escapeHtml, unescapeHtml]
  | cons c rest ih =>
    have split : escapeHtml (c :: rest) = escapeByte c ++ escapeHtml rest := rfl
    rcases escapeByte_cases c with ⟨tail, listed, written, _⟩ | ⟨written, other, _⟩
    · rw [split, written, unescapeHtml_entity listed, ih]
    · rw [split, written, List.singleton_append, unescapeHtml_other other, ih]

/-- The characters that make tags and attribute values, in order. -/
def markup (s : Bytes) : Bytes :=
  s.filter fun c => c == 60 || c == 62 || c == 34

@[simp] theorem markup_append (s t : Bytes) : markup (s ++ t) = markup s ++ markup t :=
  List.filter_append s t

@[simp] theorem markup_nil : markup [] = [] :=
  rfl

theorem markup_eq_nil {s : Bytes} (lt : 60 ∉ s) (gt : 62 ∉ s) (quot : 34 ∉ s) : markup s = [] := by
  apply List.filter_eq_nil_iff.mpr
  intro c member
  simp only [Bool.or_eq_true, beq_iff_eq, not_or]
  exact ⟨⟨fun same => lt (same ▸ member), fun same => gt (same ▸ member)⟩,
    fun same => quot (same ▸ member)⟩

@[simp] theorem markup_escapeHtml (s : Bytes) : markup (escapeHtml s) = [] := by
  obtain ⟨lt, gt, quot, _⟩ := not_mem_escapeHtml s
  exact markup_eq_nil lt gt quot

@[simp] theorem markup_decimal (n : Nat) : markup (decimal n) = [] := by
  have digit (c : UInt8) (other : isdigit c = false) : c ∉ decimal n := by
    intro member
    rw [decimal_digits n c member] at other
    cases other
  exact markup_eq_nil (digit 60 rfl) (digit 62 rfl) (digit 34 rfl)

private theorem markup_padded (width n : Nat) : markup (padded width n) = [] := by
  have digit (c : UInt8) (other : isdigit c = false) : c ∉ padded width n := by
    intro member
    obtain ⟨i, _, rfl⟩ := List.mem_map.mp member
    rw [isdigit_digitByte (Nat.mod_lt _ (by decide))] at other
    cases other
  exact markup_eq_nil (digit 60 rfl) (digit 62 rfl) (digit 34 rfl)

@[simp] theorem markup_fixedText (x : Binary64) : markup (fixedText x) = [] := by
  cases x with
  | nan => rfl
  | infinity negative => cases negative <;> rfl
  | finite negative significand exponent canonical =>
    have sign : markup (if negative then ascii "-" else []) = [] := by cases negative <;> rfl
    have point : markup (ascii ".") = [] := rfl
    simp only [fixedText, markup_append, sign, point, markup_decimal, markup_padded,
      List.append_nil]

section Page

variable {D : Type} [Double64 D]

theorem markup_resultItem {r other : ScoredDocument D} (same : r.doc.isOnion = other.doc.isOnion) :
    markup (resultItem r) = markup (resultItem other) := by
  simp only [resultItem, same, markup_append, markup_escapeHtml, markup_fixedText]

theorem markup_resultItems {results others : List (ScoredDocument D)}
    (same : results.map (·.doc.isOnion) = others.map (·.doc.isOnion)) :
    markup (results.flatMap resultItem) = markup (others.flatMap resultItem) := by
  induction results generalizing others with
  | nil =>
    rw [List.map_nil] at same
    rw [List.map_eq_nil_iff.mp same.symm]
  | cons r rest ih =>
    cases others with
    | nil => cases same
    | cons other others =>
      obtain ⟨flag, flags⟩ := List.cons.inj same
      rw [List.flatMap_cons, List.flatMap_cons, markup_append, markup_append,
        markup_resultItem flag, ih flags]

omit [Double64 D] in
theorem isEmpty_eq_of_map {results others : List (ScoredDocument D)}
    (same : results.map (·.doc.isOnion) = others.map (·.doc.isOnion)) :
    results.isEmpty = others.isEmpty := by
  rw [← List.isEmpty_map (f := (·.doc.isOnion)), same, List.isEmpty_map]

theorem markup_pageStart (title other : Bytes) :
    markup (pageStart title) = markup (pageStart other) := by
  simp only [pageStart, markup_append, markup_escapeHtml]

theorem markup_searchForm (query other : Bytes) :
    markup (searchForm query) = markup (searchForm other) := by
  simp only [searchForm, markup_append, markup_escapeHtml]

theorem markup_resultCount (query other : Bytes) (count counted : Nat) :
    markup (resultCount query count) = markup (resultCount other counted) := by
  simp only [resultCount, markup_append, markup_escapeHtml, markup_decimal]

/-- Two pages with the same flags have the same markup, whatever strings they show. -/
theorem markup_renderPage {title otherTitle query otherQuery : Bytes}
    {results others : List (ScoredDocument D)} (asked : query.isEmpty = otherQuery.isEmpty)
    (same : results.map (·.doc.isOnion) = others.map (·.doc.isOnion)) :
    markup (renderPage title query results) = markup (renderPage otherTitle otherQuery others) := by
  simp only [renderPage, asked, isEmpty_eq_of_map same, markup_append, apply_ite markup,
    markup_resultItems same, markup_pageStart title otherTitle,
    markup_searchForm query otherQuery,
    markup_resultCount query otherQuery results.length others.length]

/-- Escaping is safe and loses nothing: no byte that makes markup is left, every
ampersand begins an entity, and replacing the entities gives the text back. -/
structure Escapes (s : Bytes) : Prop where
  plain : ∀ c ∈ escapeHtml s, c ≠ 60 ∧ c ≠ 62 ∧ c ≠ 34 ∧ c ≠ 39
  entity : ∀ before rest, escapeHtml s = before ++ 38 :: rest →
    ∃ entity ∈ entities, entity.2 <+: 38 :: rest
  restored : unescapeHtml (escapeHtml s) = s

theorem escapes (s : Bytes) : Escapes s where
  plain := by
    obtain ⟨lt, gt, quot, apos⟩ := not_mem_escapeHtml s
    rintro c member
    exact ⟨fun same => lt (same ▸ member), fun same => gt (same ▸ member),
      fun same => quot (same ▸ member), fun same => apos (same ▸ member)⟩
  entity := fun _ _ shape => entity_of_ampersand shape
  restored := unescapeHtml_escapeHtml s

/-- The result page is safe against injection: every string is escaped, and the markup
of the page is a function of whether there is a query and of the onion flags of its
results. -/
theorem renderPage_safe (D : Type) [Double64 D] : (∀ s, Escapes s) ∧
    ∃ shape : Bool → List Bool → Bytes, ∀ title query (results : List (ScoredDocument D)),
      markup (renderPage title query results) =
        shape query.isEmpty (results.map (·.doc.isOnion)) := by
  refine ⟨escapes, fun blank flags => markup (renderPage [] (if blank then [] else [0])
    (flags.map fun onion => (⟨{ source := if onion then .onion else .clearWeb }, 0.0⟩ :
      ScoredDocument D))), ?_⟩
  intro title query results
  apply markup_renderPage
  · cases query <;> rfl
  · rw [List.map_map, List.map_map]
    refine List.map_congr_left fun r _ => ?_
    cases source : r.doc.source <;> simp [Document.isOnion, source]

end Page

end ShadowSe.WebServer
