import Mathlib.Data.List.Infix
import ShadowSe.Crawl.HrefLookup

namespace ShadowSe

/-- A base URL that is followed: its scheme, its host, and a path or nothing. -/
structure Base where
  scheme : Bytes
  host : Bytes
  path : Bytes
  web : scheme = ascii "http" ∨ scheme = ascii "https"
  named : 47 ∉ host
  rooted : ∀ c ∈ path.head?, c = 47

namespace Base

variable (base : Base)

def origin : Bytes :=
  base.scheme ++ (ascii "://" ++ base.host)

def url : Bytes :=
  base.scheme ++ (ascii "://" ++ (base.host ++ base.path))

theorem splitBase_url : splitBase base.url =
    (base.scheme, base.host, if base.path = [] then ascii "/" else base.path) := by
  have outside : ¬ ascii "://" <:+: base.scheme := by
    rcases base.web with same | same
    · rw [same]
      decide
    · rw [same]
      decide
  have found : base.url.find (ascii "://") 0 = some base.scheme.length :=
    Bytes.find_append_self (by decide) outside (base.host ++ base.path)
  have past : base.url.drop (base.scheme.length + 3) = base.host ++ base.path := by
    rw [url, Bytes.drop_append_add]
    rfl
  have scheme : base.url.take base.scheme.length = base.scheme := List.take_left
  have inside : ∀ c ∈ base.host, (!List.contains (ascii "/") c) = true := fun c member => by
    have other : c ≠ 47 := fun same => base.named (same ▸ member)
    simp [ascii, other]
  have slash := Bytes.findFirstOf_eq base.url (ascii "/") (base.scheme.length + 3)
  rw [past, List.dropWhile_append_of_pos inside, List.takeWhile_append_of_pos inside] at slash
  rw [splitBase, found]
  dsimp only
  cases path : base.path with
  | nil =>
    rw [path] at slash past
    rw [slash]
    simp [Bytes.substr, past, scheme]
  | cons c rest =>
    have rooted := base.rooted c (by rw [path]; rfl)
    subst rooted
    rw [path] at slash past
    rw [slash]
    simp [Bytes.substr, ← List.drop_drop, past, scheme, ascii]

theorem exists_directory : ∃ dir, ∀ raw, resolved base.url raw =
    if resolveLink base.scheme base.host (47 :: dir) raw = [] then []
    else [resolveLink base.scheme base.host (47 :: dir) raw] := by
  have web : ¬ (base.scheme ≠ ascii "http" ∧ base.scheme ≠ ascii "https") := fun other =>
    base.web.elim other.1 other.2
  obtain ⟨rest, path⟩ : ∃ rest, (if base.path = [] then ascii "/" else base.path) = 47 :: rest := by
    cases path : base.path with
    | nil => exact ⟨[], rfl⟩
    | cons c rest =>
      have rooted := base.rooted c (by rw [path]; rfl)
      exact ⟨rest, by rw [rooted]; rfl⟩
  have split := base.splitBase_url
  rw [path] at split
  cases last : Bytes.rfind (47 :: rest) 47 with
  | none =>
    refine ⟨[], fun raw => ?_⟩
    rw [resolved, split]
    dsimp only
    rw [if_neg web, last]
    rfl
  | some lastSlash =>
    refine ⟨rest.take lastSlash, fun raw => ?_⟩
    rw [resolved, split]
    dsimp only
    rw [if_neg web, last]
    rfl

end Base

/-- A relative reference with no host of its own: a ':' stands only behind a '/', '?' or '#'. -/
def IsRelative (raw : Bytes) : Prop :=
  raw ≠ [] ∧ ¬ ascii "//" <+: raw ∧ 58 ∉ raw.takeWhile fun c => !List.elem c (ascii "/?#")

instance (raw : Bytes) : Decidable (IsRelative raw) :=
  inferInstanceAs (Decidable (_ ∧ _))

theorem IsRelative.resolveLink_eq {raw : Bytes} (relative : IsRelative raw)
    (scheme host dir : Bytes) : resolveLink scheme host dir raw =
      if 58 ∈ raw then []
      else if raw.head? = some 47 then scheme ++ ascii "://" ++ host ++ raw
      else scheme ++ ascii "://" ++ host ++ dir ++ raw := by
  obtain ⟨nonempty, local', schemeless⟩ := relative
  have http : raw.startsWith (ascii "http://") = false := by
    rw [Bytes.startsWith, Bool.eq_false_iff, ne_eq, List.isPrefixOf_iff_prefix]
    rintro ⟨t, rfl⟩
    exact schemeless (by simp [ascii])
  have https : raw.startsWith (ascii "https://") = false := by
    rw [Bytes.startsWith, Bool.eq_false_iff, ne_eq, List.isPrefixOf_iff_prefix]
    rintro ⟨t, rfl⟩
    exact schemeless (by simp [ascii])
  have slashes : raw.startsWith (ascii "//") = false := by
    rwa [Bytes.startsWith, Bool.eq_false_iff, ne_eq, List.isPrefixOf_iff_prefix]
  have colon : raw.contains (ascii ":") = true ↔ 58 ∈ raw := by
    rw [Bytes.contains_iff_isInfix]
    exact List.singleton_infix_iff _ _
  cases raw with
  | nil => exact absurd rfl nonempty
  | cons first rest =>
    simp only [resolveLink, http, https, slashes, colon, Bool.or_false, Bool.false_eq_true,
      ↓reduceIte, List.head?_cons, Option.some.injEq]

theorem Base.resolved_relative (base : Base) {raw : Bytes} (relative : IsRelative raw) :
    (∃ w, resolved base.url raw = [base.origin ++ 47 :: w]) ↔ 58 ∉ raw := by
  obtain ⟨dir, link⟩ := base.exists_directory
  rw [link, relative.resolveLink_eq]
  by_cases colon : 58 ∈ raw
  · simp [colon]
  · refine iff_of_true ?_ colon
    rw [if_neg colon]
    by_cases rooted : raw.head? = some 47
    · obtain ⟨w, rfl⟩ := List.head?_eq_some_iff.mp rooted
      exact ⟨w, by simp [origin]⟩
    · exact ⟨dir ++ raw, by simp [rooted, origin]⟩

private theorem space_not_mem : ∀ c : UInt8, isspace c = true → tolower c ∉ ascii "href=" := by
  apply forall_byte
  decide +kernel

/-- A tag from its "<a " to its '>', around an attribute href="value" that a space precedes. -/
structure QuotedLink where
  before : Bytes
  name : Bytes
  value : Bytes
  after : Bytes
  opens : ascii "<a " <+: lowerAscii before
  spaced : before.getLast?.any isspace = true
  named : lowerAscii name = ascii "href"
  quoted : 34 ∉ value
  inside : 62 ∉ before ++ (value ++ after)

namespace QuotedLink

variable (link : QuotedLink)

/-- The attribute and what follows it. -/
def tail : Bytes :=
  link.name ++ 61 :: 34 :: (link.value ++ 34 :: link.after)

def tag : Bytes :=
  link.before ++ link.tail

def html : Bytes :=
  link.tag ++ [62]

/-- The value also stands behind an earlier "href=", between like bytes. -/
def ReadsAlike : Prop :=
  ∃ y, BehindHref link.before y ∧ Bracketed link.value (y ++ link.tail)

/-- The value is read, and becomes one link with the scheme and host of the base. -/
def Yields (base : Base) : Prop :=
  rawHrefs link.html = [link.value] ∧
    ∃ w, htmlExtractLinks link.html base.url = [base.origin ++ 47 :: w]

theorem afterHref_tag : afterHref link.tag =
    ((afterHref link.before).map (· ++ link.tail)).or
      (some (34 :: (link.value ++ 34 :: link.after))) := by
  have spaced := link.spaced
  cases last : link.before.getLast? with
  | none =>
    rw [last] at spaced
    cases spaced
  | some c =>
    rw [last] at spaced
    obtain ⟨w, split⟩ := List.getLast?_eq_some_iff.mp last
    have absent := space_not_mem c spaced
    have own : afterHref link.tail = some (34 :: (link.value ++ 34 :: link.after)) :=
      afterHref_named link.named _
    have first : afterHref link.before = (afterHref w).map (· ++ [c]) := by
      rw [split, afterHref_append_cons absent, afterHref_nil, Option.or_none]
    have whole : link.tag = w ++ c :: link.tail := by simp [tag, split]
    rw [whole, afterHref_append_cons absent, own, first, Option.map_map]
    congr 2
    funext y
    simp

theorem rawHref_tag_iff : rawHref link.tag = some link.value ↔
    ¬ ascii "href=" <:+: lowerAscii link.before ∨ link.ReadsAlike := by
  rw [rawHref_eq, afterHref_tag]
  cases behind : afterHref link.before with
  | none =>
    have read : quotedText (34 :: (link.value ++ 34 :: link.after)) = link.value :=
      quotedText_eq_iff.mpr (.inl ⟨34, link.after, rfl, link.quoted⟩)
    exact iff_of_true (congrArg some read) (.inl (afterHref_eq_none_iff.mp behind))
  | some y =>
    have decoy : ¬ ¬ ascii "href=" <:+: lowerAscii link.before := fun clean => by
      rw [afterHref_eq_none_iff.mpr clean] at behind
      cases behind
    rw [or_iff_right decoy, Option.map_some, Option.some_or, Option.map_some, Option.some.injEq,
      quotedText_eq_iff]
    constructor
    · exact fun read => ⟨y, afterHref_eq_some_iff.mp behind, read⟩
    · rintro ⟨y', behind', read⟩
      cases behind.symm.trans (afterHref_eq_some_iff.mpr behind')
      exact read

theorem opens_tag : ascii "<a " <+: lowerAscii link.tag := by
  rw [tag, lowerAscii_append]
  exact link.opens.trans (List.prefix_append _ _)

theorem gt_not_mem_tag : 62 ∉ link.tag := by
  have name : 62 ∉ link.name := by
    intro member
    have lowered : tolower 62 ∈ lowerAscii link.name := List.mem_map_of_mem member
    rw [link.named] at lowered
    exact absurd lowered (by decide)
  have inside := link.inside
  simp only [List.mem_append, not_or] at inside
  simp [tag, tail, name, inside]

theorem htmlExtractLinks_html {text : Bytes} (closes : ClosesAnchors text) (rest baseUrl : Bytes) :
    htmlExtractLinks (text ++ (link.html ++ rest)) baseUrl = htmlExtractLinks text baseUrl ++
      (htmlExtractLinks link.html baseUrl ++ htmlExtractLinks rest baseUrl) := by
  have page (s : Bytes) : link.html ++ s = link.tag ++ 62 :: s := by simp [html]
  have alone := rawHrefs_tag (by decide : ¬ ascii "<a " <:+: lowerAscii []) link.opens_tag
    link.gt_not_mem_tag []
  rw [← page, List.nil_append, List.append_nil] at alone
  simp only [htmlExtractLinks_eq]
  rw [page, rawHrefs_append_tag closes link.opens_tag link.gt_not_mem_tag, alone,
    List.flatMap_append, List.flatMap_append]
  simp [rawHrefs, hrefLoop]

theorem rawHrefs_html : rawHrefs link.html = (rawHref link.tag).toList := by
  have page : [] ++ (link.tag ++ 62 :: []) = link.html := rfl
  have nothing : rawHrefs [] = [] := rfl
  rw [← page, rawHrefs_tag (by decide) link.opens_tag link.gt_not_mem_tag, nothing, List.append_nil]

end QuotedLink

/-- A relative link is extracted, on whatever page, exactly when there is no ':' in it and no
"href=" stands before it in its tag, or what stands behind that reads alike. -/
theorem relative_link_iff (link : QuotedLink) (relative : IsRelative link.value) (base : Base)
    {text : Bytes} (closes : ClosesAnchors text) (rest : Bytes) :
    htmlExtractLinks (text ++ (link.html ++ rest)) base.url = htmlExtractLinks text base.url ++
        (htmlExtractLinks link.html base.url ++ htmlExtractLinks rest base.url) ∧
      (link.Yields base ↔
        58 ∉ link.value ∧ (¬ ascii "href=" <:+: lowerAscii link.before ∨ link.ReadsAlike)) := by
  refine ⟨link.htmlExtractLinks_html closes rest base.url, ?_⟩
  have read : rawHrefs link.html = [link.value] ↔ rawHref link.tag = some link.value := by
    rw [link.rawHrefs_html]
    cases rawHref link.tag with
    | none => simp
    | some raw => simp
  rw [QuotedLink.Yields, read, ← link.rawHref_tag_iff, and_comm]
  refine and_congr_left fun own => ?_
  rw [htmlExtractLinks_eq, read.mpr own, List.flatMap_singleton]
  exact base.resolved_relative relative

def rootBase : Base where
  scheme := ascii "http"
  host := ascii "base.example"
  path := ascii "/root/page.html"
  web := by decide
  named := by decide
  rooted := by decide

def docsLink : QuotedLink where
  before := ascii "<A class=x "
  name := ascii "HREF"
  value := ascii "docs/b?t=1"
  after := []
  opens := by decide
  spaced := by decide
  named := by decide
  quoted := by decide
  inside := by decide

theorem relative_link_docs : docsLink.Yields rootBase :=
  (relative_link_iff docsLink (by decide) rootBase
    (closesAnchors_of_plain (by decide : ¬ ascii "<a " <:+: lowerAscii [])) []).2.mpr
      ⟨by decide, .inl (by decide)⟩

def talkLink : QuotedLink where
  before := ascii "<a "
  name := ascii "href"
  value := ascii "/wiki/Talk:Main"
  after := []
  opens := by decide
  spaced := by decide
  named := by decide
  quoted := by decide
  inside := by decide

theorem relative_link_dropped :
    talkLink.html = ascii "<a href=\"/wiki/Talk:Main\">" ∧ IsRelative talkLink.value ∧
      rootBase.url = ascii "http://base.example/root/page.html" ∧
      htmlExtractLinks talkLink.html rootBase.url = [] := by
  decide

end ShadowSe
