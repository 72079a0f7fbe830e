import Mathlib.Data.List.TakeWhile
import ShadowSe.Crawl.Crawler
import ShadowSe.Tor.ProxyPool

namespace ShadowSe

/-- The scheme of a URL and its "://"; empty without one. -/
def schemeText (url : Bytes) : Bytes :=
  url.take (((url.find (ascii "://") 0).map (· + 3)).getD 0)

/-- What a URL says behind "://"; all of it without one. -/
def afterScheme (url : Bytes) : Bytes :=
  url.drop (((url.find (ascii "://") 0).map (· + 3)).getD 0)

/-- The host of a URL as it is written: up to the first '/', '?' or '#'. -/
def hostText (url : Bytes) : Bytes :=
  (afterScheme url).takeWhile fun c => !List.contains (ascii "/?#") c

/-- What follows the host. -/
def tailText (url : Bytes) : Bytes :=
  (afterScheme url).dropWhile fun c => !List.contains (ascii "/?#") c

/-- The path of a URL: what follows the host, up to the first '?' or '#'. -/
def pathText (url : Bytes) : Bytes :=
  (tailText url).takeWhile fun c => !List.contains (ascii "?#") c

/-- Which of the letters are capitals. -/
def capitals (s : Bytes) : List Bool :=
  s.map fun c => 65 ≤ c && c ≤ 90

private theorem slash_iff : ∀ c : UInt8, (!List.contains (ascii "/") c) = true ↔ c ≠ 47 := by
  apply forall_byte
  decide +kernel

private theorem delimiter_iff :
    ∀ c : UInt8, (!List.contains (ascii "/?#") c) = true ↔
      c ≠ 47 ∧ (!List.contains (ascii "?#") c) = true := by
  apply forall_byte
  decide +kernel

theorem hostText_append_tailText (url : Bytes) : hostText url ++ tailText url = afterScheme url :=
  List.takeWhile_append_dropWhile

section

variable {url : Bytes} {scheme : Nat} (found : url.find (ascii "://") 0 = some scheme)

include found

theorem schemeText_of_find : schemeText url = url.take (scheme + 3) := by
  rw [schemeText, found]
  rfl

theorem afterScheme_of_find : afterScheme url = url.drop (scheme + 3) := by
  rw [afterScheme, found]
  rfl

theorem domainOf_eq_hostText : domainOf url = hostText url := by
  simp only [domainOf, found]
  rw [Bytes.substr_findFirstOf, hostText, afterScheme_of_find found]

/-- The origin is the scheme and the host in lower case. -/
theorem originOf_eq_hostText (named : hostText url ≠ []) :
    RobotsTxt.originOf url = schemeText url ++ lowerAscii (hostText url) := by
  simp only [RobotsTxt.originOf, found]
  rw [Bytes.substr_findFirstOf, ← afterScheme_of_find found, schemeText_of_find found]
  exact if_neg named

theorem splitBase_host :
    (splitBase url).2.1 = (afterScheme url).takeWhile fun c => !List.contains (ascii "/") c := by
  have host := Bytes.substr_findFirstOf url (ascii "/") (scheme + 3)
  rw [← afterScheme_of_find found] at host
  rw [← host]
  simp only [splitBase, found]
  cases url.findFirstOf (ascii "/") (scheme + 3) with
  | none => rfl
  | some slash => rfl

theorem pathOf_eq :
    RobotsTxt.pathOf url =
      if (afterScheme url).dropWhile (fun c => !List.contains (ascii "/") c) = [] then ascii "/"
      else ((afterScheme url).dropWhile fun c => !List.contains (ascii "/") c).takeWhile
        fun c => !List.contains (ascii "?#") c := by
  simp only [RobotsTxt.pathOf, found]
  rw [afterScheme_of_find found]
  cases slash : url.findFirstOf (ascii "/") (scheme + 3) with
  | none =>
    rw [Bytes.findFirstOf_eq] at slash
    split at slash
    · rename_i none
      rw [if_pos none]
    · cases slash
  | some slash =>
    have past := Bytes.drop_findFirstOf slash
    rw [Bytes.findFirstOf_eq] at slash
    split at slash
    · cases slash
    · rename_i some
      rw [if_neg some, ← past]
      exact Bytes.substr_findFirstOf ..

end

/-- What follows the host is a path or nothing. -/
def HasPlainTail (url : Bytes) : Prop :=
  tailText url = [] ∨ (tailText url).head? = some 47

instance (url : Bytes) : Decidable (HasPlainTail url) :=
  inferInstanceAs (Decidable (_ ∨ _))

/-- There is no '/' in a host, so the first one after the scheme is in the tail. -/
theorem split_at_slash (url : Bytes) :
    ((afterScheme url).takeWhile fun c => !List.contains (ascii "/") c) =
        hostText url ++ (tailText url).takeWhile (fun c => !List.contains (ascii "/") c) ∧
      ((afterScheme url).dropWhile fun c => !List.contains (ascii "/") c) =
        (tailText url).dropWhile fun c => !List.contains (ascii "/") c := by
  have plain : ∀ c ∈ hostText url, (!List.contains (ascii "/") c) = true := by
    intro c member
    have outside : (!List.contains (ascii "/?#") c) = true :=
      List.mem_takeWhile_imp (p := fun c => !List.contains (ascii "/?#") c) member
    exact (slash_iff c).mpr ((delimiter_iff c).mp outside).1
  rw [← hostText_append_tailText, List.takeWhile_append_of_pos plain,
    List.dropWhile_append_of_pos plain]
  exact ⟨rfl, rfl⟩

/-- For every URL with a host, all four functions find that host and the path behind it exactly
when the host is followed by a path or by nothing. -/
theorem url_parts_agree_iff (url : Bytes) (separated : (url.find (ascii "://") 0).isSome = true)
    (named : hostText url ≠ []) :
    (lowerAscii (domainOf url) = lowerAscii (hostText url) ∧
      RobotsTxt.originOf url = schemeText url ++ lowerAscii (hostText url) ∧
      lowerAscii (splitBase url).2.1 = lowerAscii (hostText url) ∧
      RobotsTxt.pathOf url = if pathText url = [] then ascii "/" else pathText url) ↔
    HasPlainTail url := by
  obtain ⟨scheme, found⟩ := Option.isSome_iff_exists.mp separated
  obtain ⟨host, path⟩ := split_at_slash url
  rw [domainOf_eq_hostText found, originOf_eq_hostText found named, splitBase_host found,
    pathOf_eq found, host, path]
  constructor
  · rintro ⟨_, _, same, _⟩
    -- A longer host differs in more than letter case.
    have sizes := congrArg List.length same
    simp only [length_lowerAscii, List.length_append] at sizes
    have empty : ((tailText url).takeWhile fun c => !List.contains (ascii "/") c) = [] :=
      List.length_eq_zero_iff.mp (by omega)
    unfold HasPlainTail
    cases tail : tailText url with
    | nil => exact .inl rfl
    | cons c rest =>
      rw [tail, List.takeWhile_eq_nil_iff] at empty
      have slash : ¬ c ≠ 47 := fun other =>
        empty (Nat.succ_pos rest.length) ((slash_iff c).mpr other)
      exact .inr (congrArg some (not_not.mp slash))
  · intro plain
    have empty : ((tailText url).takeWhile fun c => !List.contains (ascii "/") c) = [] ∧
        ((tailText url).dropWhile fun c => !List.contains (ascii "/") c) = tailText url := by
      unfold HasPlainTail at plain
      cases tail : tailText url with
      | nil => exact ⟨rfl, rfl⟩
      | cons c rest =>
        rw [tail] at plain
        obtain rfl : c = 47 := by simpa using plain
        exact ⟨rfl, rfl⟩
    rw [empty.1, empty.2, List.append_nil]
    refine ⟨rfl, rfl, rfl, ?_⟩
    rw [pathText]
    unfold HasPlainTail at plain
    cases tail : tailText url with
    | nil => rfl
    | cons c rest =>
      rw [tail] at plain
      obtain rfl : c = 47 := by simpa using plain
      rw [if_neg (by simp), if_neg]
      rw [List.takeWhile_cons_of_pos (by decide)]
      exact List.cons_ne_nil _ _

theorem url_parts_agree_whole :
    RobotsTxt.pathOf (ascii "http://H.example:80/a/b?q=/c") = ascii "/a/b" ∧
      (splitBase (ascii "http://H.example:80/a/b?q=/c")).2.1 = ascii "H.example:80" := by
  have agree := (url_parts_agree_iff (ascii "http://H.example:80/a/b?q=/c") (by decide)
    (by decide)).mpr (by decide)
  exact ⟨agree.2.2.2, by decide⟩

/-- Without a path the robots rules are asked about a piece of the query, and links are
resolved against a host that does not exist. -/
theorem url_parts_disagree :
    hostText (ascii "http://h?next=/a") = ascii "h" ∧
      pathText (ascii "http://h?next=/a") = [] ∧
      (splitBase (ascii "http://h?next=/a")).2.1 = ascii "h?next=" ∧
      RobotsTxt.pathOf (ascii "http://h?next=/a") = ascii "/a" := by
  decide

theorem find_originOf {url : Bytes} {scheme : Nat} (found : url.find (ascii "://") 0 = some scheme)
    (named : hostText url ≠ []) :
    (RobotsTxt.originOf url).find (ascii "://") 0 = some scheme := by
  rw [originOf_eq_hostText found named, schemeText_of_find found]
  exact Bytes.find_take_append found _

theorem length_schemeText {url : Bytes} {scheme : Nat}
    (found : url.find (ascii "://") 0 = some scheme) : (schemeText url).length = scheme + 3 := by
  have located := found
  rw [Bytes.find, if_pos (Nat.zero_le _), List.drop_zero, ← Nat.zero_add scheme,
    Bytes.scan_eq_some_iff, List.isPrefixOf_iff_prefix] at located
  have fits := located.2.1.length_le
  have size : (ascii "://").length = 3 := rfl
  rw [List.length_drop, size] at fits
  rw [schemeText_of_find found, List.length_take]
  omega

/-- A URL with an origin has a scheme and a host. -/
theorem of_originOf {url : Bytes} (nonempty : RobotsTxt.originOf url ≠ []) :
    ∃ scheme, url.find (ascii "://") 0 = some scheme ∧ hostText url ≠ [] := by
  cases found : url.find (ascii "://") 0 with
  | none => simp [RobotsTxt.originOf, found] at nonempty
  | some scheme =>
    refine ⟨scheme, rfl, fun empty => nonempty ?_⟩
    rw [hostText, afterScheme_of_find found, ← Bytes.substr_findFirstOf] at empty
    simp only [RobotsTxt.originOf, found]
    exact if_pos empty

theorem lowerAscii_hostText_eq {u v : Bytes} (same : RobotsTxt.originOf u = RobotsTxt.originOf v)
    (nonempty : RobotsTxt.originOf u ≠ []) :
    lowerAscii (hostText u) = lowerAscii (hostText v) := by
  obtain ⟨scheme, found, named⟩ := of_originOf nonempty
  obtain ⟨scheme', found', named'⟩ := of_originOf (same ▸ nonempty)
  have schemes : scheme = scheme' := by
    have here := find_originOf found named
    rw [same, find_originOf found' named'] at here
    exact (Option.some.inj here).symm
  rw [originOf_eq_hostText found named, originOf_eq_hostText found' named'] at same
  have sizes : (schemeText u).length = (schemeText v).length := by
    rw [length_schemeText found, length_schemeText found', schemes]
  exact (List.append_inj same sizes).2

theorem eq_of_tolower_eq {c d : UInt8} (lowered : tolower c = tolower d)
    (cased : (65 ≤ c && c ≤ 90) = (65 ≤ d && d ≤ 90)) : c = d := by
  unfold tolower at lowered
  rw [cased] at lowered
  split at lowered
  · simpa using lowered
  · exact lowered

theorem eq_of_lowerAscii_eq {s t : Bytes} (lowered : lowerAscii s = lowerAscii t)
    (cased : capitals s = capitals t) : s = t := by
  induction s generalizing t with
  | nil => exact (List.map_eq_nil_iff.mp lowered.symm).symm
  | cons c rest ih =>
    cases t with
    | nil => cases lowered
    | cons d others =>
      obtain ⟨head, tail⟩ := List.cons.inj lowered
      obtain ⟨head', tail'⟩ := List.cons.inj cased
      rw [eq_of_tolower_eq head head', ih tail tail']

/-- The circuit of a domain is named after the host as it is written. -/
theorem circuitUsernameFor_perDomain (url : Bytes) :
    circuitUsernameFor url .perDomain =
      ascii "s-" ++ hex16 ((hostText url).foldl fnv1aStep 1469598103934665603) := by
  rw [hostText, afterScheme, ← Bytes.substr_findFirstOf]
  simp only [circuitUsernameFor, reduceCtorEq, ↓reduceIte]
  cases url.find (ascii "://") 0 with
  | none =>
    simp only [Option.map_none, Option.getD_none]
    cases url.findFirstOf (ascii "/?#") 0 with
    | none => rfl
    | some stop => rfl
  | some scheme =>
    simp only [Option.map_some, Option.getD_some]
    cases url.findFirstOf (ascii "/?#") (scheme + 3) with
    | none => rfl
    | some stop => rfl

/-- Two URLs of one origin share the politeness key and the circuit exactly when their hosts
have capitals in the same places. -/
theorem domain_keys_agree_iff (u v : Bytes)
    (same : RobotsTxt.originOf u = RobotsTxt.originOf v) (nonempty : RobotsTxt.originOf u ≠ []) :
    (domainOf u = domainOf v ∧
      circuitUsernameFor u .perDomain = circuitUsernameFor v .perDomain) ↔
    capitals (hostText u) = capitals (hostText v) := by
  have lowered := lowerAscii_hostText_eq same nonempty
  obtain ⟨scheme, found, _⟩ := of_originOf nonempty
  obtain ⟨scheme', found', _⟩ := of_originOf (same ▸ nonempty)
  rw [domainOf_eq_hostText found, domainOf_eq_hostText found', circuitUsernameFor_perDomain,
    circuitUsernameFor_perDomain]
  constructor
  · rintro ⟨host, _⟩
    rw [host]
  · intro cased
    have host := eq_of_lowerAscii_eq lowered cased
    exact ⟨host, by rw [host]⟩

theorem domain_keys_agree_pages :
    domainOf (ascii "http://h/a") = domainOf (ascii "http://h?b") :=
  ((domain_keys_agree_iff (ascii "http://h/a") (ascii "http://h?b") (by decide)
    (by decide)).mpr (by decide)).1

theorem domain_keys_disagree :
    RobotsTxt.originOf (ascii "http://Example.org/") =
        RobotsTxt.originOf (ascii "http://example.org/") ∧
      RobotsTxt.originOf (ascii "http://Example.org/") ≠ [] ∧
      domainOf (ascii "http://Example.org/") ≠ domainOf (ascii "http://example.org/") ∧
      circuitUsernameFor (ascii "http://Example.org/") .perDomain ≠
        circuitUsernameFor (ascii "http://example.org/") .perDomain := by
  decide +kernel

end ShadowSe
