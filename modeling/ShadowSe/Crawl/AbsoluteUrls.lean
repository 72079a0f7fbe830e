import ShadowSe.Crawl.Confinement
import ShadowSe.Crawl.UrlParts

namespace ShadowSe

/-- `scheme://rest` with "http" or "https" in any letter case. -/
structure Absolute (url scheme rest : Bytes) : Prop where
  shape : url = scheme ++ (ascii "://" ++ rest)
  web : lowerAscii scheme = ascii "http" ∨ lowerAscii scheme = ascii "https"

/-- The text up to the first '/', '?' or '#'. -/
def authority (rest : Bytes) : Bytes :=
  rest.takeWhile fun c => !List.contains (ascii "/?#") c

/-- Normalisation is final, and leaves the host of an absolute URL as it is. -/
def KeepsTarget (input : Bytes) : Prop :=
  normalizeUrl (normalizeUrl input) = normalizeUrl input ∧
    ∀ scheme rest, Absolute (trimWs input) scheme rest →
      domainOf (normalizeUrl input) = domainOf (trimWs input)

private theorem letter_clean : ∀ c : UInt8, tolower c ∈ ascii "https" →
    c ≠ 58 ∧ (!List.contains (ascii "/?#") c) = true := by
  apply forall_byte
  decide +kernel

namespace Absolute

variable {url scheme rest : Bytes} (absolute : Absolute url scheme rest)
include absolute

theorem clean : ∀ c ∈ scheme, c ≠ 58 ∧ (!List.contains (ascii "/?#") c) = true := by
  intro c member
  have lower : tolower c ∈ lowerAscii scheme := List.mem_map_of_mem member
  have within : ascii "http" ⊆ ascii "https" := by decide
  refine letter_clean c ?_
  rcases absolute.web with same | same
  · exact within (same ▸ lower)
  · exact same ▸ lower

theorem domainOf_eq : domainOf url = authority rest := by
  have outside : ¬ ascii "://" <:+: scheme := fun inside =>
    (absolute.clean 58 (inside.mem (by decide))).1 rfl
  have found : url.find (ascii "://") 0 = some scheme.length := by
    rw [absolute.shape]
    exact Bytes.find_append_self (by decide) outside rest
  have past : afterScheme url = rest := by
    rw [afterScheme_of_find found, absolute.shape, Bytes.drop_append_add]
    rfl
  rw [domainOf_eq_hostText found, hostText, past, authority]

theorem scheme_eq : url.takeWhile (· != 58) = scheme := by
  rw [absolute.shape]
  exact Bytes.takeWhile_ne (fun member => (absolute.clean 58 member).1 rfl) (ascii "//" ++ rest)

theorem httpUrl_iff_lower : HttpUrl url ↔ scheme = lowerAscii scheme := by
  rw [httpUrl_iff]
  constructor
  · rintro ⟨more, same | same⟩
    · have lower : scheme = ascii "http" := by
        rw [← absolute.scheme_eq, same]
        rfl
      rw [lower]
      rfl
    · have lower : scheme = ascii "https" := by
        rw [← absolute.scheme_eq, same]
        rfl
      rw [lower]
      rfl
  · intro lower
    rw [absolute.shape, lower]
    rcases absolute.web with same | same
    · rw [same]
      exact ⟨rest, .inl rfl⟩
    · rw [same]
      exact ⟨rest, .inr rfl⟩

/-- Behind another scheme the URL is one whose host is the scheme and its ':'. -/
theorem domainOf_prepended : domainOf (ascii "http://" ++ url) = scheme ++ [58] := by
  have outer : Absolute (ascii "http://" ++ url) (ascii "http") url := ⟨rfl, .inl rfl⟩
  rw [outer.domainOf_eq, authority, absolute.shape,
    List.takeWhile_append_of_pos fun c member => (absolute.clean c member).2]
  rfl

end Absolute

/-- The host is kept where the scheme is in lower case, and where it happens to be the scheme. -/
theorem keepsTarget_iff (input : Bytes) : KeepsTarget input ↔
    ∀ scheme rest, Absolute (trimWs input) scheme rest →
      scheme = lowerAscii scheme ∨ authority rest = scheme ++ [58] := by
  refine (and_iff_right (normalizeUrl_normalizeUrl input)).trans ?_
  refine forall_congr' fun scheme => forall_congr' fun rest => forall_congr' fun absolute => ?_
  have nonempty : trimWs input ≠ [] := by
    rw [absolute.shape]
    simp [ascii]
  rw [← absolute.httpUrl_iff_lower, normalizeUrl_eq nonempty]
  by_cases http : HttpUrl (trimWs input)
  · simp [http]
  · rw [if_neg http, absolute.domainOf_prepended, absolute.domainOf_eq, or_iff_right http, eq_comm]

theorem not_keepsTarget_capital : ¬ KeepsTarget (ascii "HTTP://Example.com/") := by
  intro kept
  have same := kept.2 (ascii "HTTP") (ascii "Example.com/") ⟨by decide +kernel, .inl (by decide)⟩
  revert same
  decide +kernel

end ShadowSe
