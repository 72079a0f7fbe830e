import ShadowSe.Net.CurlFetcher

namespace ShadowSe

/-- The host of a URL: what stands before the path, without user and port. -/
def hostOf (url : Bytes) : Bytes :=
  let start := match url.find (ascii "://") 0 with
    | none => 0
    | some scheme => scheme + 3
  let authority := url.substr start ((url.findFirstOf (ascii "/?#") start).map (· - start))
  let host := match authority.rfind 64 with
    | none => authority
    | some user => authority.drop (user + 1)
  host.substr 0 (host.findFirstOf (ascii ":") 0)

/-- The host ends in `.onion`, in any case. -/
def hasOnionHost (url : Bytes) : Bool :=
  (ascii ".onion").isSuffixOf (lowerAscii (hostOf url))

namespace CurlFetcher

/-- The transfer is told to go through a SOCKS proxy. -/
def Transfer.Proxied (transfer : Transfer) : Prop :=
  ∃ ep : TorEndpoint, ep.isNone = false ∧ transfer.proxy = socks5Url ep

/-- Whatever the manager and the attempts, every transfer for the URL goes through a proxy, and
without a usable proxy there is no transfer and no success. -/
def StaysInTor (url : Bytes) : Prop :=
  ∀ (strerror : CURLcode → Bytes) (manager : Option TorProxyManager) (attempts : Nat → Attempt),
    (∀ transfer ∈ (fetch strerror manager attempts url).transfers, transfer.Proxied) ∧
      ((Fetching.select { manager } url (attempts 0)).1.isNone = true →
        (fetch strerror manager attempts url).transfers = [] ∧
          (fetch strerror manager attempts url).result.ok = false)

section Attempt

variable (strerror : CURLcode → Bytes) (url : Bytes)

theorem fetchLoop_invariant {Inv : Fetching → Prop}
    (kept : ∀ state attempt, Inv state → Inv (fetchAttempt strerror url state attempt).1)
    (attempts : Nat → Attempt) (left i : Nat) {state : Fetching} (held : Inv state) :
    Inv (fetchLoop strerror url attempts left i state) := by
  induction left generalizing i state with
  | zero => exact held
  | succ left ih =>
    have after := kept state (attempts i) held
    rw [fetchLoop]
    split
    rename_i next done attempted
    rw [attempted] at after
    split
    · exact after
    · exact ih (i + 1) after

theorem proxyOf_isEmpty (ep : TorEndpoint) : (proxyOf ep).isEmpty = ep.isNone := by
  unfold proxyOf TorEndpoint.isNone
  split
  · rename_i none
    simp [none]
  · rename_i usable
    simp [socks5Url, usable, ascii]

theorem select_transfers (state : Fetching) (attempt : Attempt) :
    (state.select url attempt).2.transfers = state.transfers := by
  unfold Fetching.select
  split <;> rfl

theorem select_result (state : Fetching) (attempt : Attempt) :
    (state.select url attempt).2.result = state.result := by
  unfold Fetching.select
  split <;> rfl

theorem report_transfers (state : Fetching) (ep : TorEndpoint)
    (change : TorProxyManager → TorProxyManager) :
    (state.report ep change).transfers = state.transfers := by
  unfold Fetching.report
  split
  · rfl
  · split <;> rfl

theorem fetchOutcome_transfers (onion : Bool) (ep : TorEndpoint) (attempt : Attempt)
    (state : Fetching) :
    (fetchOutcome strerror onion ep attempt state).1.transfers = state.transfers := by
  unfold fetchOutcome
  split
  · exact report_transfers _ _ _
  · dsimp only
    split
    · exact report_transfers _ _ _
    · split
      · exact report_transfers _ _ _
      · exact report_transfers _ _ _

theorem transferFor_proxy (ep : TorEndpoint) : (transferFor url ep).proxy = proxyOf ep := by
  unfold transferFor
  dsimp only
  split <;> rfl

/-- An attempt adds at most one transfer, to its selection; for a recognized URL that is a
usable proxy. -/
theorem fetchAttempt_transfers (state : Fetching) (attempt : Attempt) :
    (fetchAttempt strerror url state attempt).1.transfers = state.transfers ∨
      (isOnionUrl url = true → (state.select url attempt).1.isNone = false) ∧
        (fetchAttempt strerror url state attempt).1.transfers =
          state.transfers ++ [transferFor url (state.select url attempt).1] := by
  have kept := select_transfers url state attempt
  unfold fetchAttempt
  dsimp only
  split
  · exact .inl kept
  · rename_i guarded
    split
    · exact .inl kept
    · refine .inr ⟨fun onion => ?_, ?_⟩
      · rw [← proxyOf_isEmpty]
        have guarded : ¬ (isOnionUrl url && (proxyOf (state.select url attempt).1).isEmpty) =
            true := guarded
        simpa [onion] using guarded
      · rw [fetchOutcome_transfers, kept]

/-- An attempt for a recognized URL that finds no usable proxy fails without a transfer. -/
theorem fetchAttempt_without_proxy (onion : isOnionUrl url = true) (state : Fetching)
    (attempt : Attempt) (none : (state.select url attempt).1.isNone = true) :
    (fetchAttempt strerror url state attempt).2 = true ∧
      (fetchAttempt strerror url state attempt).1.transfers = state.transfers ∧
      (fetchAttempt strerror url state attempt).1.result.ok = state.result.ok := by
  have guarded : (url.contains (ascii ".onion") &&
      (proxyOf (state.select url attempt).1).isEmpty) = true := by
    rw [proxyOf_isEmpty, none, Bool.and_true]
    exact onion
  unfold fetchAttempt
  dsimp only
  rw [if_pos guarded]
  exact ⟨rfl, select_transfers url state attempt, congrArg (·.ok) (select_result url state attempt)⟩

end Attempt

theorem Transfer.proxied_of_usable {url : Bytes} {ep : TorEndpoint} (usable : ep.isNone = false) :
    (transferFor url ep).Proxied := by
  refine ⟨ep, usable, ?_⟩
  rw [transferFor_proxy, proxyOf, if_neg]
  unfold TorEndpoint.isNone at usable
  rw [usable]
  exact Bool.false_ne_true

theorem staysInTor_of_isOnionUrl {url : Bytes} (onion : isOnionUrl url = true) :
    StaysInTor url := by
  intro strerror manager attempts
  refine ⟨?_, fun none => ?_⟩
  · refine @fetchLoop_invariant strerror url
      (fun state => ∀ transfer ∈ state.transfers, transfer.Proxied) ?_ attempts
      (maxTries manager url).toNat 0 { manager } (by simp)
    intro state attempt held
    rcases fetchAttempt_transfers strerror url state attempt with same | ⟨usable, more⟩
    · rw [same]
      exact held
    · rw [more]
      intro transfer member
      rcases List.mem_append.mp member with earlier | added
      · exact held transfer earlier
      · rw [List.mem_singleton.mp added]
        exact Transfer.proxied_of_usable (usable onion)
  · unfold fetch
    cases (maxTries manager url).toNat with
    | zero => exact ⟨rfl, rfl⟩
    | succ left =>
      obtain ⟨ends, transfers, failed⟩ :=
        fetchAttempt_without_proxy strerror url onion { manager } (attempts 0) none
      rw [fetchLoop]
      dsimp only
      rw [if_pos ends]
      exact ⟨transfers, failed⟩

/-- A fetch of any other URL goes out directly when the manager has no proxy. -/
theorem not_staysInTor {url : Bytes} (missed : isOnionUrl url = false) : ¬ StaysInTor url := by
  intro stays
  obtain ⟨proxied, _⟩ := stays (fun _ => []) (some (.default {})) fun _ => {}
  have tries : (maxTries (some (.default {})) url).toNat = 1 := by
    simp [maxTries, TorProxyManager.maxRetries, DefaultTorProxyManager.maxRetries, missed]
  have unguarded : url.contains (ascii ".onion") = false := missed
  have direct : { url, proxy := [] } ∈
      (fetch (fun _ => []) (some (.default {})) (fun _ => {}) url).transfers := by
    rw [fetch, tries, fetchLoop]
    simp [fetchAttempt, unguarded, fetchOutcome, Fetching.report, Fetching.select, Fetching.pass,
      TorProxyManager.selectProxy, DefaultTorProxyManager.selectProxy, TorEndpoint.none,
      transferFor, proxyOf]
  obtain ⟨ep, _, shape⟩ := proxied _ direct
  simp [socks5Url, ascii] at shape

/-- Fetches of a URL whose host ends in `.onion`, in any case, stay in Tor exactly when the
URL contains `.onion` in lower case. -/
theorem onion_staysInTor_iff (url : Bytes) :
    (hasOnionHost url = true → StaysInTor url) ↔
      (hasOnionHost url = true → isOnionUrl url = true) := by
  refine imp_congr_right fun _ => ⟨fun stays => ?_, staysInTor_of_isOnionUrl⟩
  by_contra missed
  exact not_staysInTor (Bool.not_eq_true _ ▸ missed) stays

theorem onion_leaves_tor : ¬ (hasOnionHost (ascii "http://x.ONION/") = true →
    StaysInTor (ascii "http://x.ONION/")) := by
  intro stays
  exact not_staysInTor (by decide) (stays (by decide))

end CurlFetcher

end ShadowSe
