import ShadowSe.Tor.ProxyList
import ShadowSe.Tor.ProxyManager

namespace ShadowSe

/-- The configuration of the Tor routing. -/
structure Engine.Config where
  torHost : Bytes := ascii "127.0.0.1"
  torPort : UInt16 := 9050
  torProxies : List Bytes := []
  useProxyPool : Bool := false
  onionRetries : UInt64 := 0
  circuitRotateInterval : Int := 0
  deriving DecidableEq

/-- The configuration after a flag with its value, and whether it was a Tor flag. -/
def parseTorFlag (cfg : Engine.Config) (arg value : Bytes) : Bool × Engine.Config :=
  if arg = ascii "--tor-pool" then (true, { cfg with useProxyPool := true })
  else if arg = ascii "--tor-proxy" then
    match parseProxyList [value] with
    | [] => (true, cfg)
    | front :: rest =>
      (true, { cfg with
        torHost := front.host
        torPort := front.port
        torProxies := rest.map endpointKey })
  else if arg = ascii "--onion-retries" then
    if value.isEmpty then (true, cfg)
    else (true, { cfg with onionRetries := (stoul value).getD 0 })
  else if arg = ascii "--circuit-rotate" then
    if value.isEmpty then (true, cfg)
    else (true, { cfg with circuitRotateInterval := (stol value).getD 0 })
  else (false, cfg)

namespace Engine

/-- The endpoint list of the constructor. -/
def endpoints (cfg : Config) : List TorEndpoint :=
  { host := cfg.torHost, port := cfg.torPort } :: parseProxyList cfg.torProxies

/-- The options of the constructor's proxy manager. -/
def managerOptions (cfg : Config) : PoolOptions :=
  { proxies := endpoints cfg
    circuitRotateInterval := cfg.circuitRotateInterval
    onionRetries := cfg.onionRetries }

/-- The proxy manager that the constructor makes, at a time of the steady clock. -/
def torManager (cfg : Config) (now : Int) : TorProxyManager :=
  if cfg.useProxyPool then .pooled (.create (managerOptions cfg) now)
  else .default (.create (managerOptions cfg))

end Engine

/-- What parsing leaves in an endpoint, so that its text is parsed to the same endpoint. -/
structure TorEndpoint.Parsed (ep : TorEndpoint) : Prop where
  plain : ep = { host := ep.host, port := ep.port }
  unpadded : ∃ first rest, ep.host = first :: rest ∧ isPadding first = false
  comma : 44 ∉ ep.host
  port : 1 ≤ ep.port.toNat

theorem not_mem_of_mem_splitOn {a : UInt8} {s piece : Bytes} (member : piece ∈ s.splitOn a) :
    a ∉ piece := by
  induction s generalizing piece with
  | nil =>
    rw [List.splitOn_nil, List.mem_singleton] at member
    exact member ▸ List.not_mem_nil
  | cons c rest ih =>
    rw [List.splitOn_cons_eq_if_modifyHead] at member
    split at member
    · rcases List.mem_cons.mp member with rfl | later
      · exact List.not_mem_nil
      · exact ih later
    · rename_i other
      cases split : rest.splitOn a with
      | nil =>
        rw [split] at member
        cases member
      | cons first pieces =>
        rw [split, List.modifyHead_cons] at member
        rcases List.mem_cons.mp member with rfl | later
        · have absent := ih (split ▸ List.mem_cons_self)
          simp only [beq_iff_eq] at other
          simp [absent, Ne.symm other]
        · exact ih (split ▸ List.mem_cons_of_mem _ later)

private theorem trimPiece_isPrefix (s : Bytes) : trimPiece s <+: s.dropWhile isPadding := by
  have back := List.dropWhile_suffix (l := (s.dropWhile isPadding).reverse) isPadding
  rwa [← List.reverse_prefix, List.reverse_reverse] at back

theorem trimPiece_head {s rest : Bytes} {c : UInt8} (shape : trimPiece s = c :: rest) :
    isPadding c = false := by
  obtain ⟨more, joined⟩ := trimPiece_isPrefix s
  have stop := List.head?_dropWhile_not isPadding s
  rw [← joined, shape] at stop
  exact stop

theorem trimPiece_subset (s : Bytes) : trimPiece s ⊆ s :=
  fun _ member => (List.dropWhile_sublist _).subset ((trimPiece_isPrefix s).subset member)

theorem trimPiece_eq_self {first last : UInt8} (start : isPadding first = false)
    (stop : isPadding last = false) (s : Bytes) :
    trimPiece (first :: (s ++ [last])) = first :: (s ++ [last]) := by
  simp [trimPiece, start, stop]

theorem parsed_of_mem {specs : List Bytes} {ep : TorEndpoint}
    (member : ep ∈ parseProxyList specs) : ep.Parsed := by
  rw [parseProxyList_eq] at member
  obtain ⟨piece, listed, parsed⟩ := List.mem_filterMap.mp member
  obtain ⟨spec, -, trimmed⟩ := List.mem_flatMap.mp listed
  obtain ⟨raw, split, rfl⟩ := List.mem_map.mp trimmed
  have noComma := not_mem_of_mem_splitOn split
  by_cases colon : 58 ∈ trimPiece raw
  · obtain ⟨host, port, shape, absent, -⟩ := Bytes.exists_rfind colon
    rw [shape, parsePiece_append absent, Option.bind_eq_some_iff] at parsed
    obtain ⟨p, read, parsed⟩ := parsed
    rw [Option.ite_none_left_eq_some, Option.some.injEq] at parsed
    obtain ⟨inRange, rfl⟩ := parsed
    have value : (UInt16.ofNat p.toNat).toNat = p.toNat := Nat.mod_eq_of_lt (by omega)
    refine ⟨rfl, ?_, ?_, ?_⟩
    · cases host with
      | nil => exact ⟨49, _, rfl, rfl⟩
      | cons first rest => exact ⟨first, rest, rfl, trimPiece_head shape⟩
    · cases host with
      | nil => exact (by decide : 44 ∉ ascii "127.0.0.1")
      | cons first rest =>
        intro comma
        exact noComma (trimPiece_subset raw (shape ▸ List.mem_append_left _ comma))
    · change 1 ≤ (UInt16.ofNat p.toNat).toNat
      omega
  · rw [parsePiece_of_not_mem colon] at parsed
    cases parsed

theorem isPort_decimal {n : Nat} (least : 1 ≤ n) (greatest : n ≤ 65535) : IsPort (decimal n) :=
  ⟨decimal_ne_nil n, decimal_digits n, by rwa [decimalValue_decimal],
    by rwa [decimalValue_decimal]⟩

theorem TorEndpoint.Parsed.reparse {ep : TorEndpoint} (parsed : ep.Parsed) :
    parseProxyList [endpointKey ep] = [ep] := by
  have digits := decimal_digits ep.port.toNat
  have noColon : 58 ∉ decimal ep.port.toNat := fun member => absurd (digits 58 member) (by decide)
  have noComma : 44 ∉ endpointKey ep := by
    have other : 44 ∉ decimal ep.port.toNat := fun member =>
      absurd (digits 44 member) (by decide)
    simp [endpointKey, parsed.comma, other, ascii]
  have key : endpointKey ep = ep.host ++ 58 :: decimal ep.port.toNat := by
    simp [endpointKey, ascii]
  obtain ⟨first, rest, host, start⟩ := parsed.unpadded
  have trimmed : trimPiece (endpointKey ep) = endpointKey ep := by
    obtain ⟨init, last, number⟩ := (List.eq_nil_or_concat (decimal ep.port.toNat)).resolve_left
      (decimal_ne_nil _)
    have plain : ∀ c : UInt8, isdigit c = true → isPadding c = false := by
      apply forall_byte
      decide +kernel
    have stop := plain last (digits last (by simp [number]))
    have split : endpointKey ep = first :: (rest ++ 58 :: init ++ [last]) := by
      rw [key, host, number]
      simp
    rw [split]
    exact trimPiece_eq_self start stop _
  have read := (isPort_decimal parsed.port (Nat.lt_succ_iff.mp ep.port.toNat_lt)).stol
  have again : endpointAt ep.host (decimalValue (decimal ep.port.toNat)) = ep := by
    rw [parsed.plain, endpointAt, decimalValue_decimal, UInt16.ofNat_toNat]
    simp [host]
  have bound := ep.port.toNat_lt
  have least := parsed.port
  have piece : parsePiece (endpointKey ep) = some ep := by
    rw [key, parsePiece_append noColon, read, Option.bind_some, if_neg, Int.toNat_natCast, again]
    rw [decimalValue_decimal]
    omega
  rw [parseProxyList_eq, proxyPieces, List.flatMap_singleton, List.splitOn_eq_singleton noComma,
    List.map_singleton, trimmed]
  simp [piece]

theorem parseProxyList_map_endpointKey {eps : List TorEndpoint} (parsed : ∀ ep ∈ eps, ep.Parsed) :
    parseProxyList (eps.map endpointKey) = eps := by
  induction eps with
  | nil => rfl
  | cons ep eps ih =>
    rw [List.forall_mem_cons] at parsed
    have first := parsed.1.reparse
    have later := ih parsed.2
    rw [parseProxyList_eq] at first later ⊢
    have pieces : proxyPieces (endpointKey ep :: eps.map endpointKey) =
        proxyPieces [endpointKey ep] ++ proxyPieces (eps.map endpointKey) := by
      simp [proxyPieces]
    rw [List.map_cons, pieces, List.filterMap_append, first, later, List.singleton_append]

/-- The endpoints of the engine are those of the flag. -/
theorem endpoints_parseTorFlag (cfg : Engine.Config) {value : Bytes}
    (found : parseProxyList [value] ≠ []) :
    Engine.endpoints (parseTorFlag cfg (ascii "--tor-proxy") value).2 = parseProxyList [value] := by
  rw [parseTorFlag, if_neg (by decide), if_pos rfl]
  have parsed : ∀ ep ∈ parseProxyList [value], ep.Parsed := fun _ => parsed_of_mem
  cases listed : parseProxyList [value] with
  | nil => exact absurd listed found
  | cons front rest =>
    rw [listed, List.forall_mem_cons] at parsed
    change { host := front.host, port := front.port } :: parseProxyList (rest.map endpointKey) = _
    rw [← parsed.1.plain, parseProxyList_map_endpointKey parsed.2]

/-- Hosts with colons and spaces inside, an empty host and a skipped piece. -/
theorem endpoints_parseTorFlag_list :
    Engine.endpoints (parseTorFlag {} (ascii "--tor-proxy")
        (ascii " ::1:9050, a b:1 ,:9051,nothing")).2 =
      parseProxyList [ascii " ::1:9050, a b:1 ,:9051,nothing"] :=
  endpoints_parseTorFlag {} (by decide)

end ShadowSe
