import ShadowSe.Crawl.Robots
import ShadowSe.Tor.ProxyManager

/-! The fetcher: a proxy is selected for every attempt, and the outcome is reported to the
manager. The transfers themselves are the outside world; what they are told and how they
end is recorded. -/

namespace ShadowSe

/-- The transfer codes that the fetcher tells apart. -/
inductive CURLcode where
  | ok
  | couldntConnect
  | couldntResolveProxy
  | operationTimedout
  | sendError
  | recvError
  | proxy
  | http2
  | other (code : Nat)
  deriving DecidableEq

/-- Transport and proxy failures are retryable; other errors are not. -/
def isTransientCurlError : CURLcode → Bool
  | .couldntConnect | .couldntResolveProxy | .operationTimedout | .sendError | .recvError
  | .proxy | .http2 => true
  | .ok | .other _ => false

namespace CurlFetcher

/-- What one attempt meets: the clocks and the re-probe of its selection, whether a handle
is allocated, and how the transfer ends. -/
structure Attempt where
  now : Int := 0
  clock : Int := 0
  reprobe : TorStatus := .down
  handle : Bool := true
  code : CURLcode := .ok
  httpCode : Int := 200
  body : Bytes := []
  errbuf : Bytes := []
  latency : Int := 0
  reportedAt : Int := 0

/-- A transfer and the options that route it; an empty proxy is none. -/
structure Transfer where
  url : Bytes
  proxy : Bytes
  username : Bytes := []
  password : Bytes := []
  deriving DecidableEq

/-- A call of `fetch` under way: the manager with the states it has passed through, the
result so far and the transfers performed. -/
structure Fetching where
  manager : Option TorProxyManager
  passed : List TorProxyManager := []
  result : FetchResult := {}
  transfers : List Transfer := []

namespace Fetching

/-- The manager goes on to a new state. -/
def pass (state : Fetching) (manager : TorProxyManager) : Fetching :=
  { state with manager := some manager, passed := state.passed ++ [manager] }

/-- Without a manager the endpoint is the default one. -/
def select (state : Fetching) (url : Bytes) (attempt : Attempt) : TorEndpoint × Fetching :=
  match state.manager with
  | none => ({}, state)
  | some manager =>
    let (ep, manager) := manager.selectProxy url attempt.now attempt.clock attempt.reprobe
    (ep, state.pass manager)

/-- Report to the manager, unless the endpoint has no host. -/
def report (state : Fetching) (ep : TorEndpoint)
    (change : TorProxyManager → TorProxyManager) : Fetching :=
  match state.manager with
  | none => state
  | some manager => if ep.host.isEmpty then state else state.pass (change manager)

end Fetching

def proxyOf (ep : TorEndpoint) : Bytes :=
  if ep.host.isEmpty || ep.port == 0 then [] else socks5Url ep

def fetchError (strerror : CURLcode → Bytes) (attempt : Attempt) : Bytes :=
  if attempt.code ≠ .ok then
    if attempt.errbuf ≠ [] then attempt.errbuf else strerror attempt.code
  else ascii "HTTP " ++ toString64 attempt.httpCode

/-- The options of a transfer; user name and password isolate the circuit. -/
def transferFor (url : Bytes) (ep : TorEndpoint) : Transfer :=
  let proxy := proxyOf ep
  if proxy.isEmpty || ep.username.isEmpty then { url, proxy }
  else { url, proxy, username := ep.username, password := ep.password }

/-- What follows a transfer; true when the loop ends. -/
def fetchOutcome (strerror : CURLcode → Bytes) (onion : Bool) (ep : TorEndpoint)
    (attempt : Attempt) (state : Fetching) : Fetching × Bool :=
  if attempt.code = .ok ∧ attempt.httpCode < 400 then
    let state := state.report ep (·.reportSuccess ep.host ep.port attempt.latency)
    ({ state with result := { state.result with ok := true, html := attempt.body } }, true)
  else
    let message := fetchError strerror attempt
    let state := { state with result := { state.result with error := message } }
    let state := state.report ep (·.reportFailure ep.host ep.port attempt.reportedAt)
    if attempt.httpCode ≥ 400 then (state, true)
    else if !isTransientCurlError attempt.code && !onion then (state, true)
    else (state, false)

/-- The body of the loop; true when the loop ends. -/
def fetchAttempt (strerror : CURLcode → Bytes) (url : Bytes) (state : Fetching)
    (attempt : Attempt) : Fetching × Bool :=
  let onion := url.contains (ascii ".onion")
  let (ep, state) := state.select url attempt
  if onion && (proxyOf ep).isEmpty then
    let message :=
      ascii "onion target requires Tor; no healthy SOCKS5 proxy available (run 'status')"
    ({ state with result := { state.result with error := message } }, true)
  else if !attempt.handle then
    ({ state with result := { state.result with error := ascii "curl_easy_init() failed" } }, true)
  else
    fetchOutcome strerror onion ep attempt
      { state with transfers := state.transfers ++ [transferFor url ep] }

/-- The loop, with the number of attempts left and the index of the next one. -/
def fetchLoop (strerror : CURLcode → Bytes) (url : Bytes) (attempts : Nat → Attempt) :
    Nat → Nat → Fetching → Fetching
  | 0, _, state => state
  | left + 1, i, state =>
    let (state, done) := fetchAttempt strerror url state (attempts i)
    if done then state else fetchLoop strerror url attempts left (i + 1) state

/-- `1 + maxRetries`, in 64 bits. -/
def maxTries (manager : Option TorProxyManager) (url : Bytes) : UInt64 :=
  match manager with
  | none => 1
  | some manager => 1 + manager.maxRetries url

/-- `CurlFetcher::fetch`. -/
def fetch (strerror : CURLcode → Bytes) (manager : Option TorProxyManager)
    (attempts : Nat → Attempt) (url : Bytes) : Fetching :=
  fetchLoop strerror url attempts (maxTries manager url).toNat 0 { manager }

end CurlFetcher

end ShadowSe
