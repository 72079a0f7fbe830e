import ShadowSe.Text.Numerals
import ShadowSe.Tor.ProxyPool

namespace ShadowSe

def socks5Url (ep : TorEndpoint) : Bytes :=
  ascii "socks5h://" ++ ep.host ++ ascii ":" ++ decimal ep.port.toNat

structure DefaultTorProxyManager where
  opts_ : PoolOptions := {}
  ep_ : TorEndpoint := .none
  up_ : Bool := false
  lastProbe_ : TorProbeResult := {}
  deriving DecidableEq

namespace DefaultTorProxyManager

/-- The constructor: the first of the configured endpoints. -/
def create (o : PoolOptions) : DefaultTorProxyManager :=
  { opts_ := o, ep_ := o.proxies.headD .none }

def addProxy (manager : DefaultTorProxyManager) (ep : TorEndpoint) : DefaultTorProxyManager :=
  { manager with ep_ := ep, up_ := false }

def removeProxy (manager : DefaultTorProxyManager) (host : Bytes) (port : UInt16) :
    DefaultTorProxyManager :=
  if manager.ep_.host = host ∧ manager.ep_.port = port then
    { manager with ep_ := .none, up_ := false }
  else manager

def proxies (manager : DefaultTorProxyManager) : List TorEndpoint :=
  if manager.ep_.host.isEmpty then [] else [manager.ep_]

def selectProxy (manager : DefaultTorProxyManager) : TorEndpoint :=
  if manager.ep_.host.isEmpty || manager.ep_.port == 0 || !manager.up_ then .none
  else manager.ep_

def reportSuccess (manager : DefaultTorProxyManager) (host : Bytes) (port : UInt16)
    (latency : Int) : DefaultTorProxyManager :=
  if manager.ep_.host = host ∧ manager.ep_.port = port then
    { manager with ep_ := { manager.ep_ with consecutiveFailures := 0, lastLatency := latency } }
  else manager

/-- The failure is recorded, but routing is unchanged. -/
def reportFailure (manager : DefaultTorProxyManager) (host : Bytes) (port : UInt16) :
    DefaultTorProxyManager :=
  if manager.ep_.host = host ∧ manager.ep_.port = port then
    { manager with ep_ := { manager.ep_ with
        consecutiveFailures := manager.ep_.consecutiveFailures + 1 } }
  else manager

/-- The outcome of a `probe` call that read the endpoint `ep`; `network` is the answer of
the network, which is not asked about an unusable endpoint. -/
def probeOutcome (ep : TorEndpoint) (network : TorProbeResult) : TorProbeResult :=
  if ep.host.isEmpty || ep.port == 0 then
    { status := .unknown, detail := ascii "no Tor proxy configured" }
  else network

/-- The end of a `probe` call, at a time of the steady clock. -/
def storeProbe (manager : DefaultTorProxyManager) (result : TorProbeResult) (now : Int) :
    DefaultTorProxyManager :=
  { manager with
    up_ := result.status == .up
    ep_ := { manager.ep_ with lastProbe := now }
    lastProbe_ := result }

def probeEndpoint (manager : DefaultTorProxyManager) (ep : TorEndpoint) (answer : TorStatus) :
    DefaultTorProxyManager :=
  if manager.ep_.host = ep.host ∧ manager.ep_.port = ep.port then
    { manager with up_ := answer == .up }
  else manager

def maxRetries (manager : DefaultTorProxyManager) (url : Bytes) : UInt64 :=
  if isOnionUrl url then manager.opts_.onionRetries else 0

end DefaultTorProxyManager

/-- Clearweb targets fail over across the healthy endpoints. -/
def PooledTorProxyManager.maxRetries (pool : PooledTorProxyManager) (url : Bytes) : UInt64 :=
  if isOnionUrl url then pool.opts_.onionRetries
  else
    let healthy := (pool.eps_.filter (·.healthy)).length
    if 0 < healthy then UInt64.ofNat (healthy - 1) else 0

inductive TorProxyManager where
  | default (manager : DefaultTorProxyManager)
  | pooled (pool : PooledTorProxyManager)

namespace TorProxyManager

def proxies : TorProxyManager → List TorEndpoint
  | .default manager => manager.proxies
  | .pooled pool => pool.eps_

def selectProxy (manager : TorProxyManager) (url : Bytes) (now clock : Int)
    (reprobe : TorStatus) : TorEndpoint × TorProxyManager :=
  match manager with
  | .default manager => (manager.selectProxy, .default manager)
  | .pooled pool =>
    let (chosen, pool) := pool.selectProxy url now clock reprobe
    (chosen, .pooled pool)

def reportSuccess (manager : TorProxyManager) (host : Bytes) (port : UInt16) (latency : Int) :
    TorProxyManager :=
  match manager with
  | .default manager => .default (manager.reportSuccess host port latency)
  | .pooled pool => .pooled (pool.reportSuccess host port latency)

def reportFailure (manager : TorProxyManager) (host : Bytes) (port : UInt16) (now : Int) :
    TorProxyManager :=
  match manager with
  | .default manager => .default (manager.reportFailure host port)
  | .pooled pool => .pooled (pool.reportFailure host port now)

def maxRetries (manager : TorProxyManager) (url : Bytes) : UInt64 :=
  match manager with
  | .default manager => manager.maxRetries url
  | .pooled pool => pool.maxRetries url

end TorProxyManager

end ShadowSe
