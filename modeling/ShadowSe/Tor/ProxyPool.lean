import Mathlib.Data.List.Basic
import ShadowSe.Text.Bytes

/-! The pooled Tor proxy manager: round-robin selection over healthy endpoints and over
failed ones whose cooldown has passed. Times and durations are nanosecond counts. -/

namespace ShadowSe

structure TorEndpoint where
  host : Bytes := ascii "127.0.0.1"
  port : UInt16 := 9050
  username : Bytes := []
  password : Bytes := []
  healthy : Bool := true
  consecutiveFailures : UInt32 := 0
  lastLatency : Int := 0
  lastUsed : Int := 0
  lastProbe : Int := 0
  deriving DecidableEq

namespace TorEndpoint

def sameEndpoint (ep other : TorEndpoint) : Bool :=
  ep.host == other.host && ep.port == other.port

/-- The sentinel for no usable proxy. -/
def none : TorEndpoint :=
  { host := [], port := 0 }

def isNone (ep : TorEndpoint) : Bool :=
  ep.host.isEmpty || ep.port == 0

/-- The endpoint with this host and port. -/
abbrev IsAt (e : TorEndpoint) (host : Bytes) (port : UInt16) : Prop :=
  e.host = host ∧ e.port = port

theorem sameEndpoint_iff {e other : TorEndpoint} :
    e.sameEndpoint other = true ↔ e.IsAt other.host other.port := by
  simp [sameEndpoint, IsAt]

end TorEndpoint

inductive TorStatus where
  | unknown
  | up
  | down
  deriving DecidableEq

structure TorProbeResult where
  status : TorStatus := .unknown
  detail : Bytes := []
  elapsed : Int := 0
  deriving DecidableEq

inductive CircuitScope where
  | perDomain
  | perRequest
  | none
  deriving DecidableEq

def milliseconds (count : Int) : Int :=
  count * 1000000

def seconds (count : Int) : Int :=
  count * 1000000000

/-- A number as a signed 64-bit count has it. -/
def castInt64 (n : Int) : Int :=
  n.bmod UInt64.size

/-- One byte of FNV-1a, 64 bits. -/
def fnv1aStep (h : UInt64) (c : UInt8) : UInt64 :=
  (h ^^^ c.toUInt64) * 1099511628211

def hexDigit (value : UInt64) : UInt8 :=
  if value < 10 then 48 + value.toUInt8 else 87 + value.toUInt8

/-- `snprintf` with `%016llx`. -/
def hex16 (h : UInt64) : Bytes :=
  (List.range 16).map fun i => hexDigit ((h >>> UInt64.ofNat (60 - 4 * i)) &&& 15)

def circuitUsernameFor (url : Bytes) (scope : CircuitScope) : Bytes :=
  if scope = .none then []
  else
    let token := if scope = .perDomain then
        let hostStart := match url.find (ascii "://") 0 with
          | .none => 0
          | some scheme => scheme + 3
        match url.findFirstOf (ascii "/?#") hostStart with
        | .none => url.substr hostStart .none
        | some stop => url.substr hostStart (some (stop - hostStart))
      else url
    ascii "s-" ++ hex16 (token.foldl fnv1aStep 1469598103934665603)

def isOnionUrl (url : Bytes) : Bool :=
  url.contains (ascii ".onion")

/-- The options that the pool reads. -/
structure PoolOptions where
  proxies : List TorEndpoint := []
  circuitRotateInterval : Int := 0
  isolation : CircuitScope := .perDomain
  onionRetries : UInt64 := 0
  failureCooldown : Int := 5000
  deriving DecidableEq

/-- The options as they are compared with times: a comparison converts both sides to
nanoseconds, in 64 bits. -/
def PoolOptions.rotateAfter (o : PoolOptions) : Int :=
  castInt64 (seconds o.circuitRotateInterval)

def PoolOptions.cooldown (o : PoolOptions) : Int :=
  castInt64 (milliseconds o.failureCooldown)

structure PooledTorProxyManager where
  opts_ : PoolOptions
  eps_ : List TorEndpoint
  rr_ : UInt64 := 0
  lastRotate_ : Int
  lastProbe_ : TorProbeResult := {}
  onionRequests_ : Nat := 0
  deriving DecidableEq

namespace PooledTorProxyManager

/-- The constructor, at a time of the steady clock. -/
def create (o : PoolOptions) (now : Int) : PooledTorProxyManager :=
  { opts_ := o, eps_ := o.proxies, lastRotate_ := now }

def addProxy (pool : PooledTorProxyManager) (ep : TorEndpoint) : PooledTorProxyManager :=
  if pool.eps_.any fun e => e.sameEndpoint ep then pool
  else { pool with eps_ := pool.eps_ ++ [ep] }

def removeProxy (pool : PooledTorProxyManager) (host : Bytes) (port : UInt16) :
    PooledTorProxyManager :=
  { pool with eps_ := pool.eps_.filter fun e => !(e.host == host && e.port == port) }

/-- A rotation is configured and its interval has passed. -/
def rotationDue (pool : PooledTorProxyManager) (now : Int) : Bool :=
  0 < pool.opts_.circuitRotateInterval && pool.opts_.rotateAfter ≤ now - pool.lastRotate_

/-- Circuit rotation: reset health and advance the cursor. -/
def rotate (pool : PooledTorProxyManager) (now : Int) : PooledTorProxyManager :=
  if pool.rotationDue now then
    { pool with
      eps_ := pool.eps_.map fun e => { e with healthy := true }
      rr_ := UInt64.ofNat ((pool.rr_ + 1).toNat % pool.eps_.length)
      lastRotate_ := now }
  else pool

/-- Healthy, or failed with an expired cooldown. -/
def selectable (pool : PooledTorProxyManager) (now : Int) (e : TorEndpoint) : Bool :=
  e.healthy || pool.opts_.cooldown ≤ now - e.lastProbe

/-- The positions of the candidate endpoints. -/
def candidates (pool : PooledTorProxyManager) (now : Int) : List Nat :=
  (List.range pool.eps_.length).filter fun i => pool.selectable now (pool.eps_.getD i .none)

/-- The end of a selection: the endpoint is marked as used and handed out. -/
def handOut (pool : PooledTorProxyManager) (pick : Nat) (chosen : TorEndpoint) (url : Bytes)
    (clock : Int) : TorEndpoint × PooledTorProxyManager :=
  let chosen := { chosen with lastUsed := clock }
  let username := circuitUsernameFor url pool.opts_.isolation
  ({ chosen with username, password := username }, { pool with eps_ := pool.eps_.set pick chosen })

/-- The selection among the candidates, after any rotation. -/
def selectCandidate (pool : PooledTorProxyManager) (url : Bytes) (now clock : Int)
    (reprobe : TorStatus) : TorEndpoint × PooledTorProxyManager :=
  let candidates := pool.candidates now
  if candidates = [] then (.none, pool)
  else
    let pick := candidates.getD (pool.rr_.toNat % candidates.length) 0
    let pool := { pool with rr_ := pool.rr_ + 1 }
    let chosen := pool.eps_.getD pick .none
    if chosen.healthy then pool.handOut pick chosen url clock
    else
      let chosen := { chosen with healthy := reprobe == .up, lastProbe := now }
      if chosen.healthy then pool.handOut pick chosen url clock
      else (.none, { pool with eps_ := pool.eps_.set pick chosen })

/-- `selectProxy` at a time of the steady clock (`now`) and the system clock (`clock`);
`reprobe` is the outcome of the lazy re-probe, should there be one. -/
def selectProxy (pool : PooledTorProxyManager) (url : Bytes) (now clock : Int)
    (reprobe : TorStatus) : TorEndpoint × PooledTorProxyManager :=
  if pool.eps_ = [] then (.none, pool)
  else
    let pool := if isOnionUrl url then { pool with onionRequests_ := pool.onionRequests_ + 1 }
      else pool
    (pool.rotate now).selectCandidate url now clock reprobe

/-- Change the first endpoint with this host and port. -/
def updateFirst (host : Bytes) (port : UInt16) (change : TorEndpoint → TorEndpoint) :
    List TorEndpoint → List TorEndpoint
  | [] => []
  | e :: rest =>
    if e.host = host ∧ e.port = port then change e :: rest
    else e :: updateFirst host port change rest

def reportSuccess (pool : PooledTorProxyManager) (host : Bytes) (port : UInt16) (latency : Int) :
    PooledTorProxyManager :=
  { pool with eps_ := updateFirst host port (fun e =>
      { e with healthy := true, consecutiveFailures := 0, lastLatency := latency }) pool.eps_ }

def reportFailure (pool : PooledTorProxyManager) (host : Bytes) (port : UInt16) (now : Int) :
    PooledTorProxyManager :=
  { pool with eps_ := updateFirst host port (fun e =>
      { e with healthy := false, consecutiveFailures := e.consecutiveFailures + 1,
               lastProbe := now }) pool.eps_ }

/-- `probe`: the aggregate result is kept, and every endpoint gets its own answer and time. -/
def probe (pool : PooledTorProxyManager) (result : TorProbeResult)
    (answers : Nat → TorStatus × Int) : PooledTorProxyManager :=
  { pool with
    lastProbe_ := result
    eps_ := pool.eps_.mapIdx fun i e =>
      { e with healthy := (answers i).1 == .up, lastProbe := (answers i).2 } }

def probeEndpoint (pool : PooledTorProxyManager) (ep : TorEndpoint) (answer : TorStatus)
    (now : Int) : PooledTorProxyManager :=
  { pool with eps_ := pool.eps_.map fun e =>
      if e.sameEndpoint ep then { e with healthy := answer == .up, lastProbe := now } else e }

end PooledTorProxyManager

/-- The calls on a pool, with the times and probe outcomes they meet. -/
inductive PoolCall where
  | addProxy (ep : TorEndpoint)
  | removeProxy (host : Bytes) (port : UInt16)
  | selectProxy (url : Bytes) (now clock : Int) (reprobe : TorStatus)
  | reportSuccess (host : Bytes) (port : UInt16) (latency : Int)
  | reportFailure (host : Bytes) (port : UInt16) (now : Int)
  | probe (result : TorProbeResult) (answers : Nat → TorStatus × Int)
  | probeEndpoint (ep : TorEndpoint) (answer : TorStatus) (now : Int)

namespace PooledTorProxyManager

def apply (pool : PooledTorProxyManager) : PoolCall → PooledTorProxyManager
  | .addProxy ep => pool.addProxy ep
  | .removeProxy host port => pool.removeProxy host port
  | .selectProxy url now clock reprobe => (pool.selectProxy url now clock reprobe).2
  | .reportSuccess host port latency => pool.reportSuccess host port latency
  | .reportFailure host port now => pool.reportFailure host port now
  | .probe result answers => pool.probe result answers
  | .probeEndpoint ep answer now => pool.probeEndpoint ep answer now

/-- A pool after a sequence of calls. -/
def runAll (o : PoolOptions) (start : Int) (calls : List PoolCall) : PooledTorProxyManager :=
  calls.foldl apply (create o start)

end PooledTorProxyManager

end ShadowSe
