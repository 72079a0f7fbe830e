import ShadowSe.Storage.EncryptedSnapshot
import ShadowSe.Web.HttpRequest

namespace ShadowSe

open Http

/-- `toHex`. -/
def toHex (data : Bytes) : Bytes :=
  data.flatMap fun b : UInt8 =>
    let hex := ascii "0123456789abcdef"
    [hex.getD (b >>> 4).toNat 0, hex.getD (b &&& 0x0F).toNat 0]

/-- The options that authorization reads. -/
structure AdminOptions where
  token : Bytes := []

/-- What the server sends: the answer to the liveness probe, the live dashboard, or the
fixed page that refuses it. -/
inductive AdminPage where
  | alive
  | dashboard
  | unauthorized
  deriving DecidableEq

structure AdminResponse where
  status : Nat
  statusText : Bytes
  page : AdminPage
  deriving DecidableEq

structure AdminServer where
  opts_ : AdminOptions
  token_ : Bytes

namespace AdminServer

/-- The constructor: an empty token is replaced by random bytes in hexadecimal. -/
def create (sodium : Sodium) (opts : AdminOptions) : AdminServer :=
  if opts.token.isEmpty then { opts_ := opts, token_ := toHex (randomBytes sodium 16) }
  else { opts_ := opts, token_ := opts.token }

/-- The constant-time comparison of the presented token with the server's. -/
def sameToken (t token : Bytes) : Bool :=
  (t.zip token).foldl (fun same pair => same && pair.1 == pair.2) (t.length == token.length)

/-- The decision on one request line. -/
def authorized (server : AdminServer) (method target : Bytes) : Bool :=
  if method == ascii "GET" && Bytes.startsWith target (ascii "/") &&
      !Bytes.contains target (ascii "..") then
    let (path, query) := splitTarget target
    if path == ascii "/" then
      match parameter (ascii "t=") query with
      | some t => sameToken t server.token_
      | none => false
    else false
  else false

def renderDashboard (authorized : Bool) : AdminPage :=
  if authorized then .dashboard else .unauthorized

/-- `handleClient` on the chunks that the connection delivers; `none` when it is closed
without an answer. -/
def handleClient (server : AdminServer) (chunks : List Bytes) : Option AdminResponse :=
  (receive 8192 [] chunks).map fun head =>
    let (method, target) := methodAndTarget (requestLine head)
    if method == ascii "GET" && Bytes.startsWith target (ascii "/healthz") then
      { status := 200, statusText := ascii "OK", page := .alive }
    else
      let authorized := server.authorized method target
      { status := if authorized then 200 else 401
        statusText := ascii (if authorized then "OK" else "Unauthorized")
        page := renderDashboard authorized }

/-- The dashboard is served with status 200. -/
def Serves (server : AdminServer) (chunks : List Bytes) : Prop :=
  ∃ response, server.handleClient chunks = some response ∧ response.status = 200 ∧
    response.page = .dashboard

/-- The request is a GET for the root path whose first `t` parameter is the token. -/
structure Presents (token head : Bytes) : Prop where
  method : (methodAndTarget (requestLine head)).1 = ascii "GET"
  path : (splitTarget (methodAndTarget (requestLine head)).2).1 = ascii "/"
  parameter : firstParameter (ascii "t=")
    (splitTarget (methodAndTarget (requestLine head)).2).2 = some token

private theorem foldl_and {pairs : List (UInt8 × UInt8)} (start : Bool) :
    pairs.foldl (fun same pair => same && pair.1 == pair.2) start = true ↔
      start = true ∧ ∀ pair ∈ pairs, pair.1 = pair.2 := by
  induction pairs generalizing start with
  | nil => simp
  | cons pair rest ih => simp [ih, and_assoc]

/-- The comparison goes over the shorter length, but the lengths are compared first. -/
theorem sameToken_iff {t token : Bytes} : sameToken t token = true ↔ t = token := by
  rw [sameToken, foldl_and, beq_iff_eq]
  constructor
  · rintro ⟨length, agree⟩
    refine List.ext_getElem length fun i first second => ?_
    have member : (t[i], token[i]) ∈ t.zip token := by
      rw [← List.getElem_zip (h := by simp [first, second])]
      exact List.getElem_mem _
    exact agree _ member
  · rintro rfl
    refine ⟨rfl, fun pair member => ?_⟩
    obtain ⟨i, inside, rfl⟩ := List.getElem_of_mem member
    simp

theorem Presents.of_authorized {server : AdminServer} {head : Bytes}
    (granted : server.authorized (methodAndTarget (requestLine head)).1
      (methodAndTarget (requestLine head)).2 = true) : Presents server.token_ head := by
  unfold authorized at granted
  split at granted
  · rename_i guards
    simp only [Bool.and_eq_true, beq_iff_eq] at guards
    dsimp only at granted
    split at granted
    · rename_i root
      rw [parameter_eq_firstParameter] at granted
      split at granted
      · rename_i t presented
        rw [sameToken_iff] at granted
        subst granted
        exact ⟨guards.1.1, beq_iff_eq.mp root, presented⟩
      · cases granted
    · cases granted
  · cases granted

/-- The dashboard is served to a request that presents the server's token, whatever the
token is. -/
theorem presents_of_serves {server : AdminServer} {chunks : List Bytes}
    (served : server.Serves chunks) :
    ∃ head, receive 8192 [] chunks = some head ∧ Presents server.token_ head := by
  obtain ⟨response, answered, _, dashboard⟩ := served
  obtain ⟨head, received, rfl⟩ := Option.map_eq_some_iff.mp answered
  refine ⟨head, received, .of_authorized ?_⟩
  dsimp only at dashboard
  split at dashboard
  · cases dashboard
  · unfold renderDashboard at dashboard
    split at dashboard
    · assumption
    · cases dashboard

theorem toHex_eq_nil_iff {data : Bytes} : toHex data = [] ↔ data = [] := by
  cases data with
  | nil => simp [toHex]
  | cons b rest => simp [toHex]

/-- The token is empty only when none is configured and no random bytes were to be had. -/
theorem token_create_eq_nil_iff {sodium : Sodium} {opts : AdminOptions} :
    (create sodium opts).token_ = [] ↔ opts.token = [] ∧ sodium.init = false := by
  unfold create
  by_cases configured : opts.token = []
  · have drawn : randomBytes sodium 16 = [] ↔ sodium.init = false := by
      unfold randomBytes
      cases sodium.init with
      | false => simp
      | true =>
        have size := (sodium.randombytes 16).2
        simp only [OfNat.ofNat_ne_zero, ↓reduceIte, Bool.true_eq_false, iff_false]
        rintro empty
        rw [empty] at size
        cases size
    simp [configured, toHex_eq_nil_iff, drawn]
  · simp [configured]

/-- An empty value is presented to a server whose token is empty. -/
def emptyTokenRequest : List Bytes :=
  [ascii "GET /?t= HTTP/1.1\r\n\r\n"]

private theorem serves_emptyToken (opts : AdminOptions) :
    (⟨opts, []⟩ : AdminServer).Serves emptyTokenRequest :=
  ⟨⟨200, ascii "OK", .dashboard⟩, rfl, rfl, rfl⟩

/-- Authorization is sound, for every request, exactly for the servers that have a token:
one is configured, or random bytes could be drawn. -/
theorem sound_iff (sodium : Sodium) (opts : AdminOptions) :
    (∀ chunks, (create sodium opts).Serves chunks → (create sodium opts).token_ ≠ [] ∧
      ∃ head, receive 8192 [] chunks = some head ∧ Presents (create sodium opts).token_ head) ↔
      opts.token ≠ [] ∨ sodium.init = true := by
  constructor
  · intro sound
    by_contra neither
    rw [not_or, not_not, Bool.not_eq_true] at neither
    have empty := token_create_eq_nil_iff.mpr neither
    refine (sound emptyTokenRequest ?_).1 empty
    have served := serves_emptyToken (create sodium opts).opts_
    rwa [← empty] at served
  · intro condition chunks served
    refine ⟨fun empty => ?_, presents_of_serves served⟩
    obtain ⟨unset, failed⟩ := token_create_eq_nil_iff.mp empty
    rcases condition with configured | drawn
    · exact configured unset
    · rw [failed] at drawn
      cases drawn

/-- No token configured and no libsodium: the dashboard is open to an empty token. -/
theorem create_without_token :
    let sodium := { Sodium.lockbox [] [] with init := false }
    ¬ ∀ chunks, (create sodium {}).Serves chunks → (create sodium {}).token_ ≠ [] ∧
      ∃ head, receive 8192 [] chunks = some head ∧ Presents (create sodium {}).token_ head := by
  intro sodium sound
  exact (sound emptyTokenRequest (serves_emptyToken {})).1 rfl

end AdminServer

end ShadowSe
