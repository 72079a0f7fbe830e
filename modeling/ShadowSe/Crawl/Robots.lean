import Mathlib.Data.List.Basic
import ShadowSe.Text.Bytes

namespace ShadowSe

structure FetchResult where
  ok : Bool := false
  html : Bytes := []
  error : Bytes := []
  deriving DecidableEq

/-- `DomainRules`; a rule is (allow, path). -/
structure DomainRules where
  loaded : Bool := false
  rules : List (Bool × Bytes) := []
  deriving DecidableEq

structure RobotsTxt where
  ua_ : Bytes := ascii "ShadowSE/1.0"
  /-- Order preserved. -/
  domains_ : List (Bytes × DomainRules) := []
  deriving DecidableEq

/-- The text up to the first '#'. -/
def stripComment (line : Bytes) : Bytes :=
  match line.findFirstOf (ascii "#") 0 with
  | none => line
  | some h => line.substr 0 (some h)

/-- The lines that `std::getline` reads. -/
def getlines (body : Bytes) : List Bytes :=
  let parts := body.splitOn 10
  if parts.getLast? = some [] then parts.dropLast else parts

namespace RobotsTxt

/-- Scheme and host of a URL, the host in lower case; empty without either. -/
def originOf (url : Bytes) : Bytes :=
  match url.find (ascii "://") 0 with
  | none => []
  | some scheme =>
    let hostStart := scheme + 3
    let host := url.substr hostStart
      ((url.findFirstOf (ascii "/?#") hostStart).map (· - hostStart))
    if host = [] then [] else url.substr 0 (some (scheme + 3)) ++ lowerAscii host

def pathOf (url : Bytes) : Bytes :=
  match url.find (ascii "://") 0 with
  | none => ascii "/"
  | some scheme =>
    match url.findFirstOf (ascii "/") (scheme + 3) with
    | none => ascii "/"
    | some slash => url.substr slash ((url.findFirstOf (ascii "?#") slash).map (· - slash))

/-- The locals of the loop in `parseBody`. -/
structure ParseState where
  inMatchingGroup : Bool := false
  group : List (Bool × Bytes) := []
  rules : List (Bool × Bytes) := []

def ParseState.flushGroup (st : ParseState) : ParseState :=
  if st.inMatchingGroup then
    { inMatchingGroup := false, group := [], rules := st.rules ++ st.group }
  else st

/-- A group names our agent, is named by it, or is for everyone. -/
def agentMatches (ourUA agent : Bytes) : Bool :=
  agent == ascii "*" || ourUA.contains agent || agent.contains ourUA

/-- The loop body of `parseBody`. A line without ':' is its own key and value. -/
def parseLine (ourUA : Bytes) (st : ParseState) (line : Bytes) : ParseState :=
  let line := trimWs (stripComment line)
  if line = [] then st
  else
    let lower := lowerAscii line
    let colon := lower.findFirstOf (ascii ":") 0
    let key := trimWs (lower.substr 0 colon)
    let value := trimWs (line.substr ((colon.map (· + 1)).getD 0) none)
    if key = ascii "user-agent" then
      { st.flushGroup with inMatchingGroup := agentMatches ourUA (lowerAscii value) }
    else if key = ascii "allow" then
      if st.inMatchingGroup && !value.isEmpty then
        { st with group := st.group ++ [(true, value)] }
      else st
    else if key = ascii "disallow" then
      if st.inMatchingGroup && !value.isEmpty then
        { st with group := st.group ++ [(false, value)] }
      else st
    else st

def parseBody (ua : Bytes) (body : Bytes) : DomainRules :=
  let st := (getlines body).foldl (parseLine (lowerAscii ua)) {}
  { loaded := true, rules := st.flushGroup.rules }

/-- The entry that the lookups find for an origin. -/
def entry (robots : RobotsTxt) (origin : Bytes) : Option DomainRules :=
  robots.domains_.lookup origin

/-- The first locked section of `loadDomain` does not return. -/
def needsLoad (robots : RobotsTxt) (origin : Bytes) : Bool :=
  !origin.isEmpty && !robots.domains_.any fun (o, rules) => o == origin && rules.loaded

/-- The rules that `loadDomain` makes of a fetch; a failed one allows everything. -/
def fetchedRules (robots : RobotsTxt) (res : FetchResult) : DomainRules :=
  if res.ok then parseBody robots.ua_ res.html else { loaded := true }

def storeEntry (origin : Bytes) (rules : DomainRules) :
    List (Bytes × DomainRules) → List (Bytes × DomainRules)
  | [] => [(origin, rules)]
  | (o, r) :: rest =>
    if o = origin then (o, rules) :: rest else (o, r) :: storeEntry origin rules rest

/-- The second locked section of `loadDomain`. -/
def store (robots : RobotsTxt) (origin : Bytes) (rules : DomainRules) : RobotsTxt :=
  { robots with domains_ := storeEntry origin rules robots.domains_ }

/-- The URL that `loadDomain` fetches for an origin. -/
def robotsUrl (origin : Bytes) : Bytes :=
  origin ++ ascii "/robots.txt"

/-- `loadDomain` on its own. -/
def loadDomain (robots : RobotsTxt) (fetch : Bytes → FetchResult) (url : Bytes) : RobotsTxt :=
  let origin := originOf url
  if robots.needsLoad origin then
    robots.store origin (robots.fetchedRules (fetch (robotsUrl origin)))
  else robots

def hasRules (robots : RobotsTxt) (url : Bytes) : Bool :=
  match robots.entry (originOf url) with
  | none => false
  | some r => r.loaded && !r.rules.isEmpty

/-- The locals of the loop in `allowed`. -/
structure Best where
  bestLen : Nat := 0
  bestAllow : Bool := true
  matched : Bool := false

/-- The loop body of `allowed`: the longest matching rule decides, Allow wins ties. -/
def weigh (path : Bytes) (best : Best) (rule : Bool × Bytes) : Best :=
  let (allow, rulePath) := rule
  if best.bestLen ≤ rulePath.length ∧ path.startsWith rulePath = true then
    if best.bestLen < rulePath.length then
      { bestLen := rulePath.length, bestAllow := allow, matched := true }
    else { best with bestAllow := allow || best.bestAllow, matched := true }
  else best

/-- The verdict of a rule list on a path. -/
def permits (rules : List (Bool × Bytes)) (path : Bytes) : Bool :=
  let best := rules.foldl (weigh path) {}
  !best.matched || best.bestAllow

def allowed (robots : RobotsTxt) (url : Bytes) : Bool :=
  let rules := ((robots.entry (originOf url)).map (·.rules)).getD []
  if rules.isEmpty then true else permits rules (pathOf url)

def cachedOrigins (robots : RobotsTxt) : Nat :=
  robots.domains_.length

example : (parseBody (ascii "ShadowSE/1.0") (ascii "User-agent: *\r\nDisallow: /s/ # private\n" ++
    ascii "Allow: /s/map\n\nUser-agent: other\nDisallow: /")).rules =
      [(false, ascii "/s/"), (true, ascii "/s/map")] := by decide

end RobotsTxt

end ShadowSe
