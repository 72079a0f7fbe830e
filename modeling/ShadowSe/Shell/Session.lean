import ShadowSe.Gateway.Handlers
import ShadowSe.Search.CrawlSearch
import ShadowSe.Search.Persistence
import ShadowSe.Storage.Loading

/-! The interactive shell: lines of a user between the steps of a crawl. What the index holds
is settled by the last load and by the pages filed since. -/

namespace ShadowSe

open Support

structure ActivityEvent where
  kind : Bytes
  url : Bytes
  text : Bytes
  deriving DecidableEq

structure ActivityLog where
  events_ : List ActivityEvent := []
  cap_ : Nat := 200

namespace ActivityLog

/-- The constructor. -/
def create (capacity : Nat) : ActivityLog :=
  { cap_ := if capacity = 0 then 1 else capacity }

/-- `add`: the oldest events make room. -/
def add (log : ActivityLog) (ev : ActivityEvent) : ActivityLog :=
  let events := log.events_ ++ [ev]
  { log with events_ := events.drop (events.length - log.cap_) }

/-- A log shows the last of all events. -/
def Shows (log : ActivityLog) (events : List ActivityEvent) : Prop :=
  log.events_ = events.drop (events.length - log.cap_)

theorem shows_create (capacity : Nat) : (create capacity).Shows [] := by
  simp [Shows, create]

theorem Shows.add {log : ActivityLog} {events : List ActivityEvent} (held : log.Shows events)
    (ev : ActivityEvent) : (log.add ev).Shows (events ++ [ev]) := by
  unfold Shows at held
  simp only [Shows, ActivityLog.add, held, List.length_append, List.length_drop,
    List.length_singleton]
  by_cases fits : events.length + 1 ≤ log.cap_
  · have none : events.length - log.cap_ = 0 := by omega
    rw [none, List.drop_zero, Nat.sub_zero]
  · rw [← List.drop_append_of_le_length (by omega), List.drop_drop]
    congr 1
    omega

theorem Shows.addAll {log : ActivityLog} {events : List ActivityEvent} (held : log.Shows events)
    (more : List ActivityEvent) : (more.foldl ActivityLog.add log).Shows (events ++ more) := by
  induction more generalizing log events with
  | nil => simpa using held
  | cons ev rest ih => simpa using ih (held.add ev)

theorem cap_addAll (log : ActivityLog) (more : List ActivityEvent) :
    (more.foldl ActivityLog.add log).cap_ = log.cap_ := by
  induction more generalizing log with
  | nil => rfl
  | cons ev rest ih => exact ih (log.add ev)

end ActivityLog

/-- The branches of the command loop. -/
inductive Command where
  | exit
  | help
  | status
  | admin
  | search (query : Bytes)
  | crawl (target : Bytes)
  | save (path : Bytes)
  | load (path : Bytes)
  | saveState (path : Bytes)
  | loadState (path : Bytes)
  | usage (text : Bytes)
  | nothing
  deriving DecidableEq

/-- A command with an argument, or how to use it. -/
def Command.withArgument (command : Bytes → Command) (text argument : Bytes) : Command :=
  if argument = [] then .usage text else command argument

/-- What the command loop makes of a line. -/
def Command.parse (line : Bytes) : Command :=
  let input := trimWs line
  if input = ascii "exit" ∨ input = ascii "quit" then .exit
  else if input = ascii "help" then .help
  else if input = ascii "status" then .status
  else if input = ascii "admin" then .admin
  else if input.startsWith (ascii "search ") then
    withArgument .search (ascii "search <query>") (trimWs (input.drop 7))
  else if input.startsWith (ascii "crawl ") then .crawl (trimWs (input.drop 6))
  else if input.startsWith (ascii "save ") then
    withArgument .save (ascii "save <path>") (trimWs (input.drop 5))
  else if input.startsWith (ascii "load ") then
    withArgument .load (ascii "load <path>") (trimWs (input.drop 5))
  else if input.startsWith (ascii "save-state ") then
    withArgument .saveState (ascii "save-state <path>") (trimWs (input.drop 11))
  else if input.startsWith (ascii "load-state ") then
    withArgument .loadState (ascii "load-state <path>") (trimWs (input.drop 11))
  else if input ≠ [] then .search input
  else .nothing

example : Command.parse (ascii " save-state  a b \n") = .saveState (ascii "a b") := by decide

/-- The file that a command writes. -/
def Command.writes : Command → Option Bytes
  | .save path | .saveState path => some path
  | _ => none

/-- What the shell says of a command that can fail. -/
inductive Reply where
  | needsUrl
  | queued (url : Bytes) (accepted : Bool)
  | emptyPassword
  | saved (result : Except Bytes Unit)
  | loaded (result : Except Bytes Unit)
  | usage (text : Bytes)

/-- The engine of a shell with its disk. The last three fields are history: the documents that
were loaded last, the number of pages filed before, and all events so far. -/
structure Session where
  crawler : Crawler
  disk : Disk
  activity : ActivityLog := .create 200
  running : Bool := true
  replies : List Reply := []
  base : List Document
  since : Nat := 0
  events : List ActivityEvent := []

inductive SessionStep where
  /-- The user enters a line and, where asked for one, a password. -/
  | line (input password : Bytes) (outcome : WriteOutcome)
    (random : (n : Nat) → { bytes : Bytes // bytes.length = n })
  /-- The end of the input. -/
  | endOfInput
  /-- A step of the crawler's threads. -/
  | crawler (action : CrawlerStep)

/-- The documents of `seedDemoData`. -/
def Engine.demoData : List Document :=
  [{ url := ascii "https://shadow-se.internal/intel/feed-2026"
     title := ascii "Shadow SE Threat Intelligence Feed"
     snippet := ascii "Clearweb crawler telemetry, TLS transparency logs, IOC correlation"
     content := ascii "Real-time clearweb crawler telemetry, TLS certificate " ++
       ascii "transparency logs, IOC correlation matrices, dark threat " ++
       ascii "intelligence reporting and sandbox analysis pipelines."
     source := .clearWeb },
   { url := ascii "https://github.com/alhassanshehade/shadow-se-docs"
     title := ascii "Open Source OSINT Framework Documentation"
     snippet :=
       ascii "Architecture overview for C++20 memory safety, sandboxing, index compression"
     content := ascii "Comprehensive architecture overview for the modern C++20 memory " ++
       ascii "safety model, sandboxing, inverted index compression, bm25 ranking " ++
       ascii "and tor routing used by the shadow search engine."
     source := .clearWeb },
   { url := ascii "http://shadow77ivq2cc3x.onion/index/vault"
     title := ascii "DeepNet Secured Vault // Index Node 04"
     snippet := ascii "Encrypted storage node with scraped telemetry, logs, historical metadata"
     content := ascii "Encrypted storage node containing scraped telemetry, logs and " ++
       ascii "historical metadata mapping across darknet hidden services. Indexed " ++
       ascii "onion vault maintained over the tor anonymity network."
     source := .onion },
   { url := ascii "http://anondrop55s3q5xx.onion/drop"
     title := ascii "Hidden Services Directory & Mirror"
     snippet := ascii "Decentralized onion drop point verified via SOCKS5 proxy routing loop"
     content := ascii "Decentralized onion drop point. Verified active via SOCKS5 proxy " ++
       ascii "routing loop against the local tor daemon on 127.0.0.1:9050. " ++
       ascii "Accepts mirror submissions and metadata exchange."
     source := .onion }]

/-- `Engine::seedDemoData`. -/
def Engine.seedDemoData (layout : Layout) (ix : InvertedIndex) : InvertedIndex :=
  Engine.demoData.foldl (InvertedIndex.addDocument layout) ix

/-- The event that the shell's `onDoc` logs. -/
def indexedEvent (doc : Document) : ActivityEvent where
  kind := ascii "indexed"
  url := doc.url
  text := doc.title

/-- The event that the shell's `onErr` logs. -/
def errorEvent (entry : Bytes × Bytes) : ActivityEvent where
  kind := ascii "error"
  url := entry.1
  text := entry.2

namespace Session

section Machine

variable (order : VisitOrder) (sodium : Sodium) (opts : CrawlerOptions) (layout : Layout)

/-- A shell that has just come up. -/
def start (bloom : BloomFilter) (clock : Int) (disk : Disk) : Session where
  crawler := { Crawler.create opts bloom clock with index := Engine.seedDemoData layout .empty }
  disk
  base := Engine.demoData

def answer (s : Session) (reply : Reply) : Session :=
  { s with replies := s.replies ++ [reply] }

/-- `Engine::shutdown` up to the joins. -/
def shutdown (s : Session) : Session :=
  { s with
    running := false
    crawler := { s.crawler with
      crawl := { s.crawler.crawl with frontier := s.crawler.crawl.frontier.requestStop } } }

/-- The engine after a load, successful or not. -/
def afterLoad (s : Session) (after : Except Bytes Unit × InvertedIndex)
    (decoded : Except Bytes (List Document)) : Session :=
  let next := { s with crawler := { s.crawler with index := after.2 } }
  match decoded with
  | .ok docs => { next with base := docs, since := s.crawler.filed.length }
  | .error _ => next

/-- What a command does. -/
def execute (s : Session) (password : Bytes) (outcome : WriteOutcome) : Command → Session
  | .exit => s.shutdown
  | .help | .status | .admin | .search _ | .nothing => s
  | .crawl target =>
    let url := normalizeUrl target
    if url = [] then s.answer .needsUrl
    else
      let (accepted, crawler) := Engine.crawl opts s.crawler url
      { s with crawler }.answer (.queued url accepted)
  | .save path =>
    if password = [] then s.answer .emptyPassword
    else
      let (result, disk) :=
        Engine.saveEncrypted sodium order s.crawler.index s.disk outcome path password
      { s with disk }.answer (.saved result)
  | .load path =>
    let after := Engine.loadEncrypted sodium 64 layout s.crawler.index s.disk path password
    (s.afterLoad after (loadEncryptedSnapshot sodium 64 s.disk path password)).answer
      (.loaded after.1)
  | .saveState path =>
    let (result, disk) := Engine.saveState order s.crawler.index s.disk outcome path
    { s with disk }.answer (.saved result)
  | .loadState path =>
    let after := Engine.loadState 64 layout s.crawler.index s.disk path
    (s.afterLoad after (loadSnapshot 64 s.disk path)).answer (.loaded after.1)
  | .usage text => s.answer (.usage text)

/-- The crawler's threads go on, and what they report is logged. -/
def follow (s : Session) (crawler : Crawler) : Session :=
  let events := (crawler.onDoc.drop s.crawler.onDoc.length).map indexedEvent ++
    (crawler.onErr.drop s.crawler.onErr.length).map errorEvent
  { s with
    crawler
    activity := events.foldl ActivityLog.add s.activity
    events := s.events ++ events }

def step (s : Session) : SessionStep → Option Session
  | .line input password outcome random =>
    if s.running then
      some (s.execute order { sodium with randombytes := random } opts layout password outcome
        (Command.parse input))
    else none
  | .endOfInput => if s.running then some s.shutdown else none
  -- The shell's own calls of the crawler are lines.
  | .crawler (.enqueue ..) | .crawler .stop => none
  | .crawler action => (s.crawler.step opts layout action).map s.follow

/-- A user at the shell, and the crawler's threads. -/
def machine : Machine Session SessionStep :=
  ⟨step order sodium opts layout⟩

end Machine

end Session

end ShadowSe
