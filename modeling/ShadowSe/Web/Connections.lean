import ShadowSe.Support.Machine
import ShadowSe.Support.Monitor
import ShadowSe.Web.Transfer

/-! The accepting loop of the search front end and the threads it starts. Each atomic access
to `active_` and `running_` and each system call is one step. -/

namespace ShadowSe.WebServer

open Support

/-- Where a connection stands: with the accepting thread, then with a thread of its own. -/
inductive ConnectionPhase where
  | accepted
  /-- `active_` has been read and leaves no room. -/
  | refusing
  | refused
  | dismissed
  /-- `active_` has been read and leaves room. -/
  | admitted
  | counted
  | serving
  | served
  | closed
  | finished
  deriving DecidableEq

/-- The accepting thread is at the connection. -/
def ConnectionPhase.isNew : ConnectionPhase → Bool
  | .accepted | .refusing | .refused | .admitted | .counted => true
  | .dismissed | .serving | .served | .closed | .finished => false

/-- The connection is counted in `active_`. -/
def ConnectionPhase.isActive : ConnectionPhase → Bool
  | .counted | .serving | .served | .closed => true
  | .accepted | .refusing | .refused | .dismissed | .admitted | .finished => false

/-- A connection with its history: what was sent on it and how often it was closed. -/
structure Connection where
  phase : ConnectionPhase := .accepted
  sent : List Response := []
  closes : Nat := 0

/-- The accepting thread: before the test of `running_`, in `accept`, at a connection, or out
of `runForever`. -/
inductive Acceptor where
  | looping
  | accepting
  | handling (connection : Nat)
  | returned
  deriving DecidableEq

structure ServerState where
  running_ : Bool := true
  listening : Bool := true
  acceptor : Acceptor := .looping
  active_ : Nat := 0
  connections : List Connection := []

inductive ServerStep where
  | loop
  | accept
  | acceptFails (interrupted : Bool)
  | check
  | refuse
  | dismiss
  | count
  | spawn
  | serve (connection : Nat) (chunks : List Bytes)
  | close (connection : Nat)
  | uncount (connection : Nat)
  /-- `stop` clears `running_`. -/
  | stop
  | shutdown

/-- A step at a connection, by the accepting thread or the connection's own. -/
def ServerStep.isOwn : ServerStep → Bool
  | .check | .refuse | .dismiss | .count | .spawn | .serve _ _ | .close _ | .uncount _ => true
  | .loop | .accept | .acceptFails _ | .stop | .shutdown => false

namespace ServerState

/-- Move a connection from one phase to another. -/
def move (s : ServerState) (index : Nat) (source : ConnectionPhase)
    (change : Connection → Connection) : Option (List Connection) :=
  match s.connections[index]? with
  | some connection =>
    if connection.phase = source then some (s.connections.set index (change connection)) else none
  | none => none

/-- The accepting thread moves the connection it is at. -/
def moveNew (s : ServerState) (source : ConnectionPhase) (change : Connection → Connection) :
    Option (List Connection) :=
  match s.acceptor with
  | .handling index => s.move index source change
  | .looping | .accepting | .returned => none

def step (maxConns : Nat) (answer : List Bytes → Option Response) (s : ServerState) :
    ServerStep → Option ServerState
  | .loop =>
    if s.acceptor = .looping then
      some { s with acceptor := if s.running_ then .accepting else .returned }
    else none
  | .accept =>
    if s.acceptor = .accepting ∧ s.listening = true then
      some { s with
        acceptor := .handling s.connections.length
        connections := s.connections ++ [{}] }
    else none
  | .acceptFails interrupted =>
    if s.acceptor = .accepting then
      some { s with
        acceptor := if interrupted then .looping else if s.running_ then .looping else .returned }
    else none
  | .check =>
    (s.moveNew .accepted fun connection =>
      { connection with phase := if maxConns ≤ s.active_ then .refusing else .admitted }).map
        fun connections => { s with connections }
  | .refuse =>
    (s.moveNew .refusing fun connection =>
      { connection with phase := .refused, sent := connection.sent ++ [busy] }).map
        fun connections => { s with connections }
  | .dismiss =>
    (s.moveNew .refused fun connection =>
      { connection with phase := .dismissed, closes := connection.closes + 1 }).map
        fun connections => { s with connections, acceptor := .looping }
  | .count =>
    (s.moveNew .admitted fun connection => { connection with phase := .counted }).map
      fun connections => { s with connections, active_ := s.active_ + 1 }
  | .spawn =>
    (s.moveNew .counted fun connection => { connection with phase := .serving }).map
      fun connections => { s with connections, acceptor := .looping }
  | .serve index chunks =>
    (s.move index .serving fun connection =>
      { connection with
        phase := .served
        sent := connection.sent ++ (answer chunks).toList }).map
          fun connections => { s with connections }
  | .close index =>
    (s.move index .served fun connection =>
      { connection with phase := .closed, closes := connection.closes + 1 }).map
        fun connections => { s with connections }
  | .uncount index =>
    (s.move index .closed fun connection => { connection with phase := .finished }).map
      fun connections => { s with connections, active_ := s.active_ - 1 }
  | .stop => some { s with running_ := false }
  | .shutdown => if s.running_ then none else some { s with listening := false }

/-- `runForever` with the threads it starts, any clients and any calls of `stop`. -/
def machine (maxConns : Nat) (answer : List Bytes → Option Response) :
    Machine ServerState ServerStep :=
  ⟨step maxConns answer⟩

variable {maxConns : Nat} {answer : List Bytes → Option Response} {s next : ServerState}

theorem move_some {index : Nat} {source : ConnectionPhase} {change : Connection → Connection}
    {connections : List Connection} (moved : s.move index source change = some connections) :
    ∃ connection, s.connections[index]? = some connection ∧ connection.phase = source ∧
      connections = s.connections.set index (change connection) := by
  unfold move at moved
  split at moved
  · rename_i connection found
    split at moved
    · rename_i same
      exact ⟨connection, found, same, (Option.some.inj moved).symm⟩
    · cases moved
  · cases moved

theorem moveNew_some {source : ConnectionPhase} {change : Connection → Connection}
    {connections : List Connection} (moved : s.moveNew source change = some connections) :
    ∃ index connection, s.acceptor = .handling index ∧
      s.connections[index]? = some connection ∧ connection.phase = source ∧
      connections = s.connections.set index (change connection) := by
  unfold moveNew at moved
  split at moved
  · rename_i index at_
    obtain ⟨connection, found, same, set⟩ := move_some moved
    exact ⟨index, connection, at_, found, same, set⟩
  · cases moved
  · cases moved
  · cases moved

end ServerState

/-- What has become of a connection in each phase: what was sent on it, and whether it is
closed. -/
def Connection.Kept (answer : List Bytes → Option Response) (connection : Connection) : Prop :=
  match connection.phase with
  | .accepted | .refusing | .admitted | .counted | .serving =>
    connection.sent = [] ∧ connection.closes = 0
  | .refused => connection.sent = [busy] ∧ connection.closes = 0
  | .dismissed => connection.sent = [busy] ∧ connection.closes = 1
  | .served => (∃ chunks, connection.sent = (answer chunks).toList) ∧ connection.closes = 0
  | .closed | .finished =>
    (∃ chunks, connection.sent = (answer chunks).toList) ∧ connection.closes = 1

namespace ServerState

variable {maxConns : Nat} {answer : List Bytes → Option Response} {s next : ServerState}

/-- The connections that count. -/
def activeCount (connections : List Connection) : Nat :=
  totalWeight (fun connection : Connection => connection.phase.isActive.toNat) connections

/-- The counter tells the truth, and the accepting thread is at the one connection that has
no thread yet. -/
structure Counted (maxConns : Nat) (answer : List Bytes → Option Response) (s : ServerState) :
    Prop where
  active : s.active_ = activeCount s.connections
  capped : s.active_ ≤ maxConns
  kept : ∀ connection ∈ s.connections, connection.Kept answer
  new : ∀ (index : Nat) connection, s.connections[index]? = some connection →
    (connection.phase.isNew = true ↔ s.acceptor = .handling index)
  inside : ∀ index, s.acceptor = .handling index → index < s.connections.length
  /-- Only the accepting thread counts up, so room it has found stays. -/
  room : ∀ (index : Nat) connection, s.connections[index]? = some connection →
    connection.phase = .admitted → s.active_ < maxConns

theorem counted_create : Counted maxConns answer {} := by
  constructor <;> simp [activeCount]

/-- One connection moves, and the accepting thread with it if it is there. -/
private theorem Counted.set (held : s.Counted maxConns answer) {index active : Nat}
    {before after : Connection} {acceptor : Acceptor}
    (found : s.connections[index]? = some before) (kept : after.Kept answer)
    (counted : active + before.phase.isActive.toNat = s.active_ + after.phase.isActive.toNat)
    (capped : active ≤ maxConns)
    (here : after.phase.isNew = true ↔ acceptor = .handling index)
    (elsewhere : ∀ other, other ≠ index →
      (acceptor = .handling other ↔ s.acceptor = .handling other))
    (roomy : after.phase = .admitted → active < maxConns)
    (shrinks : s.acceptor ≠ .handling index → active ≤ s.active_) :
    Counted maxConns answer
      { s with connections := s.connections.set index after, active_ := active, acceptor } := by
  have within := (List.getElem?_eq_some_iff.mp found).1
  have moved := totalWeight_set
    (fun connection : Connection => connection.phase.isActive.toNat) found after
  constructor
  · have active := held.active
    simp only [activeCount] at active ⊢
    omega
  · exact capped
  · intro connection member
    rcases List.mem_or_eq_of_mem_set member with old | rfl
    · exact held.kept connection old
    · exact kept
  · intro other connection current
    by_cases same : other = index
    · subst other
      rw [List.getElem?_set_self within] at current
      cases Option.some.inj current
      exact here
    · rw [List.getElem?_set_ne (Ne.symm same)] at current
      exact (held.new other connection current).trans (elsewhere other same).symm
  · intro other at_
    rw [List.length_set]
    by_cases same : other = index
    · exact same ▸ within
    · exact held.inside other ((elsewhere other same).mp at_)
  · intro other connection current admitted
    by_cases same : other = index
    · subst other
      rw [List.getElem?_set_self within] at current
      cases Option.some.inj current
      exact roomy admitted
    · rw [List.getElem?_set_ne (Ne.symm same)] at current
      have at_ := (held.new other connection current).mp (by rw [admitted]; rfl)
      have room := held.room other connection current admitted
      refine (shrinks fun here => same ?_).trans_lt room
      exact Acceptor.handling.inj (at_.symm.trans here)

private theorem Counted.stay (held : s.Counted maxConns answer) {index active : Nat}
    {before after : Connection} (at_ : s.acceptor = .handling index)
    (found : s.connections[index]? = some before) (kept : after.Kept answer)
    (counted : active + before.phase.isActive.toNat = s.active_ + after.phase.isActive.toNat)
    (capped : active ≤ maxConns) (new : after.phase.isNew = true)
    (roomy : after.phase = .admitted → active < maxConns) :
    Counted maxConns answer
      { s with connections := s.connections.set index after, active_ := active } :=
  held.set found kept counted capped (by simp [new, at_]) (fun _ _ => Iff.rfl) roomy
    (absurd at_)

private theorem Counted.leave (held : s.Counted maxConns answer) {index : Nat}
    {before after : Connection} (at_ : s.acceptor = .handling index)
    (found : s.connections[index]? = some before) (kept : after.Kept answer)
    (same : before.phase.isActive = after.phase.isActive) (old : after.phase.isNew = false) :
    Counted maxConns answer
      { s with connections := s.connections.set index after, acceptor := .looping } := by
  refine held.set found kept (by rw [same]) held.capped (by simp [old]) (fun other differs => ?_)
    (fun admitted => ?_) (fun _ => Nat.le_refl _)
  · rw [at_]
    simp [Ne.symm differs]
  · rw [admitted] at old
    cases old

private theorem Counted.thread (held : s.Counted maxConns answer) {index active : Nat}
    {before after : Connection} (found : s.connections[index]? = some before)
    (kept : after.Kept answer)
    (counted : active + before.phase.isActive.toNat = s.active_ + after.phase.isActive.toNat)
    (less : active ≤ s.active_) (own : before.phase.isNew = false)
    (old : after.phase.isNew = false) :
    Counted maxConns answer
      { s with connections := s.connections.set index after, active_ := active } := by
  refine held.set found kept counted (less.trans held.capped) ?_ (fun _ _ => Iff.rfl)
    (fun admitted => ?_) (fun _ => less)
  · have away := held.new index before found
    simpa [old, own] using away
  · rw [admitted] at old
    cases old

private theorem Counted.kept_at (held : s.Counted maxConns answer) {index : Nat}
    {connection : Connection} (found : s.connections[index]? = some connection) :
    connection.Kept answer :=
  held.kept connection (List.mem_of_getElem? found)

private theorem Counted.accept (held : s.Counted maxConns answer)
    (waiting : s.acceptor = .accepting) :
    Counted maxConns answer
      { s with
        acceptor := .handling s.connections.length
        connections := s.connections ++ [{}] } := by
  have alone (index : Nat) (connection : Connection)
      (found : (s.connections ++ [({} : Connection)])[index]? = some connection) :
      index = s.connections.length ∧ connection = {} ∨
        s.connections[index]? = some connection ∧ connection.phase.isNew = false := by
    rw [List.getElem?_append] at found
    split at found
    · refine .inr ⟨found, ?_⟩
      have away := held.new index connection found
      rw [waiting] at away
      simpa using away
    · have position := (List.getElem?_eq_some_iff.mp found).1
      rw [List.length_singleton] at position
      have last : index = s.connections.length := by omega
      subst last
      rw [Nat.sub_self] at found
      exact .inl ⟨rfl, (Option.some.inj found).symm⟩
  constructor
  · simp [activeCount, held.active, ConnectionPhase.isActive]
  · exact held.capped
  · intro connection member
    rcases List.mem_append.mp member with old | new
    · exact held.kept connection old
    · cases List.mem_singleton.mp new
      exact ⟨rfl, rfl⟩
  · intro index connection found
    rcases alone index connection found with ⟨rfl, rfl⟩ | ⟨old, settled⟩
    · exact ⟨fun _ => rfl, fun _ => rfl⟩
    · have within := (List.getElem?_eq_some_iff.mp old).1
      rw [settled]
      simp
      omega
  · intro index at_
    cases Acceptor.handling.inj at_
    simp
  · intro index connection found admitted
    rcases alone index connection found with ⟨rfl, rfl⟩ | ⟨old, settled⟩
    · cases admitted
    · rw [admitted] at settled
      cases settled

private theorem Counted.roam (held : s.Counted maxConns answer) {acceptor : Acceptor}
    (source : ∀ index, s.acceptor ≠ .handling index)
    (target : ∀ index, acceptor ≠ .handling index) :
    Counted maxConns answer { s with acceptor } := by
  refine ⟨held.active, held.capped, held.kept, fun index connection found => ?_,
    fun index at_ => absurd at_ (target index), held.room⟩
  refine (held.new index connection found).trans ?_
  simp [source index, target index]

theorem Counted.step (held : s.Counted maxConns answer) (action : ServerStep)
    (taken : ServerState.step maxConns answer s action = some next) :
    next.Counted maxConns answer := by
  cases action with
  | loop =>
    simp only [ServerState.step, Option.ite_none_right_eq_some, Option.some.injEq] at taken
    obtain ⟨at_, rfl⟩ := taken
    refine held.roam (by simp [at_]) fun index => ?_
    split <;> simp
  | accept =>
    simp only [ServerState.step, Option.ite_none_right_eq_some, Option.some.injEq] at taken
    obtain ⟨⟨at_, _⟩, rfl⟩ := taken
    exact held.accept at_
  | acceptFails interrupted =>
    simp only [ServerState.step, Option.ite_none_right_eq_some, Option.some.injEq] at taken
    obtain ⟨at_, rfl⟩ := taken
    refine held.roam (by simp [at_]) fun index => ?_
    split_ifs <;> simp
  | check =>
    obtain ⟨connections, moved, rfl⟩ := Option.map_eq_some_iff.mp taken
    obtain ⟨index, connection, at_, found, phase, rfl⟩ := moveNew_some moved
    have kept := held.kept_at found
    rw [Connection.Kept, phase] at kept
    by_cases full : maxConns ≤ s.active_
    · rw [if_pos full]
      exact held.stay at_ found kept (by rw [phase]; rfl) held.capped rfl nofun
    · rw [if_neg full]
      exact held.stay at_ found kept (by rw [phase]; rfl) held.capped rfl
        fun _ => Nat.not_le.mp full
  | refuse =>
    obtain ⟨connections, moved, rfl⟩ := Option.map_eq_some_iff.mp taken
    obtain ⟨index, connection, at_, found, phase, rfl⟩ := moveNew_some moved
    have kept := held.kept_at found
    rw [Connection.Kept, phase] at kept
    exact held.stay at_ found ⟨by simp [kept.1], kept.2⟩ (by rw [phase]; rfl) held.capped rfl nofun
  | dismiss =>
    obtain ⟨connections, moved, rfl⟩ := Option.map_eq_some_iff.mp taken
    obtain ⟨index, connection, at_, found, phase, rfl⟩ := moveNew_some moved
    have kept := held.kept_at found
    rw [Connection.Kept, phase] at kept
    exact held.leave at_ found ⟨kept.1, by simp [kept.2]⟩ (by rw [phase]; rfl) rfl
  | count =>
    obtain ⟨connections, moved, rfl⟩ := Option.map_eq_some_iff.mp taken
    obtain ⟨index, connection, at_, found, phase, rfl⟩ := moveNew_some moved
    have kept := held.kept_at found
    rw [Connection.Kept, phase] at kept
    exact held.stay at_ found kept (by rw [phase]; rfl) (held.room index connection found phase)
      rfl nofun
  | spawn =>
    obtain ⟨connections, moved, rfl⟩ := Option.map_eq_some_iff.mp taken
    obtain ⟨index, connection, at_, found, phase, rfl⟩ := moveNew_some moved
    have kept := held.kept_at found
    rw [Connection.Kept, phase] at kept
    exact held.leave at_ found kept (by rw [phase]; rfl) rfl
  | serve index chunks =>
    obtain ⟨connections, moved, rfl⟩ := Option.map_eq_some_iff.mp taken
    obtain ⟨connection, found, phase, rfl⟩ := move_some moved
    have kept := held.kept_at found
    rw [Connection.Kept, phase] at kept
    exact held.thread found ⟨⟨chunks, by simp [kept.1]⟩, kept.2⟩ (by rw [phase]; rfl)
      (Nat.le_refl _) (by rw [phase]; rfl) rfl
  | close index =>
    obtain ⟨connections, moved, rfl⟩ := Option.map_eq_some_iff.mp taken
    obtain ⟨connection, found, phase, rfl⟩ := move_some moved
    have kept := held.kept_at found
    rw [Connection.Kept, phase] at kept
    exact held.thread found ⟨kept.1, by simp [kept.2]⟩ (by rw [phase]; rfl) (Nat.le_refl _)
      (by rw [phase]; rfl) rfl
  | uncount index =>
    obtain ⟨connections, moved, rfl⟩ := Option.map_eq_some_iff.mp taken
    obtain ⟨connection, found, phase, rfl⟩ := move_some moved
    have kept := held.kept_at found
    rw [Connection.Kept, phase] at kept
    have counted : 0 < s.active_ := by
      have moved := totalWeight_set
        (fun connection : Connection => connection.phase.isActive.toNat) found
          { connection with phase := .finished }
      have active := held.active
      simp only [activeCount, phase, ConnectionPhase.isActive, Bool.toNat_true,
        Bool.toNat_false] at moved active
      omega
    refine held.thread found kept ?_ (Nat.sub_le _ _) (by rw [phase]; rfl) rfl
    rw [phase]
    exact Nat.sub_add_cancel counted
  | stop =>
    cases Option.some.inj taken
    exact ⟨held.active, held.capped, held.kept, held.new, held.inside, held.room⟩
  | shutdown =>
    simp only [ServerState.step, Option.ite_none_left_eq_some, Option.some.injEq] at taken
    obtain ⟨_, rfl⟩ := taken
    exact ⟨held.active, held.capped, held.kept, held.new, held.inside, held.room⟩

theorem counted_of_reachable (reached : (machine maxConns answer).Reachable {} s) :
    s.Counted maxConns answer :=
  reached.invariant counted_create fun _ action _ held _ taken => held.step action taken

theorem Counted.sent (held : s.Counted maxConns answer) {connection : Connection}
    (member : connection ∈ s.connections) :
    connection.closes ≤ 1 ∧ connection.sent.length ≤ 1 ∧
      ∀ response ∈ connection.sent, response = busy ∨ ∃ chunks, answer chunks = some response := by
  have kept := held.kept connection member
  have own (chunks : List Bytes) : (answer chunks).toList.length ≤ 1 ∧
      ∀ response ∈ (answer chunks).toList, response = busy ∨
        ∃ chunks, answer chunks = some response := by
    cases answered : answer chunks with
    | none => simp
    | some response =>
      refine ⟨Nat.le_refl 1, fun other inside => .inr ⟨chunks, ?_⟩⟩
      rw [answered, List.mem_singleton.mp inside]
  unfold Connection.Kept at kept
  cases phase : connection.phase with
  | accepted | refusing | admitted | counted | serving =>
    rw [phase] at kept
    simp [kept.1, kept.2]
  | refused | dismissed =>
    rw [phase] at kept
    simp [kept.1, kept.2]
  | served | closed | finished =>
    rw [phase] at kept
    obtain ⟨⟨chunks, sent⟩, closes⟩ := kept
    rw [sent, closes]
    exact ⟨by decide, own chunks⟩

/-- With nothing left to do at a connection, it is closed. -/
theorem Counted.settled (held : s.Counted maxConns answer)
    (rest : ∀ action : ServerStep, action.isOwn = true →
      ServerState.step maxConns answer s action = none)
    {connection : Connection} (member : connection ∈ s.connections) :
    connection.phase = .dismissed ∨ connection.phase = .finished := by
  obtain ⟨index, found⟩ := List.mem_iff_getElem?.mp member
  have moves {source : ConnectionPhase} (phase : connection.phase = source)
      (change : Connection → Connection) :
      s.move index source change = some (s.connections.set index (change connection)) := by
    simp [move, found, phase]
  have movesNew {source : ConnectionPhase} (phase : connection.phase = source)
      (new : source.isNew = true) (change : Connection → Connection) :
      s.moveNew source change = some (s.connections.set index (change connection)) := by
    have at_ := (held.new index connection found).mp (phase ▸ new)
    rw [moveNew, at_]
    exact moves phase change
  cases phase : connection.phase with
  | dismissed => exact .inl rfl
  | finished => exact .inr rfl
  | accepted =>
    have blocked := rest .check rfl
    simp [ServerState.step, movesNew phase rfl] at blocked
  | refusing =>
    have blocked := rest .refuse rfl
    simp [ServerState.step, movesNew phase rfl] at blocked
  | refused =>
    have blocked := rest .dismiss rfl
    simp [ServerState.step, movesNew phase rfl] at blocked
  | admitted =>
    have blocked := rest .count rfl
    simp [ServerState.step, movesNew phase rfl] at blocked
  | counted =>
    have blocked := rest .spawn rfl
    simp [ServerState.step, movesNew phase rfl] at blocked
  | serving =>
    have blocked := rest (.serve index []) rfl
    simp [ServerState.step, moves phase] at blocked
  | served =>
    have blocked := rest (.close index) rfl
    simp [ServerState.step, moves phase] at blocked
  | closed =>
    have blocked := rest (.uncount index) rfl
    simp [ServerState.step, moves phase] at blocked

/-- Whatever clients and threads do, `active_` is the number of connections that count, from
before their thread starts until after it has closed them, and stays within `maxConns`; a client
is refused exactly when that many count, and gets the busy response; a connection is closed at
most once and gets at most one response; and when nothing is left to do at any connection, each
has been closed and none counts. -/
theorem connections_served (maxConns : Nat) (answer : List Bytes → Option Response)
    (reached : (machine maxConns answer).Reachable {} s) :
    s.active_ = s.connections.countP (·.phase.isActive) ∧ s.active_ ≤ maxConns ∧
    (∀ connection ∈ s.connections, connection.closes ≤ 1 ∧ connection.sent.length ≤ 1 ∧
      ∀ response ∈ connection.sent, response = busy ∨ ∃ chunks, answer chunks = some response) ∧
    (∀ index connection next, s.acceptor = .handling index →
      ServerState.step maxConns answer s .check = some next →
      next.connections[index]? = some connection →
      (connection.phase = .refusing ↔ s.active_ = maxConns)) ∧
    (∀ connection ∈ s.connections,
      connection.phase = .refused ∨ connection.phase = .dismissed → connection.sent = [busy]) ∧
    ((∀ action : ServerStep, action.isOwn = true →
        ServerState.step maxConns answer s action = none) →
      s.active_ = 0 ∧ ∀ connection ∈ s.connections, connection.closes = 1) := by
  have held := counted_of_reachable reached
  have active := held.active
  rw [activeCount, totalWeight_toNat fun connection : Connection => connection.phase.isActive]
    at active
  refine ⟨active, held.capped, fun _ member => held.sent member, ?_, ?_, fun rest => ⟨?_, ?_⟩⟩
  · intro index connection next at_ taken found
    obtain ⟨connections, moved, rfl⟩ := Option.map_eq_some_iff.mp taken
    obtain ⟨position, before, here, present, _, rfl⟩ := moveNew_some moved
    cases Acceptor.handling.inj (here.symm.trans at_)
    rw [List.getElem?_set_self (List.getElem?_eq_some_iff.mp present).1] at found
    cases Option.some.inj found
    have capped := held.capped
    by_cases full : maxConns ≤ s.active_
    · simp only [if_pos full, true_iff]
      omega
    · simp only [if_neg full, reduceCtorEq, false_iff]
      omega
  · intro connection member phase
    have kept := held.kept connection member
    unfold Connection.Kept at kept
    rcases phase with phase | phase
    · rw [phase] at kept
      exact kept.1
    · rw [phase] at kept
      exact kept.1
  · rw [active, List.countP_eq_zero]
    intro connection member
    rcases held.settled rest member with phase | phase
    · simp [phase, ConnectionPhase.isActive]
    · simp [phase, ConnectionPhase.isActive]
  · intro connection member
    have kept := held.kept connection member
    unfold Connection.Kept at kept
    rcases held.settled rest member with phase | phase
    · rw [phase] at kept
      exact kept.2
    · rw [phase] at kept
      exact kept.2

/-- Room for one connection: while it is being served a second client is refused, a third
comes after it has left. -/
def threeClients : List ServerStep :=
  [.loop, .accept, .check, .count, .spawn, .loop, .accept, .check, .refuse, .dismiss,
    .serve 0 [], .close 0, .uncount 0, .loop, .accept, .check, .count, .spawn, .stop,
    .serve 2 [ascii "GET / HTTP/1.1\r\n\r\n"]]

theorem connections_served_threeClients :
    ∃ s, (machine 1 (handleClient ℝ .stored {} .empty)).run {} threeClients = some s ∧
      s.connections.map (fun connection => (connection.sent.length, connection.closes)) =
        [(0, 1), (1, 1), (1, 0)] ∧
      s.active_ = s.connections.countP (·.phase.isActive) ∧ s.active_ ≤ 1 := by
  have ran : (machine 1 (handleClient ℝ .stored {} .empty)).run {} threeClients = some _ := rfl
  have served := connections_served 1 _ (Machine.reachable_of_run ran)
  exact ⟨_, ran, rfl, served.1, served.2.1⟩

end ServerState

end ShadowSe.WebServer
