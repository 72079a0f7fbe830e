import ShadowSe.Search.SearchExact
import ShadowSe.Support.Machine

/-! Ranking while other threads change the index. `rank` takes the lock once for each
index call, so any number of writes may come between two of its calls. -/

namespace ShadowSe

open Support BM25Ranker

variable {D : Type} [Double D]

namespace BM25Ranker

/-- The arguments of a call of `rank`, with the traversal order of its accumulator. -/
structure Call (D : Type) where
  order : VisitOrder
  params : Params D
  queryTokens : List Bytes
  limit : Nat

/-- Where a call stands between two of its index calls. -/
inductive Phase (D : Type) where
  | started
  | counted (N : D)
  | atTerm (N avgdl : D) (accum : Table Nat D) (rest : List Bytes)
  | atPosting (N avgdl : D) (accum : Table Nat D) (postingCount : Nat) (list : List Posting)
      (rest : List Bytes)
  | resolving (entries : Table.Entries Nat D) (results : List (ScoredDocument D))
  | returned (results : List (ScoredDocument D))

/-- The call up to its next index call, made on the index as it is now. -/
def Call.next (call : Call D) (ix : InvertedIndex) : Phase D → Option (Phase D)
  | .started =>
    if call.queryTokens = [] then some (.returned []) else some (.counted (ix.documentCount : D))
  | .counted N =>
    let avgdl := ix.averageDocLength D
    if N = 0.0 ∨ avgdl ≤ 0.0 then some (.returned [])
    else some (.atTerm N avgdl ∅ (uniqueTerms call.queryTokens))
  | .atTerm _ _ accum [] => some (.resolving (call.order.visit accum.entries) [])
  | .atTerm N avgdl accum (term :: rest) =>
    match ix.postings term with
    | none => some (.atTerm N avgdl accum rest)
    | some list => some (.atPosting N avgdl accum list.length list rest)
  | .atPosting N avgdl accum _ [] rest => some (.atTerm N avgdl accum rest)
  | .atPosting N avgdl accum postingCount (p :: list) rest =>
    let amount := termScore call.params N avgdl postingCount p.termFreq (ix.docLength p.docId)
    some (.atPosting N avgdl (accumulate accum p.docId amount) postingCount list rest)
  | .resolving [] results => some (.returned (finish results call.limit))
  | .resolving (⟨docId, score⟩ :: entries) results =>
    match ix.document docId with
    | none => some (.resolving entries results)
    | some doc => some (.resolving entries (results ++ [⟨doc, score⟩]))
  | .returned _ => none

/-- The index shared with the writers, and the phase of the call. -/
structure Shared (D : Type) where
  ix : InvertedIndex
  phase : Phase D

inductive Turn where
  | read
  | write (op : IndexOp)

/-- One call of `rank` among writers. -/
def Call.machine (call : Call D) (layout : Layout) : Machine (Shared D) Turn where
  step state
    | .read => (call.next state.ix state.phase).map fun phase => { state with phase }
    | .write op => some { state with ix := op.apply layout state.ix }

/-- The ids a call has taken from posting lists and not yet resolved. -/
def Phase.collected : Phase D → List Nat
  | .started | .counted _ | .returned _ => []
  | .atTerm _ _ accum _ => accum.entries.keys
  | .atPosting _ _ accum _ list _ => list.map (·.docId) ++ accum.entries.keys
  | .resolving entries _ => entries.keys

/-- The query terms whose posting lists are still to be read. -/
def Phase.remaining : Phase D → List Bytes
  | .atTerm _ _ _ rest | .atPosting _ _ _ _ _ rest => rest
  | .started | .counted _ | .resolving .. | .returned _ => []

/-- The results fetched so far. -/
def Phase.results : Phase D → List (ScoredDocument D)
  | .resolving _ results | .returned results => results
  | .started | .counted _ | .atTerm .. | .atPosting .. => []

/-- The document contains one of the query's tokens. -/
def Call.Matches (call : Call D) (doc : Document) : Prop :=
  ∃ token ∈ call.queryTokens, token ∈ doc.tokens

/-- A write leaves no document without a query token under an id already collected. -/
def Call.SparesCollected (call : Call D) (layout : Layout) (state : Shared D) : Turn → Prop
  | .read => True
  | .write op => ∀ id ∈ state.phase.collected, ∀ doc,
      (op.apply layout state.ix).document id = some doc → call.Matches doc

/-- Turns that only read. -/
def Quiet (_ : Shared D) (turn : Turn) : Prop :=
  turn = .read

section Quiet

variable (call : Call D) (layout : Layout) (ix : InvertedIndex)

private theorem quiet_step {call : Call D} {layout : Layout} {ix : InvertedIndex}
    {start : Shared D} {phase next : Phase D}
    (earlier : (call.machine layout).Reaches Quiet start ⟨ix, phase⟩)
    (taken : call.next ix phase = some next) :
    (call.machine layout).Reaches Quiet start ⟨ix, next⟩ :=
  .step .read earlier rfl (by simp [Call.machine, taken])

theorem quiet_postings (N avgdl : D) (postingCount : Nat) (list : List Posting)
    (accum : Table Nat D) (rest : List Bytes) :
    (call.machine layout).Reaches Quiet ⟨ix, .atPosting N avgdl accum postingCount list rest⟩
      ⟨ix, .atTerm N avgdl (list.foldl (fun accum p => accumulate accum p.docId
        (termScore call.params N avgdl postingCount p.termFreq (ix.docLength p.docId))) accum)
        rest⟩ := by
  induction list generalizing accum with
  | nil => exact quiet_step .refl rfl
  | cons p list ih => exact (quiet_step .refl rfl).trans (ih _)

theorem quiet_terms (N avgdl : D) (terms : List Bytes) (accum : Table Nat D) :
    (call.machine layout).Reaches Quiet ⟨ix, .atTerm N avgdl accum terms⟩
      ⟨ix, .resolving (call.order.visit
        (terms.foldl (scoreTerm call.params N avgdl ix) accum).entries) []⟩ := by
  induction terms generalizing accum with
  | nil => exact quiet_step .refl rfl
  | cons term rest ih =>
    rw [List.foldl_cons]
    cases found : ix.postings term with
    | none =>
      have same : scoreTerm call.params N avgdl ix accum term = accum := by
        simp [scoreTerm, found]
      rw [same]
      exact (quiet_step .refl (by simp [Call.next, found])).trans (ih accum)
    | some list =>
      have walked := quiet_postings call layout ix N avgdl list.length list accum rest
      have scored : scoreTerm call.params N avgdl ix accum term =
          list.foldl (fun accum p => accumulate accum p.docId (termScore call.params N avgdl
            list.length p.termFreq (ix.docLength p.docId))) accum := by
        simp [scoreTerm, found]
      rw [scored]
      exact ((quiet_step .refl (by simp [Call.next, found])).trans walked).trans (ih _)

/-- Resolving the collected ids fetches the documents that are still there. -/
theorem quiet_resolve (entries : Table.Entries Nat D) (results : List (ScoredDocument D)) :
    (call.machine layout).Reaches Quiet ⟨ix, .resolving entries results⟩
      ⟨ix, .returned (finish (results ++ entries.filterMap fun entry =>
        (ix.document entry.1).map fun doc => ⟨doc, entry.2⟩) call.limit)⟩ := by
  induction entries generalizing results with
  | nil => exact quiet_step .refl (by simp [Call.next])
  | cons entry rest ih =>
    obtain ⟨docId, score⟩ := entry
    cases found : ix.document docId with
    | none =>
      have step : call.next ix (.resolving (⟨docId, score⟩ :: rest) results) =
          some (.resolving rest results) := by simp [Call.next, found]
      simpa [found] using (quiet_step .refl step).trans (ih results)
    | some doc =>
      have step : call.next ix (.resolving (⟨docId, score⟩ :: rest) results) =
          some (.resolving rest (results ++ [⟨doc, score⟩])) := by simp [Call.next, found]
      have later := (quiet_step .refl step).trans (ih (results ++ [⟨doc, score⟩]))
      simpa [found] using later

/-- Past the guards, a call collects the accumulator of all its terms. -/
theorem quiet_collect (asked : call.queryTokens ≠ [])
    (open_ : ¬ ((ix.documentCount : D) = 0.0 ∨ ix.averageDocLength D ≤ 0.0)) :
    (call.machine layout).Reaches Quiet ⟨ix, .started⟩ ⟨ix, .resolving (call.order.visit
      ((uniqueTerms call.queryTokens).foldl (scoreTerm call.params (ix.documentCount : D)
        (ix.averageDocLength D) ix) ∅).entries) []⟩ := by
  have counted : call.next ix .started = some (.counted (ix.documentCount : D)) := by
    simp [Call.next, asked]
  have opened : call.next ix (.counted (ix.documentCount : D)) = some (.atTerm
      (ix.documentCount : D) (ix.averageDocLength D) ∅ (uniqueTerms call.queryTokens)) := by
    simp [Call.next, open_]
  exact (quiet_step (quiet_step .refl counted) opened).trans (quiet_terms call layout ix _ _ _ _)

theorem quiet_rank : (call.machine layout).Reaches Quiet ⟨ix, .started⟩
    ⟨ix, .returned (rank call.order call.params ix call.queryTokens call.limit)⟩ := by
  unfold rank
  by_cases empty : call.queryTokens = []
  · rw [if_pos empty]
    exact quiet_step .refl (by simp [Call.next, empty])
  by_cases guarded : (ix.documentCount : D) = 0.0 ∨ ix.averageDocLength D ≤ 0.0
  · have counted : call.next ix .started = some (.counted (ix.documentCount : D)) := by
      simp [Call.next, empty]
    rw [if_neg empty, if_pos guarded]
    exact quiet_step (quiet_step .refl counted) (by simp [Call.next, guarded])
  · rw [if_neg empty, if_neg guarded]
    have resolved := (quiet_collect call layout ix empty guarded).trans
      (quiet_resolve call layout ix _ _)
    simpa using resolved

end Quiet

/-- Everything collected and everything fetched matches the query. -/
structure Call.Sound (call : Call D) (ix : InvertedIndex) (phase : Phase D) : Prop where
  collected : ∀ id ∈ phase.collected, ∀ doc, ix.document id = some doc → call.Matches doc
  asked : ∀ term ∈ phase.remaining, term ∈ call.queryTokens
  fetched : ∀ result ∈ phase.results, call.Matches result.doc

private theorem mem_keys_accumulate {accum : Table Nat D} {docId id : Nat} {amount : D} :
    id ∈ (accumulate accum docId amount).entries.keys ↔ id = docId ∨ id ∈ accum.entries.keys :=
  AList.mem_insert accum

omit [Double D] in
private theorem Call.sound_of_idle {call : Call D} {ix : InvertedIndex} {phase : Phase D}
    (collected : phase.collected = []) (remaining : phase.remaining = [])
    (results : phase.results = []) : call.Sound ix phase := by
  refine ⟨?_, ?_, ?_⟩
  · simp [collected]
  · simp [remaining]
  · simp [results]

/-- A turn of the call keeps what it has collected and fetched matching. -/
theorem Call.Sound.read {call : Call D} {ix : InvertedIndex} (represents : ix.Represents)
    {current phase : Phase D} (sound : call.Sound ix current)
    (taken : call.next ix current = some phase) : call.Sound ix phase := by
  obtain ⟨collected, asked, fetched⟩ := sound
  cases current with
  | started =>
    simp only [Call.next] at taken
    split at taken
    · cases Option.some.inj taken
      exact Call.sound_of_idle rfl rfl rfl
    · cases Option.some.inj taken
      exact Call.sound_of_idle rfl rfl rfl
  | counted N =>
    simp only [Call.next] at taken
    split at taken
    · cases Option.some.inj taken
      exact Call.sound_of_idle rfl rfl rfl
    · cases Option.some.inj taken
      exact ⟨by simp [Phase.collected], fun term member => mem_uniqueTerms.mp member,
        by simp [Phase.results]⟩
  | atTerm N avgdl accum rest =>
    cases rest with
    | nil =>
      cases Option.some.inj taken
      refine ⟨fun id member => collected id ?_, by simp [Phase.remaining], by simp [Phase.results]⟩
      exact ((call.order.perm accum.entries).map Sigma.fst).mem_iff.mp member
    | cons term rest =>
      simp only [Call.next] at taken
      cases found : ix.postings term with
      | none =>
        rw [found] at taken
        cases Option.some.inj taken
        exact ⟨collected, fun other member => asked other (List.mem_cons_of_mem _ member), fetched⟩
      | some list =>
        rw [found] at taken
        cases Option.some.inj taken
        refine ⟨fun id member doc live => ?_,
          fun other member => asked other (List.mem_cons_of_mem _ member), fetched⟩
        rcases List.mem_append.mp member with copied | scored
        · obtain ⟨posting, listed, rfl⟩ := List.mem_map.mp copied
          have listed : posting ∈ ix.postingsOf term := by
            rw [InvertedIndex.postingsOf, show ix.postings_.lookup term = some list from found]
            exact listed
          obtain ⟨stored, alive, inside, _⟩ := (represents.indexed.mem_postings term _).mp listed
          cases Option.some.inj (alive.symm.trans live)
          exact ⟨term, asked term (by simp [Phase.remaining]), inside⟩
        · exact collected id scored doc live
  | atPosting N avgdl accum postingCount list rest =>
    cases list with
    | nil =>
      cases Option.some.inj taken
      exact ⟨collected, asked, fetched⟩
    | cons p list =>
      cases Option.some.inj taken
      refine ⟨fun id member => collected id ?_, asked, fetched⟩
      simp only [Phase.collected, List.mem_append, mem_keys_accumulate] at member
      simp only [Phase.collected, List.mem_append, List.map_cons, List.mem_cons]
      tauto
  | resolving entries results =>
    cases entries with
    | nil =>
      cases Option.some.inj taken
      refine ⟨by simp [Phase.collected], by simp [Phase.remaining], fun result member => ?_⟩
      exact fetched result ((rankBy_perm before results).mem_iff.mp (List.mem_of_mem_take member))
    | cons entry entries =>
      obtain ⟨docId, score⟩ := entry
      simp only [Call.next] at taken
      cases found : ix.document docId with
      | none =>
        rw [found] at taken
        cases Option.some.inj taken
        exact ⟨fun id member => collected id (List.mem_cons_of_mem _ member), asked, fetched⟩
      | some doc =>
        rw [found] at taken
        cases Option.some.inj taken
        refine ⟨fun id member => collected id (List.mem_cons_of_mem _ member), asked,
          fun result member => ?_⟩
        rcases List.mem_append.mp member with earlier | newest
        · exact fetched result earlier
        · rw [List.mem_singleton.mp newest]
          exact collected docId List.mem_cons_self doc found
  | returned results => cases taken

/-- The invariant of a run. -/
def Call.Invariant (call : Call D) (state : Shared D) : Prop :=
  state.ix.Represents ∧ call.Sound state.ix state.phase

omit [Double D] in
theorem Call.invariant_started (call : Call D) {ix : InvertedIndex} (represents : ix.Represents) :
    call.Invariant ⟨ix, .started⟩ :=
  ⟨represents, by simp [Phase.collected], by simp [Phase.remaining], by simp [Phase.results]⟩

theorem Call.Invariant.step {call : Call D} {layout : Layout} {before after : Shared D} {turn : Turn}
    (held : call.Invariant before) (spares : call.SparesCollected layout before turn)
    (taken : (call.machine layout).step before turn = some after) : call.Invariant after := by
  obtain ⟨represents, sound⟩ := held
  cases turn with
  | read =>
    obtain ⟨phase, next, rfl⟩ := Option.map_eq_some_iff.mp taken
    exact ⟨represents, sound.read represents next⟩
  | write op =>
    cases Option.some.inj taken
    exact ⟨IndexOp.represents_apply represents layout op, spares, sound.asked, sound.fetched⟩

/-- In every run whose writes leave no document without a query token under an id that
the call has collected, every document returned contains a query token. -/
theorem Call.returned_matches (call : Call D) (layout : Layout) (ops : List IndexOp)
    (state : Shared D) (reached : (call.machine layout).Reaches (call.SparesCollected layout)
      ⟨IndexOp.runAll layout ops, .started⟩ state) (results : List (ScoredDocument D))
    (returned : state.phase = .returned results) :
    ∀ result ∈ results, call.Matches result.doc := by
  have held : call.Invariant state :=
    reached.invariant (call.invariant_started (IndexOp.represents_runAll layout ops))
      fun _ _ _ held spares taken => held.step spares taken
  intro result member
  refine held.2.fetched result ?_
  rw [returned]
  exact member

/-- A search for the token `x`. -/
noncomputable def searchX : Call ℝ :=
  { order := .stored, params := .standard, queryTokens := [ascii "x"], limit := 10 }

/-- One stored document that contains the token. -/
def storedX : List IndexOp :=
  [.addDocument { url := ascii "a", title := ascii "x" }]

/-- The same URL with another text. -/
def rewriteY : IndexOp :=
  .addDocument { url := ascii "a", title := ascii "y" }

private theorem collected_searchX : ∃ score : ℝ, (searchX.machine fun _ => .stored).Reaches Quiet
    ⟨IndexOp.runAll (fun _ => .stored) storedX, .started⟩
    ⟨IndexOp.runAll (fun _ => .stored) storedX, .resolving [⟨1, score⟩] []⟩ := by
  let ix := IndexOp.runAll (fun _ => .stored) storedX
  have bounded : ∀ op ∈ storedX, ∀ doc ∈ op.documents, doc.NoWrap := by
    intro op member doc present
    apply Document.noWrap_of_length
    revert op doc
    decide
  have stored := IndexOp.allStored_runAll (P := Document.NoWrap) (fun _ _ held => held)
    (fun _ => .stored) bounded
  have live : ix.docs_.lookup 1 = some { id := 1, url := ascii "a", title := ascii "x" } := by
    decide
  have inside : ascii "x" ∈ Document.tokens { id := 1, url := ascii "a", title := ascii "x" } := by
    decide
  have long := averageDocLength_pos (D := ℝ) (IndexOp.represents_runAll _ storedX) stored live inside
  have one : (ix.documentCount : ℝ) ≠ 0.0 := (Double.natCast_pos (D := ℝ) ix.documentCount
    (by decide)).ne'
  have terms : uniqueTerms searchX.queryTokens = [ascii "x"] := by decide
  have postings : ix.postings (ascii "x") = some [⟨1, 3⟩] := by decide
  have collected := quiet_collect searchX (fun _ => .stored) ix (by decide) (not_or.mpr ⟨one, long⟩)
  simp only [terms, List.foldl_cons, List.foldl_nil, scoreTerm, postings] at collected
  exact ⟨_, collected⟩

omit [Double D] in
private theorem Quiet.spares {call : Call D} {layout : Layout} {state : Shared D} {turn : Turn}
    (quiet : Quiet state turn) : call.SparesCollected layout state turn := by
  cases turn with
  | read => trivial
  | write op => cases quiet

/-- A write to another URL spares what was collected, and the search returns its match. -/
theorem Call.returned_matches_beside_write : ∃ state : Shared ℝ,
    (searchX.machine fun _ => .stored).Reaches (searchX.SparesCollected fun _ => .stored)
      ⟨IndexOp.runAll (fun _ => .stored) storedX, .started⟩ state ∧
    ∃ results, state.phase = .returned results ∧ results ≠ [] ∧
      ∀ result ∈ results, searchX.Matches result.doc := by
  obtain ⟨score, collected⟩ := collected_searchX
  let other : IndexOp := .addDocument { url := ascii "b", title := ascii "y" }
  let ix := other.apply (fun _ => .stored) (IndexOp.runAll (fun _ => .stored) storedX)
  have found : ix.document 1 = some { id := 1, url := ascii "a", title := ascii "x" } := by decide
  have spares : searchX.SparesCollected (fun _ => .stored)
      ⟨IndexOp.runAll (fun _ => .stored) storedX, .resolving [⟨1, score⟩] []⟩ (.write other) := by
    intro id member doc live
    cases List.mem_singleton.mp member
    cases Option.some.inj (live.symm.trans found)
    refine ⟨ascii "x", List.mem_singleton_self _, ?_⟩
    decide
  have written := Machine.Reaches.step (.write other)
    (collected.weaken fun _ _ quiet => quiet.spares) spares rfl
  have reached := written.trans ((quiet_resolve searchX (fun _ => .stored) ix [⟨1, score⟩]
    []).weaken fun _ _ quiet => quiet.spares)
  refine ⟨_, reached, _, rfl, ?_, searchX.returned_matches _ storedX _ reached _ rfl⟩
  simp [found, finish, rankBy, searchX]

/-- The write lands between the posting list and the document, and the rewritten
document is returned. -/
theorem searchX_returns_unmatched : ∃ state : Shared ℝ,
    (searchX.machine fun _ => .stored).Reachable
      ⟨IndexOp.runAll (fun _ => .stored) storedX, .started⟩ state ∧
    ∃ results, state.phase = .returned results ∧
      ∃ result ∈ results, ¬ searchX.Matches result.doc := by
  obtain ⟨score, collected⟩ := collected_searchX
  let ix := rewriteY.apply (fun _ => .stored) (IndexOp.runAll (fun _ => .stored) storedX)
  have written := Machine.Reaches.step (.write rewriteY) collected.reachable trivial rfl
  have resolved := (quiet_resolve searchX (fun _ => .stored) ix [⟨1, score⟩] []).reachable
  have found : ix.document 1 = some { id := 1, url := ascii "a", title := ascii "y" } := by decide
  refine ⟨_, written.trans resolved, _, rfl,
    ⟨{ id := 1, url := ascii "a", title := ascii "y" }, score⟩, ?_, ?_⟩
  · simp [found, finish, rankBy, searchX]
  · change ¬ ∃ token ∈ [ascii "x"],
      token ∈ Document.tokens { id := 1, url := ascii "a", title := ascii "y" }
    decide

end BM25Ranker

end ShadowSe
