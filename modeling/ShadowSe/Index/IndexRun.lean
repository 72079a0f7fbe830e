import ShadowSe.Index.IndexInvariant

namespace ShadowSe

open Support

namespace InvertedIndex

/-- The whole representation invariant: the maps describe the stored documents,
URLs and ids correspond one to one, and no id has yet to be given out. -/
structure Represents (ix : InvertedIndex) : Prop where
  indexed : ix.Indexed fun id => ix.docs_.lookup id
  urls : ∀ url id, ix.urlToId_.lookup url = some id ↔
    ∃ doc, ix.docs_.lookup id = some doc ∧ doc.url = url
  ids : ∀ id doc, ix.docs_.lookup id = some doc → doc.id = id ∧ 0 < id ∧ id < ix.nextId_
  next : 0 < ix.nextId_

theorem represents_empty : empty.Represents := by
  refine ⟨⟨?_, ?_, ?_, ?_, ?_, rfl⟩, ?_, ?_, by decide⟩
  · simp [empty]
  · simp [empty, postingsOf]
  · simp [empty, postingsOf]
  · simp [empty, termsOf]
  · simp [empty]
  · simp [empty]
  · simp [empty]

theorem Represents.oneId {ix : InvertedIndex} (sound : ix.Represents) {id other : Nat}
    {doc version : Document} (live : ix.docs_.lookup id = some doc)
    (liveOther : ix.docs_.lookup other = some version) (sameUrl : doc.url = version.url) :
    id = other := by
  have own := (sound.urls doc.url id).mpr ⟨doc, live, rfl⟩
  have theirs := (sound.urls doc.url other).mpr ⟨version, liveOther, sameUrl.symm⟩
  exact Option.some.inj (own.symm.trans theirs)

theorem Represents.lookup_nextId {ix : InvertedIndex} (sound : ix.Represents) :
    ix.docs_.lookup ix.nextId_ = none := by
  cases live : ix.docs_.lookup ix.nextId_ with
  | none => rfl
  | some doc => exact absurd (sound.ids _ doc live).2.2 (Nat.lt_irrefl _)

/-- The id an addition stores its document under. -/
def targetId (ix : InvertedIndex) (url : Bytes) : Nat :=
  (ix.urlToId_.lookup url).getD ix.nextId_

theorem claimId_id (ix : InvertedIndex) (url : Bytes) : (ix.claimId url).2 = ix.targetId url := by
  unfold claimId targetId
  cases ix.urlToId_.lookup url <;> rfl

/-- Whatever is stored under the id for a URL has that URL. -/
theorem Represents.url_of_targetId {ix : InvertedIndex} (sound : ix.Represents) {url : Bytes}
    {doc : Document} (live : ix.docs_.lookup (ix.targetId url) = some doc) : doc.url = url := by
  unfold targetId at live
  cases known : ix.urlToId_.lookup url with
  | none =>
    rw [known, Option.getD_none, sound.lookup_nextId] at live
    cases live
  | some id =>
    obtain ⟨version, stored, same⟩ := (sound.urls url id).mp known
    rw [known, Option.getD_some, stored] at live
    cases Option.some.inj live
    exact same

private theorem Represents.claimId {ix : InvertedIndex} (sound : ix.Represents) (url : Bytes) :
    (ix.claimId url).1.Indexed
      (Function.update (fun id => ix.docs_.lookup id) (ix.targetId url) none) ∧
    ix.nextId_ ≤ (ix.claimId url).1.nextId_ ∧
    ix.targetId url < (ix.claimId url).1.nextId_ ∧ 0 < ix.targetId url := by
  unfold InvertedIndex.claimId targetId
  cases found : ix.urlToId_.lookup url with
  | some id =>
    obtain ⟨doc, live, _⟩ := (sound.urls url id).mp found
    obtain ⟨_, positive, below⟩ := sound.ids id doc live
    exact ⟨sound.indexed.unindex id, Nat.le_refl _, below, positive⟩
  | none =>
    have same : Function.update (fun id => ix.docs_.lookup id) ix.nextId_ none =
        fun id => ix.docs_.lookup id := by
      conv_rhs => rw [← Function.update_eq_self ix.nextId_ fun id => ix.docs_.lookup id]
      rw [sound.lookup_nextId]
    refine ⟨?_, Nat.le_succ _, Nat.lt_succ_self _, sound.next⟩
    simp only [Option.getD_none, same]
    exact ⟨sound.indexed.nonempty, sound.indexed.nodup, sound.indexed.mem_postings,
      sound.indexed.terms, sound.indexed.lengths, sound.indexed.total⟩

/-- The documents after an addition: the target id holds the new version. -/
theorem addDocument_docs (layout : Layout) (ix : InvertedIndex) (doc : Document) :
    (ix.addDocument layout doc).docs_ = ix.docs_.insert (ix.targetId doc.url)
      { doc with id := ix.targetId doc.url } := by
  have claimed : (ix.claimId doc.url).1.docs_ = ix.docs_ := by
    unfold claimId
    cases ix.urlToId_.lookup doc.url <;> rfl
  simp only [addDocument, addDocumentLocked, (pushTerms_frame _ _ _).2.1, claimed, claimId_id]

/-- Only the added document's own URL is remapped. -/
theorem addDocument_urlToId (layout : Layout) (ix : InvertedIndex) (doc : Document) (url : Bytes) :
    (ix.addDocument layout doc).urlToId_.lookup url =
      if url = doc.url then some (ix.targetId doc.url) else ix.urlToId_.lookup url := by
  simp only [addDocument, addDocumentLocked, (pushTerms_frame _ _ _).1]
  unfold claimId targetId
  cases found : ix.urlToId_.lookup doc.url with
  | none => exact Table.lookup_insert_ite _ _ _ _
  | some id =>
    by_cases same : url = doc.url
    · subst url
      simpa [unindex] using found
    · simp [unindex, same]

theorem addDocument_fresh (layout : Layout) {ix : InvertedIndex} {doc : Document}
    (fresh : ix.urlToId_.lookup doc.url = none) :
    ix.targetId doc.url = ix.nextId_ ∧ (ix.addDocument layout doc).nextId_ = ix.nextId_ + 1 := by
  constructor
  · simp [targetId, fresh]
  · simp only [addDocument, addDocumentLocked, (pushTerms_frame _ _ _).2.2.2]
    simp [claimId, fresh]

theorem addDocument_known (layout : Layout) {ix : InvertedIndex} {doc : Document} {id : Nat}
    (known : ix.urlToId_.lookup doc.url = some id) :
    ix.targetId doc.url = id ∧ (ix.addDocument layout doc).nextId_ = ix.nextId_ := by
  constructor
  · simp [targetId, known]
  · simp only [InvertedIndex.addDocument, addDocumentLocked, (pushTerms_frame _ _ _).2.2.2]
    simp [claimId, known, unindex]

theorem addDocument_lookup (layout : Layout) (ix : InvertedIndex) (doc : Document) (id : Nat) :
    (ix.addDocument layout doc).docs_.lookup id =
      Function.update (fun id => ix.docs_.lookup id) (ix.targetId doc.url)
        (some { doc with id := ix.targetId doc.url }) id := by
  rw [addDocument_docs, Table.lookup_insert_ite]
  by_cases same : id = ix.targetId doc.url
  · simp [same]
  · simp [same]

private theorem Represents.indexed_addDocument {ix : InvertedIndex} (sound : ix.Represents)
    (layout : Layout) (doc : Document) : (ix.addDocument layout doc).Indexed
      fun id => (ix.addDocument layout doc).docs_.lookup id := by
  obtain ⟨claimed, _⟩ := sound.claimId doc.url
  have weights (term : Bytes) :
      Table.find ((layout doc).visit (weightedFreqs (layout doc) doc).entries) term =
        if term ∈ doc.tokens then some (doc.termFreq term) else none := by
    rw [Table.find_visit, (weightedFreqs_counts (layout doc) doc).lookup]
    rfl
  have pushed := claimed.push { doc with id := ix.targetId doc.url }
    (Function.update_self _ _ _) (Table.nodupKeys_visit (layout doc) _) weights
    (weightedFreqs_perm (layout doc) doc)
  rw [Function.update_idem] at pushed
  rw [funext (addDocument_lookup layout ix doc)]
  rw [← claimId_id] at pushed ⊢
  exact ⟨pushed.nonempty, pushed.nodup, pushed.mem_postings, pushed.terms, pushed.lengths,
    pushed.total⟩

private theorem Represents.urls_addDocument {ix : InvertedIndex} (sound : ix.Represents)
    (layout : Layout) (doc : Document) (url : Bytes) (id : Nat) :
    (ix.addDocument layout doc).urlToId_.lookup url = some id ↔
      ∃ held, (ix.addDocument layout doc).docs_.lookup id = some held ∧ held.url = url := by
  rw [addDocument_urlToId, addDocument_lookup]
  by_cases sameUrl : url = doc.url
  · subst url
    rw [if_pos rfl, Option.some.injEq]
    constructor
    · rintro rfl
      exact ⟨_, Function.update_self _ _ _, rfl⟩
    · rintro ⟨held, live, sameUrl⟩
      by_contra different
      rw [Function.update_of_ne (Ne.symm different)] at live
      have mapped := (sound.urls doc.url id).mpr ⟨held, live, sameUrl⟩
      exact different (by simp [targetId, mapped])
  · rw [if_neg sameUrl, sound.urls url id]
    by_cases sameId : id = ix.targetId doc.url
    · subst id
      rw [Function.update_self]
      constructor
      · rintro ⟨held, live, rfl⟩
        exact absurd (sound.url_of_targetId live) sameUrl
      · rintro ⟨held, live, rfl⟩
        exact absurd (congrArg Document.url (Option.some.inj live)).symm sameUrl
    · rw [Function.update_of_ne sameId]

theorem Represents.addDocument {ix : InvertedIndex} (sound : ix.Represents) (layout : Layout)
    (doc : Document) : (ix.addDocument layout doc).Represents := by
  obtain ⟨_, claimedNext, below, positive⟩ := sound.claimId doc.url
  have next : (ix.addDocument layout doc).nextId_ = (ix.claimId doc.url).1.nextId_ := by
    simp only [InvertedIndex.addDocument, addDocumentLocked, (pushTerms_frame _ _ _).2.2.2]
  refine ⟨sound.indexed_addDocument layout doc, sound.urls_addDocument layout doc, ?_, by omega⟩
  intro id held live
  rw [addDocument_lookup] at live
  by_cases sameId : id = ix.targetId doc.url
  · subst id
    rw [Function.update_self] at live
    cases Option.some.inj live
    exact ⟨rfl, positive, by omega⟩
  · rw [Function.update_of_ne sameId] at live
    obtain ⟨same, positive, old⟩ := sound.ids id held live
    exact ⟨same, positive, by omega⟩

theorem Represents.removeDocument {ix : InvertedIndex} (sound : ix.Represents) (docId : Nat) :
    (ix.removeDocument docId).Represents := by
  unfold InvertedIndex.removeDocument
  cases live : ix.docs_.lookup docId with
  | none => exact sound
  | some doc =>
    have found (id : Nat) : (ix.docs_.erase docId).lookup id =
        Function.update (fun id => ix.docs_.lookup id) docId none id := by
      rw [Table.lookup_erase_ite]
      by_cases same : id = docId
      · simp [same]
      · simp [same]
    have removed := sound.indexed.unindex docId
    refine ⟨?_, ?_, ?_, sound.next⟩
    · rw [← funext found] at removed
      exact ⟨removed.nonempty, removed.nodup, removed.mem_postings, removed.terms,
        removed.lengths, removed.total⟩
    · intro url id
      change (ix.urlToId_.erase doc.url).lookup url = some id ↔
        ∃ other, (ix.docs_.erase docId).lookup id = some other ∧ other.url = url
      rw [Table.lookup_erase_ite, Table.lookup_erase_ite]
      have own : ix.urlToId_.lookup doc.url = some docId :=
        (sound.urls doc.url docId).mpr ⟨doc, live, rfl⟩
      by_cases sameUrl : url = doc.url
      · subst url
        by_cases sameId : id = docId
        · simp [sameId]
        · have elsewhere : ¬ ∃ other, ix.docs_.lookup id = some other ∧ other.url = doc.url := by
            intro other
            exact sameId (Option.some.inj (((sound.urls doc.url id).mpr other).symm.trans own))
          simpa [sameId] using elsewhere
      · by_cases sameId : id = docId
        · subst id
          have elsewhere : ix.urlToId_.lookup url ≠ some docId := by
            intro mapped
            obtain ⟨other, otherLive, otherUrl⟩ := (sound.urls url docId).mp mapped
            cases Option.some.inj (otherLive.symm.trans live)
            exact sameUrl otherUrl.symm
          simp [sameUrl, elsewhere]
        · simpa [sameUrl, sameId] using sound.urls url id
    · intro id held alive
      change (ix.docs_.erase docId).lookup id = some held at alive
      rw [Table.lookup_erase_ite] at alive
      split at alive
      · cases alive
      · exact sound.ids id held alive

theorem Represents.addAll {ix : InvertedIndex} (sound : ix.Represents) (layout : Layout)
    (docs : List Document) :
    (docs.foldl (InvertedIndex.addDocument layout) ix).Represents := by
  induction docs generalizing ix with
  | nil => exact sound
  | cons doc rest ih =>
    exact ih (sound.addDocument layout doc)

end InvertedIndex

open InvertedIndex

theorem IndexOp.represents_apply {ix : InvertedIndex} (sound : ix.Represents) (layout : Layout)
    (op : IndexOp) : (op.apply layout ix).Represents := by
  cases op with
  | addDocument doc => exact sound.addDocument layout doc
  | removeDocument docId => exact sound.removeDocument docId
  | clear => exact represents_empty
  | replaceAll docs => exact represents_empty.addAll layout docs

/-- What the empty index has and every allowed call keeps, every run has. -/
theorem IndexOp.runAll_invariant {Inv : InvertedIndex → Prop} {ok : IndexOp → Prop}
    (layout : Layout) {ops : List IndexOp} (initial : Inv .empty)
    (kept : ∀ ix op, Inv ix → ok op → Inv (op.apply layout ix)) (allowed : ∀ op ∈ ops, ok op) :
    Inv (IndexOp.runAll layout ops) := by
  have walk : ∀ (ops : List IndexOp) (ix : InvertedIndex), Inv ix → (∀ op ∈ ops, ok op) →
      Inv (ops.foldl (IndexOp.apply layout) ix) := by
    intro ops
    induction ops with
    | nil => intro ix held _; exact held
    | cons op rest ih =>
      intro ix held allowed
      exact ih _ (kept ix op held (allowed op (by simp)))
        fun other member => allowed other (List.mem_cons_of_mem _ member)
  exact walk ops .empty initial allowed

/-- Every sequence of calls on the empty index leaves a faithful image. -/
theorem IndexOp.represents_runAll (layout : Layout) (ops : List IndexOp) :
    (IndexOp.runAll layout ops).Represents :=
  runAll_invariant layout represents_empty
    (fun _ op sound (_ : True) => represents_apply sound layout op) fun _ _ => trivial

/-- Every stored document has a property. -/
def InvertedIndex.AllStored (P : Document → Prop) (ix : InvertedIndex) : Prop :=
  ∀ id doc, ix.docs_.lookup id = some doc → P doc

section AllStored

variable {P : Document → Prop} (anyId : ∀ doc id, P doc → P { doc with id })
include anyId

private theorem allStored_addAll (layout : Layout) {ix : InvertedIndex} (docs : List Document)
    (held : ix.AllStored P) (given : ∀ doc ∈ docs, P doc) :
    (docs.foldl (InvertedIndex.addDocument layout) ix).AllStored P := by
  induction docs generalizing ix with
  | nil => exact held
  | cons doc rest ih =>
    refine ih ?_ fun other member => given other (List.mem_cons_of_mem _ member)
    intro id stored found
    rw [InvertedIndex.addDocument_docs, Table.lookup_insert_ite] at found
    split at found
    · cases Option.some.inj found
      exact anyId doc _ (given doc (by simp))
    · exact held id stored found

private theorem allStored_apply (layout : Layout) {ix : InvertedIndex} {op : IndexOp}
    (held : ix.AllStored P) (given : ∀ doc ∈ op.documents, P doc) :
    (op.apply layout ix).AllStored P := by
  have none : InvertedIndex.AllStored P .empty := by
    intro id doc found
    simp [InvertedIndex.empty] at found
  cases op with
  | addDocument doc =>
    exact allStored_addAll anyId layout [doc] held given
  | removeDocument docId =>
    intro id doc found
    refine held id doc ?_
    revert found
    simp only [IndexOp.apply, InvertedIndex.removeDocument]
    cases ix.docs_.lookup docId with
    | none => exact fun found => found
    | some removed =>
      intro found
      rw [Table.lookup_erase_ite] at found
      split at found
      · cases found
      · exact found
  | clear => exact none
  | replaceAll docs => exact allStored_addAll anyId layout docs none given

/-- What holds of every document handed to an index, whatever its id, holds of every
document the index stores. -/
theorem IndexOp.allStored_runAll (layout : Layout) {ops : List IndexOp}
    (given : ∀ op ∈ ops, ∀ doc ∈ op.documents, P doc) :
    (IndexOp.runAll layout ops).AllStored P := by
  refine runAll_invariant layout ?_ (fun ix op held => allStored_apply anyId layout held) given
  intro id doc found
  simp [InvertedIndex.empty] at found

end AllStored

/-- What the maps of the index say about its live documents, map by map. -/
structure InvertedIndex.Consistent (ix : InvertedIndex) : Prop where
  urls : ∀ url id, ix.urlToId_.lookup url = some id ↔
    ∃ doc, ix.docs_.lookup id = some doc ∧ doc.url = url
  oneId : ∀ id other doc version, ix.docs_.lookup id = some doc →
    ix.docs_.lookup other = some version → doc.url = version.url → id = other
  ids : ∀ id doc, ix.docs_.lookup id = some doc → doc.id = id ∧ id < ix.nextId_
  postingsExist : ∀ term, (∃ list, ix.postings_.lookup term = some list) ↔
    ∃ id doc, ix.docs_.lookup id = some doc ∧ term ∈ doc.tokens
  postings : ∀ term list, ix.postings_.lookup term = some list →
    (list.map (·.docId)).Nodup ∧ ∀ id freq, ⟨id, freq⟩ ∈ list ↔
      ∃ doc, ix.docs_.lookup id = some doc ∧ term ∈ doc.tokens ∧ freq = doc.termWeight term
  docTerms : ∀ id, (((ix.docTerms_.lookup id).getD []).map (·.1)).Nodup ∧
    ∀ term freq, (term, freq) ∈ (ix.docTerms_.lookup id).getD [] ↔
      ∃ doc, ix.docs_.lookup id = some doc ∧ term ∈ doc.tokens ∧ freq = doc.termWeight term
  docLengths : ∀ id doc, ix.docs_.lookup id = some doc →
    ix.docLengths_.lookup id = some (doc.tokens.dedup.map doc.termWeight).sum
  totalTerms : ix.totalTerms_ =
    (ix.docs_.entries.map fun e => (ix.docLengths_.lookup e.1).getD 0).sum

theorem InvertedIndex.Represents.consistent {ix : InvertedIndex} (sound : ix.Represents)
    (bounded : ix.AllStored Document.NoWrap) : ix.Consistent where
  urls := sound.urls
  oneId := fun _ _ _ _ live liveOther sameUrl => sound.oneId live liveOther sameUrl
  ids := fun id doc live => ⟨(sound.ids id doc live).1, (sound.ids id doc live).2.2⟩
  postingsExist := by
    intro term
    constructor
    · rintro ⟨list, found⟩
      cases list with
      | nil => exact absurd found (sound.indexed.nonempty term)
      | cons posting rest =>
        have member : posting ∈ ix.postingsOf term := by simp [postingsOf, found]
        obtain ⟨doc, live, inside, _⟩ := (sound.indexed.mem_postings term posting).mp member
        exact ⟨posting.docId, doc, live, inside⟩
    · rintro ⟨id, doc, live, inside⟩
      have member := (sound.indexed.mem_postings term ⟨id, doc.termFreq term⟩).mpr
        ⟨doc, live, inside, rfl⟩
      cases found : ix.postings_.lookup term with
      | none => simp [postingsOf, found] at member
      | some list => exact ⟨list, rfl⟩
  postings := by
    intro term list found
    have same : ix.postingsOf term = list := by simp [postingsOf, found]
    rw [← same]
    refine ⟨sound.indexed.nodup term, fun id freq => ?_⟩
    rw [sound.indexed.mem_postings]
    refine exists_congr fun doc => and_congr_right fun live => ?_
    rw [(bounded id doc live).termFreq_eq]
  docTerms := by
    intro id
    have listed := sound.indexed.terms id
    cases live : ix.docs_.lookup id with
    | none =>
      rw [live] at listed
      have empty : ix.termsOf id = [] := listed.eq_nil
      simp only [termsOf] at empty
      simp [empty]
    | some doc =>
      rw [live] at listed
      refine ⟨(listed.map Prod.fst).nodup_iff.mpr doc.nodup_termFreqs, ?_⟩
      intro term freq
      refine (listed.mem_iff.trans Document.mem_termFreqs).trans ?_
      simp [(bounded id doc live).termFreq_eq]
  docLengths := by
    intro id doc live
    rw [sound.indexed.lengths, live]
    simp only [Option.map_some, Document.weightedLength, Document.termFreqs, List.map_map]
    refine congrArg some (congrArg List.sum (List.map_congr_left fun term _ => ?_))
    exact (bounded id doc live).termFreq_eq term
  totalTerms := by
    rw [sound.indexed.total]
    exact Table.total_eq_sum_over _ _ fun key => by simp [sound.indexed.lengths key]

/-- In every state that index calls can reach, all maps are in step with the live
documents, whatever documents were added, replaced and removed before. -/
theorem IndexOp.consistent_runAll (layout : Layout) (ops : List IndexOp)
    (bounded : ∀ op ∈ ops, ∀ doc ∈ op.documents, doc.NoWrap) :
    (IndexOp.runAll layout ops).Consistent :=
  (represents_runAll layout ops).consistent
    (allStored_runAll (fun _ _ held => held) layout bounded)

example : (IndexOp.runAll (fun _ => .stored) [.addDocument
    { title := ascii "Alpha Page", content := ascii "alpha beta alpha" }]).postings
      (ascii "alpha") = some [⟨1, 5⟩] := by decide

theorem IndexOp.consistent_history : (IndexOp.runAll (fun _ => .reversed)
    [.addDocument { url := ascii "a", title := ascii "old", content := ascii "old body" },
      .addDocument { url := ascii "b", title := ascii "two" },
      .addDocument { url := ascii "a", title := ascii "new" }, .removeDocument 2, .clear,
      .replaceAll [{ url := ascii "c", snippet := ascii "x x" }, { url := ascii "c" }]]).Consistent :=
  consistent_runAll _ _ (by
    intro op member doc present
    apply Document.noWrap_of_length
    revert op doc
    decide)

end ShadowSe
