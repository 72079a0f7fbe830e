import Mathlib.Algebra.Order.BigOperators.Group.List
import Mathlib.Algebra.Order.Ring.Nat
import Mathlib.Data.List.Dedup
import ShadowSe.Index.InvertedIndex

namespace ShadowSe

open Support

namespace Document

/-- All tokens of a document, title first. -/
def tokens (doc : Document) : List Bytes :=
  tokenize doc.title ++ (tokenize doc.snippet ++ tokenize doc.content)

/-- Three times the occurrences in the title plus those in snippet and content. -/
def termWeight (doc : Document) (term : Bytes) : Nat :=
  3 * (tokenize doc.title).count term +
    ((tokenize doc.snippet).count term + (tokenize doc.content).count term)

/-- The frequency the index stores for a term, a 32-bit number. -/
def termFreq (doc : Document) (term : Bytes) : Nat :=
  wrap32 (doc.termWeight term)

/-- The distinct terms of a document with their frequencies. -/
def termFreqs (doc : Document) : List (Bytes × Nat) :=
  doc.tokens.dedup.map fun term => (term, doc.termFreq term)

/-- The weighted length: the sum of the frequencies of the distinct terms. -/
def weightedLength (doc : Document) : Nat :=
  (doc.termFreqs.map (·.2)).sum

/-- No term count of the document wraps in 32 bits. -/
def NoWrap (doc : Document) : Prop :=
  ∀ term, doc.termWeight term < 2 ^ 32

theorem NoWrap.termFreq_eq {doc : Document} (bounded : doc.NoWrap) (term : Bytes) :
    doc.termFreq term = doc.termWeight term :=
  Nat.mod_eq_of_lt (bounded term)

theorem termWeight_eq_zero_iff {doc : Document} {term : Bytes} :
    doc.termWeight term = 0 ↔ term ∉ doc.tokens := by
  simp only [termWeight, tokens, List.mem_append, not_or, ← List.count_eq_zero]
  omega

theorem mem_termFreqs {doc : Document} {term : Bytes} {freq : Nat} :
    (term, freq) ∈ doc.termFreqs ↔ term ∈ doc.tokens ∧ freq = doc.termFreq term := by
  simp only [termFreqs, List.mem_map, List.mem_dedup, Prod.mk.injEq]
  constructor
  · rintro ⟨other, member, rfl, rfl⟩
    exact ⟨member, rfl⟩
  · rintro ⟨member, rfl⟩
    exact ⟨term, member, rfl, rfl⟩

theorem nodup_termFreqs (doc : Document) : (doc.termFreqs.map (·.1)).Nodup := by
  simp [termFreqs, Function.comp_def, List.nodup_dedup]

theorem NoWrap.weightedLength_pos {doc : Document} (bounded : doc.NoWrap) {term : Bytes}
    (member : term ∈ doc.tokens) : 0 < doc.weightedLength := by
  have listed : doc.termFreq term ∈ doc.termFreqs.map (·.2) :=
    List.mem_map.mpr ⟨(term, doc.termFreq term), mem_termFreqs.mpr ⟨member, rfl⟩, rfl⟩
  have nonzero := mt termWeight_eq_zero_iff.mp (not_not_intro member)
  have bound := List.le_sum_of_mem listed
  rw [bounded.termFreq_eq] at bound
  exact Nat.lt_of_lt_of_le (Nat.pos_of_ne_zero nonzero) bound

@[simp] theorem tokens_withId (doc : Document) (id : Nat) :
    ({ doc with id := id } : Document).tokens = doc.tokens := rfl

@[simp] theorem termFreq_withId (doc : Document) (id : Nat) :
    ({ doc with id := id } : Document).termFreq = doc.termFreq := rfl

/-- A bound on the token counts excludes wrapping. -/
theorem noWrap_of_length {doc : Document} (short : 3 * doc.tokens.length < 2 ^ 32) :
    doc.NoWrap := by
  intro term
  have title := (tokenize doc.title).count_le_length (a := term)
  have snippet := (tokenize doc.snippet).count_le_length (a := term)
  have content := (tokenize doc.content).count_le_length (a := term)
  simp only [tokens, List.length_append] at short
  simp only [termWeight]
  omega

end Document

namespace FreqMap

/-- The table holds, for each of the tokens, its weight reduced to 32 bits. -/
structure Counts (freqs : FreqMap) (tokens : List Bytes) (weight : Bytes → Nat) : Prop where
  lookup : ∀ term, freqs.lookup term =
    if term ∈ tokens then some (wrap32 (weight term)) else none
  outside : ∀ term, term ∉ tokens → wrap32 (weight term) = 0

theorem Counts.lookup_getD {freqs : FreqMap} {tokens : List Bytes} {weight : Bytes → Nat}
    (exact : freqs.Counts tokens weight) (term : Bytes) :
    (freqs.lookup term).getD 0 = wrap32 (weight term) := by
  rw [exact.lookup term]
  split
  · rfl
  · exact (exact.outside term ‹_›).symm

theorem Counts.congr {freqs : FreqMap} {tokens others : List Bytes} {weight other : Bytes → Nat}
    (exact : freqs.Counts tokens weight) (same : ∀ term, term ∈ tokens ↔ term ∈ others)
    (equal : ∀ term, wrap32 (weight term) = wrap32 (other term)) : freqs.Counts others other :=
  ⟨fun term => by simp only [exact.lookup, same, equal],
    fun term absent => equal term ▸ exact.outside term (mt (same term).mp absent)⟩

theorem counts_empty : Counts ∅ [] fun _ => 0 :=
  ⟨by simp, by simp [wrap32]⟩

theorem Counts.bump {freqs : FreqMap} {tokens : List Bytes} {weight : Bytes → Nat}
    (exact : freqs.Counts tokens weight) (term : Bytes) (amount : Nat) :
    (freqs.bump term amount).Counts (term :: tokens) fun other =>
      weight other + if other = term then amount else 0 := by
  constructor
  · intro other
    rw [FreqMap.bump, Table.lookup_insert_ite, exact.lookup_getD]
    by_cases same : other = term
    · subst other
      simp [wrap32]
    · simp [same, exact.lookup other]
  · intro other absent
    obtain ⟨different, outside⟩ := not_or.mp (mt List.mem_cons.mpr absent)
    simp [different, exact.outside other outside]

/-- Counting the tokens of a text adds their multiplicities. -/
theorem Counts.tokens {freqs : FreqMap} {present : List Bytes} {weight : Bytes → Nat}
    (exact : freqs.Counts present weight) (tokens : List Bytes) :
    (tokens.foldl (fun freqs tok => freqs.bump tok 1) freqs).Counts (present ++ tokens)
      fun term => weight term + tokens.count term := by
  induction tokens generalizing freqs present weight with
  | nil => simpa using exact
  | cons tok rest ih =>
    refine (ih (exact.bump tok 1)).congr (fun term => by simp [or_left_comm]) fun term => ?_
    rw [List.count_cons]
    by_cases same : term = tok
    · subst term
      simp [Nat.add_comm, Nat.add_left_comm]
    · simp [same, Ne.symm same]

private theorem Counts.addEntries {scale : Nat → Nat} (scale_zero : scale 0 = 0)
    (entries : Table.Entries Bytes Nat) {freqs : FreqMap} {present : List Bytes}
    {weight : Bytes → Nat} (exact : freqs.Counts present weight) (distinct : entries.NodupKeys) :
    Counts (entries.foldl (fun freqs e => freqs.bump e.1 (scale e.2)) freqs)
      (present ++ entries.keys)
      fun term => weight term + scale ((Table.find entries term).getD 0) := by
  induction entries generalizing freqs present weight with
  | nil => simpa [scale_zero] using exact
  | cons entry rest ih =>
    obtain ⟨term, value⟩ := entry
    obtain ⟨absent, distinctRest⟩ := List.nodupKeys_cons.mp distinct
    have missing : Table.find rest term = none := Table.find_eq_none_iff.mpr absent
    refine (ih (exact.bump term (scale value)) distinctRest).congr
      (fun other => by simp [or_left_comm]) fun other => ?_
    by_cases same : other = term
    · subst other
      simp [Table.find_cons, missing, scale_zero]
    · simp [Table.find_cons, same]

/-- Adding a scaled table entry by entry adds its counts, in any order of traversal. -/
theorem Counts.addTable {freqs addend : FreqMap} {present added : List Bytes}
    {weight extra : Bytes → Nat} (exact : freqs.Counts present weight)
    (counted : addend.Counts added extra) (order : VisitOrder) (scale : Nat → Nat)
    (scale_zero : scale 0 = 0)
    (reduces : ∀ n, wrap32 (scale (wrap32 n)) = wrap32 (scale n)) :
    Counts ((order.visit addend.entries).foldl (fun freqs e => freqs.bump e.1 (scale e.2)) freqs)
      (present ++ added) fun term => weight term + scale (extra term) := by
  refine (exact.addEntries scale_zero _ (Table.nodupKeys_visit order addend)).congr ?_ ?_
  · intro term
    have visited : term ∈ (order.visit addend.entries).keys ↔ term ∈ added := by
      rw [← not_iff_not, ← Table.find_eq_none_iff, Table.find_visit, counted.lookup]
      simp
    simp only [List.mem_append, visited]
  · intro term
    have scaled := reduces (extra term)
    rw [Table.find_visit, counted.lookup_getD]
    simp only [wrap32] at scaled ⊢
    omega

end FreqMap

theorem weightedFreqs_counts (order : VisitOrder) (doc : Document) :
    (weightedFreqs order doc).Counts doc.tokens doc.termWeight := by
  have title := FreqMap.counts_empty.tokens (tokenize doc.title)
  have body := (FreqMap.counts_empty.tokens (tokenize doc.snippet)).tokens (tokenize doc.content)
  have withBody := title.addTable body order id rfl fun _ => Nat.mod_mod _ _
  have weighted := withBody.addTable title order (fun n => wrap32 (2 * n)) rfl
    fun n => by simp [wrap32]
  refine weighted.congr (fun term => ?_) fun term => ?_
  · simp only [Document.tokens, List.nil_append, List.mem_append]
    tauto
  · simp only [Document.termWeight, wrap32, id_eq]
    omega

theorem weightedFreqs_perm (order : VisitOrder) (doc : Document) :
    ((order.visit (weightedFreqs order doc).entries).map fun e => (e.1, e.2)).Perm
      doc.termFreqs := by
  have distinct : ((order.visit (weightedFreqs order doc).entries).map
      fun e => (e.1, e.2)).Nodup := by
    apply List.Nodup.of_map Prod.fst
    rw [List.map_map]
    exact Table.nodupKeys_visit order _
  refine (List.perm_ext_iff_of_nodup distinct (doc.nodup_termFreqs.of_map _)).mpr ?_
  rintro ⟨term, freq⟩
  have stored : (term, freq) ∈ (order.visit (weightedFreqs order doc).entries).map
      (fun e => (e.1, e.2)) ↔ (weightedFreqs order doc).lookup term = some freq := by
    rw [← Table.mem_entries_iff, List.mem_map]
    constructor
    · rintro ⟨entry, member, pair⟩
      cases pair
      exact order.mem_visit.mp member
    · intro member
      exact ⟨_, order.mem_visit.mpr member, rfl⟩
  rw [stored, (weightedFreqs_counts order doc).lookup, Document.mem_termFreqs]
  by_cases inside : term ∈ doc.tokens
  · simp [inside, Document.termFreq, eq_comm]
  · simp [inside]

end ShadowSe
