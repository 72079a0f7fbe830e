import ShadowSe.Support.Table
import ShadowSe.Text.Tokenizer

/-! The in-memory inverted index with its document store. Term counts are 32-bit
and wrap; ids, lengths and the total are 64-bit counters that no process lives or
holds text long enough to overflow, and are plain natural numbers. -/

namespace ShadowSe

open Support

inductive SourceType where
  | clearWeb
  | onion
  deriving DecidableEq, Repr

structure Document where
  id : Nat := 0
  url : Bytes := []
  title : Bytes := []
  snippet : Bytes := []
  content : Bytes := []
  source : SourceType := .clearWeb
  depth : UInt32 := 0
  deriving DecidableEq, Repr

/-- The weighted frequency of a term within one document. -/
structure Posting where
  docId : Nat
  termFreq : Nat
  deriving DecidableEq, Repr

/-- Reduction of a `std::uint32_t` result. -/
def wrap32 (n : Nat) : Nat :=
  n % 2 ^ 32

abbrev FreqMap := Table Bytes Nat

/-- `freqs[term] += amount`; an absent term starts from zero. -/
def FreqMap.bump (freqs : FreqMap) (term : Bytes) (amount : Nat) : FreqMap :=
  freqs.insert term (wrap32 ((freqs.lookup term).getD 0 + amount))

def indexText (text : Bytes) (freqs : FreqMap) : FreqMap :=
  (tokenize text).foldl (fun freqs tok => freqs.bump tok 1) freqs

/-- Weighted term frequency extraction: title 3x, snippet/content 1x. -/
def weightedFreqs (order : VisitOrder) (doc : Document) : FreqMap :=
  let freqs := indexText doc.title ∅
  let titleFreqs := indexText doc.title ∅
  let body := indexText doc.content (indexText doc.snippet ∅)
  let freqs := (order.visit body.entries).foldl (fun freqs e => freqs.bump e.1 e.2) freqs
  (order.visit titleFreqs.entries).foldl (fun freqs e => freqs.bump e.1 (wrap32 (2 * e.2))) freqs

/-- How the term tables of each document are laid out in memory. They are local to the
call that indexes the document, so their traversal order is settled by its text. -/
abbrev Layout := Document → VisitOrder

structure InvertedIndex where
  postings_ : Table Bytes (List Posting) := ∅
  urlToId_ : Table Bytes Nat := ∅
  docs_ : Table Nat Document := ∅
  docTerms_ : Table Nat (List (Bytes × Nat)) := ∅
  docLengths_ : Table Nat Nat := ∅
  nextId_ : Nat := 1
  totalTerms_ : Nat := 0

namespace InvertedIndex

/-- The index as constructed, and as `clear` leaves it. -/
def empty : InvertedIndex := {}

/-- The body of the loop in `removePostings` for one term. -/
def removePosting (docId : Nat) (postings : Table Bytes (List Posting)) (term : Bytes) :
    Table Bytes (List Posting) :=
  match postings.lookup term with
  | none => postings
  | some list =>
    let list := list.filter fun p => p.docId != docId
    if list.isEmpty then postings.erase term else postings.insert term list

def removePostings (docId : Nat) (terms : List (Bytes × Nat))
    (postings : Table Bytes (List Posting)) : Table Bytes (List Posting) :=
  terms.foldl (fun postings entry => removePosting docId postings entry.1) postings

/-- The un-indexing shared by replacement and removal. The source reads
`docTerms_[id]` and `docLengths_[id]`, which default when absent, and then erases both. -/
def unindex (ix : InvertedIndex) (id : Nat) : InvertedIndex :=
  { ix with
    postings_ := removePostings id ((ix.docTerms_.lookup id).getD []) ix.postings_
    totalTerms_ := ix.totalTerms_ - (ix.docLengths_.lookup id).getD 0
    docLengths_ := ix.docLengths_.erase id
    docTerms_ := ix.docTerms_.erase id }

/-- The id for a URL: the one it has, un-indexed for replacement, or the next one. -/
def claimId (ix : InvertedIndex) (url : Bytes) : InvertedIndex × Nat :=
  match ix.urlToId_.lookup url with
  | some id => (ix.unindex id, id)
  | none =>
    ({ ix with nextId_ := ix.nextId_ + 1, urlToId_ := ix.urlToId_.insert url ix.nextId_ },
      ix.nextId_)

/-- The loop body that records one term of the document `id`. -/
def pushTerm (id : Nat) (ix : InvertedIndex) (entry : Sigma fun _ : Bytes => Nat) :
    InvertedIndex :=
  { ix with
    postings_ := ix.postings_.insert entry.1
      ((ix.postings_.lookup entry.1).getD [] ++ [⟨id, entry.2⟩])
    docTerms_ := ix.docTerms_.insert id
      ((ix.docTerms_.lookup id).getD [] ++ [(entry.1, entry.2)])
    totalTerms_ := ix.totalTerms_ + entry.2 }

/-- The loop that sums the document's length into `docLengths_[id]`. -/
def sumLength (id : Nat) (entries : List (Sigma fun _ : Bytes => Nat)) (lengths : Table Nat Nat) :
    Table Nat Nat :=
  entries.foldl (fun lengths entry => lengths.insert id ((lengths.lookup id).getD 0 + entry.2))
    (lengths.insert id 0)

def addDocumentLocked (layout : Layout) (ix : InvertedIndex) (doc : Document) :
    InvertedIndex × Nat :=
  let (ix, id) := ix.claimId doc.url
  let entries := (layout doc).visit (weightedFreqs (layout doc) doc).entries
  let ix := entries.foldl (pushTerm id) ix
  let ix := { ix with docLengths_ := sumLength id entries ix.docLengths_ }
  ({ ix with docs_ := ix.docs_.insert id { doc with id := id } }, id)

/-- `addDocument`, which takes the lock around `addDocumentLocked`. -/
def addDocument (layout : Layout) (ix : InvertedIndex) (doc : Document) : InvertedIndex :=
  (ix.addDocumentLocked layout doc).1

def removeDocument (ix : InvertedIndex) (docId : Nat) : InvertedIndex :=
  match ix.docs_.lookup docId with
  | none => ix
  | some doc =>
    let unindexed := ix.unindex docId
    { unindexed with
      urlToId_ := unindexed.urlToId_.erase doc.url
      docs_ := unindexed.docs_.erase docId }

def clear (_ix : InvertedIndex) : InvertedIndex :=
  empty

def replaceAll (layout : Layout) (ix : InvertedIndex) (docs : List Document) : InvertedIndex :=
  docs.foldl (addDocument layout) ix.clear

def postings (ix : InvertedIndex) (term : Bytes) : Option (List Posting) :=
  ix.postings_.lookup term

def document (ix : InvertedIndex) (docId : Nat) : Option Document :=
  ix.docs_.lookup docId

def documentCount (ix : InvertedIndex) : Nat :=
  ix.docs_.entries.length

def docLength (ix : InvertedIndex) (docId : Nat) : Nat :=
  (ix.docLengths_.lookup docId).getD 0

def allDocuments (order : VisitOrder) (ix : InvertedIndex) : List Document :=
  order.visit (Table.values ix.docs_)

end InvertedIndex

/-- The calls that change the index. -/
inductive IndexOp where
  | addDocument (doc : Document)
  | removeDocument (docId : Nat)
  | clear
  | replaceAll (docs : List Document)

namespace IndexOp

def apply (layout : Layout) (ix : InvertedIndex) : IndexOp → InvertedIndex
  | .addDocument doc => ix.addDocument layout doc
  | .removeDocument docId => ix.removeDocument docId
  | .clear => ix.clear
  | .replaceAll docs => ix.replaceAll layout docs

/-- The documents a call hands to the index. -/
def documents : IndexOp → List Document
  | .addDocument doc => [doc]
  | .removeDocument _ | .clear => []
  | .replaceAll docs => docs

/-- A sequence of calls on the empty index. -/
def runAll (layout : Layout) (ops : List IndexOp) : InvertedIndex :=
  ops.foldl (apply layout) .empty

end IndexOp

end ShadowSe
