import Mathlib.Data.List.Sort
import ForSt.Db.Dbformat
/-!
The heap of prepared sequence numbers of write-prepared transactions (`WritePreparedTxnDB::PreparedHeap` in
`utilities/transactions/write_prepared_txn_db.h`).

Prepare sequence numbers are pushed in increasing order onto the back of a deque, so its front is the least. Erasing
a number below the top ignores it, erasing the top pops it, and erasing one further down the deque only records it
in `erased_heap_`, a min-heap; `pop` then drops from the front of the deque each number recorded there.
`heap_top_` caches the front, or `kMaxSequenceNumber` once the deque is empty, and `empty()` reads the cache.

The model is of one thread, so the mutex and the atomic are left out. `erased_heap_` is a `std::priority_queue` with
`std::greater`: its top is its least element, and it is a sorted list here, pushed by `orderedInsert`.
-/

namespace ForSt

/-- `PreparedHeap` -/
structure PreparedHeap where
  heap : List ℕ := []
  erasedHeap : List ℕ := []
  heapTop : ℕ := kMaxSequenceNumber
deriving DecidableEq, Repr

namespace PreparedHeap

/-- `top()` -/
def top (h : PreparedHeap) : ℕ := h.heapTop

/-- `empty()` -/
def empty (h : PreparedHeap) : Bool := h.top == kMaxSequenceNumber

/-- `push`, which asserts that a number pushed onto a non-empty deque is above the top -/
def push (h : PreparedHeap) (v : ℕ) : PreparedHeap :=
  { h with heap := h.heap ++ [v], heapTop := if h.heap.isEmpty then v else h.heapTop }

/-- the first loop of `pop`: while the front of the deque is not below the least erased number, that number is
dropped, and the front with it when they are equal -/
def popErasedLoop : List ℕ → List ℕ → List ℕ × List ℕ
  | front :: heap, erased :: erasedHeap =>
    if erased ≤ front then
      if front = erased then popErasedLoop heap erasedHeap else popErasedLoop (front :: heap) erasedHeap
    else (front :: heap, erased :: erasedHeap)
  | heap, erasedHeap => (heap, erasedHeap)

/-- `pop`: the front is dropped, then the erased numbers at the front; the second loop empties `erased_heap_` once
the deque is empty -/
def pop (h : PreparedHeap) : PreparedHeap :=
  let (heap, erasedHeap) := popErasedLoop h.heap.tail h.erasedHeap
  let erasedHeap := if heap.isEmpty then [] else erasedHeap
  ⟨heap, erasedHeap, heap.head?.getD kMaxSequenceNumber⟩

/-- `erase` -/
def erase (h : PreparedHeap) (seq : ℕ) : PreparedHeap :=
  if !h.empty then
    let topSeq := h.top
    -- already popped
    if seq < topSeq then h
    else if topSeq = seq then h.pop
    -- down the heap, to be popped later
    else { h with erasedHeap := h.erasedHeap.orderedInsert (· ≤ ·) seq }
  else h

end PreparedHeap

/-- a call on a `PreparedHeap` -/
inductive PreparedHeapOp where
  | push (v : ℕ)
  | pop
  | erase (v : ℕ)
deriving DecidableEq, Repr

/-- one call on the heap -/
def PreparedHeap.apply (h : PreparedHeap) : PreparedHeapOp → PreparedHeap
  | .push v => h.push v
  | .pop => h.pop
  | .erase v => h.erase v

/-- the calls one after the other -/
def PreparedHeap.run (h : PreparedHeap) (ops : List PreparedHeapOp) : PreparedHeap := ops.foldl apply h

end ForSt
