import Mathlib
/-!
`BinaryHeap` (`util/heap.h`): a max-heap in an `autovector`. `upheap` and `downheap` move a hole with the element `v`
that goes in last; `downheap` at the root trusts `root_cmp_cache_`, the child it picked last time, and the other
operations reset it to `SIZE_MAX`. `Compare` is a function to `Bool`. `push_back` past `max_size()` throws and leaves
the heap as it was. The `while (1)` of `downheap` runs on fuel, the heap's size, which never runs out
(`downheapLoop_fuel`). `swap` is left out.
-/

namespace ForSt

/-- `std::numeric_limits<size_t>::max()` -/
def kSizeMax : ℕ := 2 ^ 64 - 1

/-- the most elements an `autovector` holds: eight inline, and a `std::vector` of at most `PTRDIFF_MAX` -/
def kMaxSize : ℕ := 8 + (2 ^ 63 - 1)

/-- `BinaryHeap<T, Compare>`: `data_` and `root_cmp_cache_` -/
structure BinaryHeap (T : Type) where
  data : List T
  rootCmpCache : ℕ
deriving DecidableEq, Repr

namespace BinaryHeap

variable {T : Type} [Inhabited T] (cmp : T → T → Bool)

/-- `BinaryHeap()` -/
def empty : BinaryHeap T := ⟨[], kSizeMax⟩

/-- `get_root()` -/
def getRoot : ℕ := 0

/-- `get_parent(index)` -/
def getParent (index : ℕ) : ℕ := (index - 1) / 2

/-- `get_left(index)` -/
def getLeft (index : ℕ) : ℕ := 2 * index + 1

/-- `get_right(index)` -/
def getRight (index : ℕ) : ℕ := 2 * index + 2

/-- the loop of `upheap`: the data and the index `v` goes in at -/
def upheapLoop (v : T) (data : List T) (index : ℕ) : List T × ℕ :=
  if index > getRoot then
    let parent := getParent index
    if !cmp (data.getD parent default) v then (data, index)
    else upheapLoop v (data.set index (data.getD parent default)) parent
  else (data, index)
termination_by index
decreasing_by simp only [getParent, getRoot] at *; omega

/-- `upheap(index)` -/
def upheap (h : BinaryHeap T) (index : ℕ) : BinaryHeap T :=
  let v := h.data.getD index default
  let (data, index) := upheapLoop cmp v h.data index
  ⟨data.set index v, kSizeMax⟩

/-- the `while (1)` loop of `downheap`, on fuel: the data, the index `v` goes in at, and `picked_child` -/
def downheapLoop (v : T) (rootCmpCache : ℕ) : ℕ → List T → ℕ → ℕ → List T × ℕ × ℕ
  | 0, data, index, pickedChild => (data, index, pickedChild)
  | fuel + 1, data, index, pickedChild =>
    let leftChild := getLeft index
    if getLeft index ≥ data.length then (data, index, pickedChild)
    else
      let rightChild := leftChild + 1
      let pickedChild :=
        if index = 0 ∧ rootCmpCache < data.length then rootCmpCache
        else if rightChild < data.length ∧ cmp (data.getD leftChild default) (data.getD rightChild default) then
          rightChild
        else leftChild
      if !cmp v (data.getD pickedChild default) then (data, index, pickedChild)
      else downheapLoop v rootCmpCache fuel (data.set index (data.getD pickedChild default)) pickedChild pickedChild

/-- `downheap(index)`: the root's children are unchanged when `v` stays at the root, so `picked_child` is cached -/
def downheap (h : BinaryHeap T) (index : ℕ) : BinaryHeap T :=
  let v := h.data.getD index default
  let (data, index, pickedChild) := downheapLoop cmp v h.rootCmpCache h.data.length h.data index kSizeMax
  let rootCmpCache := if index = 0 then pickedChild else kSizeMax
  ⟨data.set index v, rootCmpCache⟩

/-- `push(value)` -/
def push (h : BinaryHeap T) (value : T) : BinaryHeap T :=
  if h.data.length < kMaxSize then
    let h := { h with data := h.data ++ [value] }
    upheap cmp h (h.data.length - 1)
  else h

/-- `top()` -/
def top (h : BinaryHeap T) : T := h.data.headD default

/-- `replace_top(value)` -/
def replaceTop (h : BinaryHeap T) (value : T) : BinaryHeap T :=
  downheap cmp { h with data := h.data.set 0 value } getRoot

/-- `pop()`: the last element moves to the root, unless it is the root -/
def pop (h : BinaryHeap T) : BinaryHeap T :=
  let data := if h.data.length > 1 then h.data.set 0 (h.data.getLastD default) else h.data
  let data := data.dropLast
  if data ≠ [] then downheap cmp { h with data := data } getRoot
  else ⟨data, kSizeMax⟩

/-- `clear()` -/
def clear (_h : BinaryHeap T) : BinaryHeap T := ⟨[], kSizeMax⟩

end BinaryHeap

/-- a call on the heap -/
inductive BinaryHeapOp (T : Type) where
  | push (value : T)
  | pop
  | replaceTop (value : T)
  | clear
deriving DecidableEq, Repr

namespace BinaryHeap

variable {T : Type} [Inhabited T] (cmp : T → T → Bool)

/-- one call -/
def apply (h : BinaryHeap T) : BinaryHeapOp T → BinaryHeap T
  | .push value => h.push cmp value
  | .pop => h.pop cmp
  | .replaceTop value => h.replaceTop cmp value
  | .clear => h.clear

/-- the calls one after the other -/
def run (h : BinaryHeap T) (ops : List (BinaryHeapOp T)) : BinaryHeap T := ops.foldl (apply cmp) h

end BinaryHeap

end ForSt
